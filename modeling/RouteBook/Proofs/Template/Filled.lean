import RouteBook.Proofs.Template.Decomposition

/-!
# Templates with their values

What stands behind a placeholder, be it nothing or a slash, stands there with values in the template
too (`endsKey_filled`). So no text that begins in a value goes on into the gap behind it: values
without a colon leave no placeholder (`keys_filled`), and values without a slash can be told from what
surrounds them (`filled_injective`).
-/

namespace RouteBook.Template

section
variable {c : Char} {cs : List Char} {values : List (List Char)}

theorem endsKey_iff (cs : List Char) : EndsKey cs ↔ keyOf cs = [] := by
  cases cs with
  | nil => simp [EndsKey, keyOf]
  | cons c cs => by_cases hc : c = '/' <;> simp [EndsKey, keyOf, hc]

/-- One value for each placeholder of the text. -/
def Serves (values : List (List Char)) (cs : List Char) : Prop := values.length = (keys (parts cs)).length

theorem serves_nil : Serves values [] ↔ values = [] := by
  simp [Serves, parts]

theorem serves_hole (hc : c = ':' ∧ keyOf cs ≠ []) (h : Serves values (c :: cs)) :
    ∃ v later, values = v :: later ∧ Serves later (cs.dropWhile (· ≠ '/')) := by
  rw [Serves, parts, if_pos hc, keys_hole, List.length_cons] at h
  obtain ⟨v, later, rfl⟩ := List.exists_cons_of_length_eq_add_one h
  exact ⟨v, later, rfl, by simpa [Serves] using h⟩

theorem serves_literal (hc : ¬ (c = ':' ∧ keyOf cs ≠ [])) :
    Serves values (c :: cs) ↔ Serves values cs := by
  rw [Serves, parts_literal hc, keys_literal, Serves]

/-- Where no key goes on, none goes on with values put in. -/
theorem endsKey_filled (hcs : EndsKey cs) (h : Serves values cs) : EndsKey (filled (parts cs) values) := by
  cases cs with
  | nil =>
    obtain rfl := serves_nil.1 h
    simp [parts, filled, gaps, alternate, EndsKey]
  | cons c cs =>
    obtain rfl : c = '/' := hcs c rfl
    rw [parts_slash, filled_literal]
    simp [EndsKey]

/-- Values without a colon leave no placeholder, and make none together with what surrounds them. -/
theorem keys_filled (h : Serves values cs) (hvalues : ∀ v ∈ values, ':' ∉ v) :
    keys (parts (filled (parts cs) values)) = [] := by
  fun_induction parts cs generalizing values with
  | case1 =>
    obtain rfl := serves_nil.1 h
    simp [filled, gaps, alternate, parts]
  | case2 c cs hc ih =>
    obtain ⟨v, later, rfl, hlater⟩ := serves_hole hc h
    rw [filled_hole, parts_literal_append (hvalues v (by simp)), keys_append, keys_map_literal,
      List.nil_append]
    exact ih hlater fun w hw => hvalues w (by simp [hw])
  | case3 c cs hc ih =>
    have hcs := (serves_literal hc).1 h
    -- A colon that is followed by nothing or by a slash is so still.
    have hlone : ¬ (c = ':' ∧ keyOf (filled (parts cs) values) ≠ []) := by
      rintro ⟨rfl, hkey⟩
      have hends : EndsKey cs := (endsKey_iff cs).2 (by simpa using hc)
      exact hkey ((endsKey_iff _).1 (endsKey_filled hends hcs))
    rw [filled_literal, parts_literal hlone, keys_literal]
    exact ih hcs hvalues

/-- Values without a slash are found in the text again, one by one. -/
theorem filled_injective {others : List (List Char)} (h : Serves values cs) (h' : Serves others cs)
    (hvalues : ∀ v ∈ values, '/' ∉ v) (hothers : ∀ v ∈ others, '/' ∉ v)
    (heq : filled (parts cs) values = filled (parts cs) others) : values = others := by
  fun_induction parts cs generalizing values others with
  | case1 =>
    obtain rfl := serves_nil.1 h
    obtain rfl := serves_nil.1 h'
    rfl
  | case2 c cs hc ih =>
    obtain ⟨v, later, rfl, hlater⟩ := serves_hole hc h
    obtain ⟨w, later', rfl, hlater'⟩ := serves_hole hc h'
    rw [filled_hole, filled_hole] at heq
    -- Both values reach up to the first slash, or to the end.
    have hends := endsKey_dropWhile cs
    have hvw : v = w := by
      rw [← keyOf_append (hvalues v (by simp)) (endsKey_filled hends hlater), heq,
        keyOf_append (hothers w (by simp)) (endsKey_filled hends hlater')]
    subst hvw
    rw [ih hlater hlater' (fun u hu => hvalues u (by simp [hu])) (fun u hu => hothers u (by simp [hu]))
      (List.append_cancel_left heq)]
  | case3 c cs hc ih =>
    rw [filled_literal, filled_literal] at heq
    exact ih ((serves_literal hc).1 h) ((serves_literal hc).1 h') hvalues hothers (List.cons.inj heq).2

/-- Values without a slash add none, and keys have none to lose. -/
theorem count_slash_filled (h : Serves values cs) (hvalues : ∀ v ∈ values, '/' ∉ v) :
    (filled (parts cs) values).count '/' = cs.count '/' := by
  fun_induction parts cs generalizing values with
  | case1 =>
    obtain rfl := serves_nil.1 h
    rfl
  | case2 c cs hc ih =>
    obtain ⟨v, later, rfl, hlater⟩ := serves_hole hc h
    obtain ⟨rfl, _⟩ := hc
    have hkey : (keyOf cs).count '/' = 0 := List.count_eq_zero.2 (slash_not_mem_keyOf cs)
    have hv : v.count '/' = 0 := List.count_eq_zero.2 (hvalues v (by simp))
    have hcs := congrArg (List.count '/') (keyOf_append_dropWhile cs)
    rw [List.count_append, hkey, Nat.zero_add] at hcs
    rw [filled_hole, List.count_append, hv, Nat.zero_add,
      ih hlater fun u hu => hvalues u (by simp [hu]), hcs, List.count_cons_of_ne (by decide)]
  | case3 c cs hc ih =>
    rw [filled_literal, List.count_cons, List.count_cons, ih ((serves_literal hc).1 h) hvalues]

end

end RouteBook.Template
