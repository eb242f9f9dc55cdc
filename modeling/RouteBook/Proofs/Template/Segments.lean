import RouteBook.Proofs.Template.Parts
import RouteBook.Proofs.Text.Line

/-!
# Templates by segments

The slashes of a template divide it into segments. A segment has at most one placeholder, which
goes from its first colon to its end, unless that colon is its last character (`hole?`). So the parts
of a template are those of its segments, with the slashes between them (`parts_append_slash`,
`parts_of_hole`, `parts_of_no_hole`), and each segment is filled by itself.
-/

namespace RouteBook.Template
open Text

/-! ## The placeholder of a segment -/

/-- What stands before the first colon of a segment, and the key that follows it. -/
def hole? (seg : List Char) : Option (List Char × List Char) :=
  match seg.dropWhile (· ≠ ':') with
  | _ :: c :: key => some (seg.takeWhile (· ≠ ':'), c :: key)
  | _ => none

theorem hole?_of_no_colon {seg : List Char} (h : ':' ∉ seg) : hole? seg = none := by
  rw [hole?, Text.dropWhile_ne_of_not_mem h]

theorem hole?_append {pre : List Char} (h : ':' ∉ pre) (cs : List Char) :
    hole? (pre ++ ':' :: cs) = if cs = [] then none else some (pre, cs) := by
  rw [hole?, Text.dropWhile_ne_append h, Text.takeWhile_ne_append h]
  cases cs <;> simp

/-- A segment reads as what precedes its first colon, that colon, and a key. -/
theorem hole?_eq_some_iff {seg pre key : List Char} :
    hole? seg = some (pre, key) ↔ seg = pre ++ ':' :: key ∧ ':' ∉ pre ∧ key ≠ [] := by
  constructor
  · intro h
    by_cases hc : ':' ∈ seg
    · obtain ⟨p, cs, rfl, hp⟩ := List.eq_append_cons_of_mem hc
      rw [hole?_append hp] at h
      split at h
      · cases h
      · next hcs =>
        simp only [Option.some.injEq, Prod.mk.injEq] at h
        obtain ⟨rfl, rfl⟩ := h
        exact ⟨rfl, hp, hcs⟩
    · rw [hole?_of_no_colon hc] at h
      cases h
  · rintro ⟨rfl, hpre, hkey⟩
    rw [hole?_append hpre, if_neg hkey]

/-- A segment has a placeholder if it has a colon, and its first colon is not its last character. -/
theorem hole?_isSome_iff {seg : List Char} :
    (hole? seg).isSome ↔ ':' ∈ seg ∧ seg.idxOf ':' + 1 ≠ seg.length := by
  by_cases hc : ':' ∈ seg
  · obtain ⟨p, cs, rfl, hp⟩ := List.eq_append_cons_of_mem hc
    rw [hole?_append hp, List.idxOf_append_of_notMem hp]
    cases cs <;> simp
  · simp [hole?_of_no_colon hc, hc]

/-! ## Parts of segments -/

theorem parts_literal_append {a : List Char} (h : ':' ∉ a) (b : List Char) :
    parts (a ++ b) = a.map .literal ++ parts b := by
  induction a with
  | nil => rfl
  | cons c a ih =>
    have hc : c ≠ ':' := by
      rintro rfl
      simp at h
    rw [List.cons_append, parts, if_neg (by simp [hc]), ih (by intro hm; exact h (by simp [hm]))]
    rfl

theorem parts_of_hole {seg pre key : List Char} (h : hole? seg = some (pre, key)) (hs : '/' ∉ seg) :
    parts seg = pre.map .literal ++ [.hole key] := by
  obtain ⟨rfl, hpre, hkey⟩ := hole?_eq_some_iff.1 h
  have hslash : '/' ∉ key := by
    intro hm
    exact hs (by simp [hm])
  rw [parts_literal_append hpre, parts, keyOf_eq_self hslash, if_pos ⟨rfl, hkey⟩,
    Text.dropWhile_ne_of_not_mem hslash, parts]

theorem parts_of_no_hole {seg : List Char} (h : hole? seg = none) : parts seg = seg.map .literal := by
  by_cases hc : ':' ∈ seg
  · obtain ⟨p, cs, rfl, hp⟩ := List.eq_append_cons_of_mem hc
    have hcs : cs = [] := by
      by_contra hne
      rw [hole?_append hp, if_neg hne] at h
      cases h
    subst hcs
    rw [parts_literal_append hp, parts, if_neg (by simp [keyOf]), parts]
    simp
  · have := parts_literal_append hc []
    rwa [List.append_nil, parts, List.append_nil] at this

theorem parts_literal {c : Char} {cs : List Char} (h : ¬ (c = ':' ∧ keyOf cs ≠ [])) :
    parts (c :: cs) = .literal c :: parts cs := by
  rw [parts, if_neg h]

theorem parts_slash (b : List Char) : parts ('/' :: b) = .literal '/' :: parts b :=
  parts_literal (by simp)

theorem keyOf_append_slash (a b : List Char) : keyOf (a ++ '/' :: b) = keyOf a := by
  induction a with
  | nil => simp [keyOf]
  | cons c a ih =>
    by_cases hc : c = '/'
    · simp [keyOf, hc]
    · simpa [keyOf, hc] using ih

theorem dropWhile_append_slash (a b : List Char) :
    (a ++ '/' :: b).dropWhile (· ≠ '/') = a.dropWhile (· ≠ '/') ++ '/' :: b := by
  induction a with
  | nil => simp
  | cons c a ih =>
    by_cases hc : c = '/'
    · simp [hc]
    · simpa [hc] using ih

/-- No placeholder goes over a slash. -/
theorem parts_append_slash (a b : List Char) :
    parts (a ++ '/' :: b) = parts a ++ .literal '/' :: parts b := by
  fun_induction parts a with
  | case1 => exact parts_slash b
  | case2 c a hc ih =>
    rw [List.cons_append, parts, keyOf_append_slash, if_pos hc, dropWhile_append_slash, ih]
    rfl
  | case3 c a hc ih =>
    rw [List.cons_append, parts, keyOf_append_slash, if_neg hc, ih]
    rfl

/-- To show something of every template, show it of single segments, and of a first segment before a
template of which it holds. -/
theorem segments_induction {motive : List Char → Prop} (last : ∀ seg, '/' ∉ seg → motive seg)
    (more : ∀ seg rest, '/' ∉ seg → motive rest → motive (seg ++ '/' :: rest)) (cs : List Char) :
    motive cs := by
  refine Line.lines_induction (· = '/') ?_ ?_ cs
  · intro seg h
    exact last seg (by intro hm; simpa using h _ hm)
  · intro seg c rest h hc hrest
    obtain rfl : c = '/' := by simpa using hc
    exact more seg rest (by intro hm; simpa using h _ hm) hrest

/-- What precedes a segment: the segments `before`, each with its slash. -/
def opened (before : List (List Char)) : List Char := before.flatMap (· ++ ['/'])

/-- A segment has no slash, and its parts are apart from those before it and after it. -/
theorem exists_rest_of_splitOn {cs seg : List Char} {before after : List (List Char)}
    (h : cs.splitOn '/' = before ++ seg :: after) :
    '/' ∉ seg ∧ ∃ b, cs = opened before ++ (seg ++ b) ∧
      parts cs = parts (opened before) ++ (parts seg ++ parts b) := by
  induction cs using segments_induction generalizing before with
  | last s hs =>
    rw [List.splitOn_eq_singleton hs] at h
    cases before with
    | nil =>
      obtain ⟨rfl, _⟩ := List.cons.inj h
      refine ⟨hs, [], by simp [opened], ?_⟩
      simp [opened, parts]
    | cons s' before => simp at h
  | more s rest hs ih =>
    rw [List.splitOn_append_cons_self_of_not_mem hs] at h
    cases before with
    | nil =>
      obtain ⟨rfl, _⟩ := List.cons.inj h
      refine ⟨hs, '/' :: rest, by simp [opened], ?_⟩
      simp [opened, parts, parts_append_slash]
    | cons s' before =>
      obtain ⟨rfl, hrest⟩ := List.cons.inj h
      obtain ⟨hseg, b, rfl, hparts⟩ := ih hrest
      have hopened : opened (s :: before) = s ++ '/' :: opened before := by simp [opened]
      refine ⟨hseg, b, by simp [hopened], ?_⟩
      rw [hopened, parts_append_slash, hparts, parts_append_slash]
      simp

end RouteBook.Template
