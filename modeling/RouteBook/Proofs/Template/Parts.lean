import RouteBook.Proofs.Text.Runs
import RouteBook.Resolution

/-!
# Gaps and placeholders

A template is its placeholders with the gaps between them, one gap more than placeholders. Filling
chooses a value for each placeholder, from left to right, and writes the values in turn with the
gaps (`fillKeyed_eq_choose`, `fillPositional_eq_choose`). What is chosen is said of the keys alone:
by key or in turn, one value for each, or the first key that gets none.
-/

namespace RouteBook.Template

/-! ## Where a key ends -/

theorem keyOf_eq_self {cs : List Char} (h : '/' ∉ cs) : keyOf cs = cs :=
  List.takeWhile_eq_self_iff.2 (Text.decide_ne_of_not_mem h)

theorem slash_not_mem_keyOf (cs : List Char) : '/' ∉ keyOf cs := by
  intro hm
  have := List.mem_takeWhile_imp hm
  simp at this

/-- The key, and what follows it. -/
theorem keyOf_append_dropWhile (cs : List Char) : keyOf cs ++ cs.dropWhile (· ≠ '/') = cs :=
  List.takeWhile_append_dropWhile

/-! ## Gaps and keys -/

/-- Items of one list and of another in turn, beginning with the first. -/
def alternate {α : Type} : List α → List α → List α
  | [], _ => []
  | g :: gs, [] => g :: gs
  | g :: gs, v :: vs => g :: v :: alternate gs vs

theorem alternate_map {α β : Type} (f : α → β) (gs vs : List α) :
    alternate (gs.map f) (vs.map f) = (alternate gs vs).map f := by
  fun_induction alternate gs vs with
  | case1 => rfl
  | case2 => rfl
  | case3 g gs v vs ih => simp [alternate, ih]

/-- The key of a placeholder. -/
def Part.key? : Part → Option (List Char)
  | .literal _ => none
  | .hole key => some key

/-- The keys of the placeholders, from left to right. -/
def keys (ps : List Part) : List (List Char) := ps.filterMap Part.key?

/-- The literal text before, between and after the placeholders. -/
def gaps : List Part → List (List Char)
  | [] => [[]]
  | .literal c :: ps => (gaps ps).modifyHead (c :: ·)
  | .hole _ :: ps => [] :: gaps ps

@[simp] theorem keys_nil : keys [] = [] := rfl

@[simp] theorem keys_literal (c : Char) (ps : List Part) : keys (.literal c :: ps) = keys ps := rfl

@[simp] theorem keys_hole (key : List Char) (ps : List Part) :
    keys (.hole key :: ps) = key :: keys ps := rfl

@[simp] theorem keys_append (ps qs : List Part) : keys (ps ++ qs) = keys ps ++ keys qs :=
  List.filterMap_append

theorem keys_map_literal (cs : List Char) : keys (cs.map .literal) = [] := by
  induction cs with
  | nil => rfl
  | cons c cs ih => exact ih

theorem length_gaps (ps : List Part) : (gaps ps).length = (keys ps).length + 1 := by
  induction ps with
  | nil => rfl
  | cons p ps ih => cases p <;> simp [gaps, ih]

/-- The text that results from values between the gaps of a template. -/
def filled (ps : List Part) (values : List (List Char)) : List Char :=
  (alternate (gaps ps) values).flatten

/-- Literal text is kept. -/
theorem filled_literal (c : Char) (ps : List Part) (values : List (List Char)) :
    filled (.literal c :: ps) values = c :: filled ps values := by
  obtain ⟨g, gs, h⟩ := List.exists_cons_of_length_eq_add_one (length_gaps ps)
  cases values <;> simp [filled, gaps, h, alternate]

/-- A placeholder takes the next value. -/
theorem filled_hole (key : List Char) (ps : List Part) (v : List Char) (values : List (List Char)) :
    filled (.hole key :: ps) (v :: values) = v ++ filled ps values := by
  simp [filled, gaps, alternate]

/-- Placeholders that are given their own text leave the template as it is. -/
theorem filled_tokens (ps : List Part) :
    filled ps ((keys ps).map (':' :: ·)) = ps.flatMap Part.text := by
  induction ps with
  | nil => rfl
  | cons p ps ih =>
    cases p with
    | literal c => simp [filled_literal, ih, Part.text]
    | hole key => simp [filled_hole, ih, Part.text]

/-- The parts of a template make up the template. -/
theorem flatMap_text_parts (cs : List Char) : (parts cs).flatMap Part.text = cs := by
  fun_induction parts cs with
  | case1 => rfl
  | case2 c cs h ih =>
    obtain ⟨rfl, _⟩ := h
    rw [List.flatMap_cons, ih, Part.text, List.cons_append, keyOf_append_dropWhile]
  | case3 c cs h ih => simp [ih, Part.text]

/-! ## Placeholders among parts -/

theorem map_token_locate (start : Nat) (ps : List Part) :
    (locate start ps).map Placeholder.token = (keys ps).map tokenOf := by
  induction ps generalizing start with
  | nil => rfl
  | cons p ps ih => cases p <;> simp [locate, ih, tokenOf]

theorem map_key_locate (start : Nat) (ps : List Part) :
    (locate start ps).map Placeholder.key = (keys ps).map String.ofList := by
  induction ps generalizing start with
  | nil => rfl
  | cons p ps ih => cases p <;> simp [locate, ih]

theorem token_of_mem_locate {start : Nat} {ps : List Part} {p : Placeholder}
    (h : p ∈ locate start ps) : p.token = tokenOf p.key.toList := by
  induction ps generalizing start with
  | nil => simp [locate] at h
  | cons part ps ih =>
    cases part with
    | literal c => exact ih h
    | hole key =>
      rcases List.mem_cons.1 h with rfl | h
      · simp [tokenOf]
      · exact ih h

theorem token_of_mem_placeholders {t : String} {p : Placeholder} (h : p ∈ placeholders t) :
    p.token = tokenOf p.key.toList :=
  token_of_mem_locate h

theorem keys_placeholders (t : String) :
    (placeholders t).map (fun p => p.key.toList) = keys (parts t.toList) := by
  have h := congrArg (List.map String.toList) (map_key_locate 0 (parts t.toList))
  simpa [placeholders, Function.comp_def] using h

/-! ## The values of placeholders -/

section
variable {ε κ σ : Type}

/-- The values for placeholders, one after the other. `valueFor` may change a state, and the first
placeholder for which it has no value ends the choice. -/
def choose (valueFor : σ → κ → Except ε (String × σ)) :
    σ → List κ → Except ε (List String × σ)
  | s, [] => .ok ([], s)
  | s, k :: ks =>
    match valueFor s k with
    | .error e => .error e
    | .ok (v, s') => (choose valueFor s' ks).map fun (vs, rest) => (v :: vs, rest)

theorem choose_cons_ok {valueFor : σ → κ → Except ε (String × σ)} {s s' : σ} {k : κ} {v : String}
    (h : valueFor s k = .ok (v, s')) (ks : List κ) :
    choose valueFor s (k :: ks) = (choose valueFor s' ks).map fun (vs, rest) => (v :: vs, rest) := by
  rw [choose, h]

theorem choose_cons_error {valueFor : σ → κ → Except ε (String × σ)} {s : σ} {k : κ} {e : ε}
    (h : valueFor s k = .error e) (ks : List κ) : choose valueFor s (k :: ks) = .error e := by
  rw [choose, h]

/-- What is chosen for items is chosen for what they stand for, and refused in other words. -/
theorem choose_mapError {ε' κ' : Type} {valueFor : σ → κ → Except ε (String × σ)}
    {valueFor' : σ → κ' → Except ε' (String × σ)} {f : κ → κ'} {e : ε' → ε} {ks : List κ}
    (h : ∀ s, ∀ k ∈ ks, valueFor s k = (valueFor' s (f k)).mapError e) {s : σ} :
    choose valueFor s ks = (choose valueFor' s (ks.map f)).mapError e := by
  induction ks generalizing s with
  | nil => rfl
  | cons k ks ih =>
    have hk := h s k (by simp)
    have hks := fun s' => @ih (fun s k hk => h s k (by simp [hk])) s'
    rw [List.map_cons]
    cases hv : valueFor' s (f k) with
    | error e' =>
      rw [hv] at hk
      rw [choose_cons_error hk, choose_cons_error hv]
      rfl
    | ok result =>
      obtain ⟨v, s'⟩ := result
      rw [hv] at hk
      rw [choose_cons_ok hk, choose_cons_ok hv, hks]
      cases choose valueFor' s' (ks.map f) <;> rfl

end

/-- Values found by key. -/
def byKey (value? : String → Option String) (_ : Unit) (key : List Char) :
    Except (List Char) (String × Unit) :=
  match value? (String.ofList key) with
  | none => .error key
  | some v => .ok (v, ())

theorem byKey_of_some {value? : String → Option String} {key : List Char} {v : String}
    (h : value? (String.ofList key) = some v) : byKey value? () key = .ok (v, ()) := by
  simp [byKey, h]

theorem byKey_of_none {value? : String → Option String} {key : List Char}
    (h : value? (String.ofList key) = none) : byKey value? () key = .error key := by
  simp [byKey, h]

/-- Values used in turn; those not used yet are the state. -/
def inTurn (values : List String) (key : List Char) : Except (List Char) (String × List String) :=
  match values with
  | [] => .error key
  | v :: rest => .ok (v, rest)

section
variable {value? : String → Option String} {ks before after : List (List Char)} {key : List Char}
  {values : List String}

theorem choose_byKey_of_values
    (h : ks.map (fun key => value? (String.ofList key)) = values.map some) :
    choose (byKey value?) () ks = .ok (values, ()) := by
  induction ks generalizing values with
  | nil =>
    obtain rfl : values = [] := by simpa using h.symm
    rfl
  | cons k ks ih =>
    cases values with
    | nil => simp at h
    | cons v values =>
      simp only [List.map_cons, List.cons.injEq] at h
      rw [choose_cons_ok (byKey_of_some h.1), ih h.2]
      rfl

theorem choose_byKey_of_missing (hbefore : ∀ k ∈ before, (value? (String.ofList k)).isSome)
    (hkey : value? (String.ofList key) = none) :
    choose (byKey value?) () (before ++ key :: after) = .error key := by
  induction before with
  | nil => exact choose_cons_error (byKey_of_none hkey) after
  | cons k before ih =>
    obtain ⟨v, hv⟩ := Option.isSome_iff_exists.1 (hbefore k (by simp))
    rw [List.cons_append, choose_cons_ok (byKey_of_some hv),
      ih fun k' hk' => hbefore k' (by simp [hk'])]
    rfl

/-- As many values as placeholders are used up, and those that follow are left over. -/
theorem choose_inTurn_append (h : values.length = ks.length) (rest : List String) :
    choose inTurn (values ++ rest) ks = .ok (values, rest) := by
  induction ks generalizing values with
  | nil =>
    obtain rfl : values = [] := by simpa using h
    rfl
  | cons k ks ih =>
    cases values with
    | nil => simp at h
    | cons v values =>
      rw [List.cons_append, choose_cons_ok rfl, ih (by simpa using h)]
      rfl

theorem choose_inTurn_of_few (h : values.length = before.length) :
    choose inTurn values (before ++ key :: after) = .error key := by
  induction before generalizing values with
  | nil =>
    obtain rfl : values = [] := by simpa using h
    rfl
  | cons k before ih =>
    cases values with
    | nil => simp at h
    | cons v values =>
      rw [List.cons_append, choose_cons_ok rfl, ih (by simpa using h)]
      rfl

end

/-! ## Filling -/

/-- Filling by key puts the values found by key between the gaps. -/
theorem fillKeyed_eq_choose (value? : String → Option String) (ps : List Part) :
    fillKeyed value? ps =
      (choose (byKey value?) () (keys ps)).map fun (vs, _) => filled ps (vs.map String.toList) := by
  induction ps with
  | nil => rfl
  | cons p ps ih =>
    cases p with
    | literal c =>
      rw [fillKeyed, ih, keys_literal]
      cases choose (byKey value?) () (keys ps) <;> simp [Except.map, filled_literal]
    | hole key =>
      rw [fillKeyed, ih, keys_hole]
      cases hv : value? (String.ofList key) with
      | none => rw [choose_cons_error (byKey_of_none hv)]; rfl
      | some v =>
        rw [choose_cons_ok (byKey_of_some hv)]
        cases choose (byKey value?) () (keys ps) <;> simp [Except.map, filled_hole]

/-- Filling by position puts the values in turn between the gaps, and returns the others. -/
theorem fillPositional_eq_choose (values : List String) (ps : List Part) :
    fillPositional values ps = (choose inTurn values (keys ps)).map fun (vs, rest) =>
      (filled ps (vs.map String.toList), rest) := by
  induction ps generalizing values with
  | nil => rfl
  | cons p ps ih =>
    cases p with
    | literal c =>
      rw [fillPositional, ih, keys_literal]
      cases choose inTurn values (keys ps) <;> simp [Except.map, filled_literal]
    | hole key =>
      cases values with
      | nil => rfl
      | cons v values =>
        rw [fillPositional, ih, keys_hole, choose_cons_ok rfl]
        cases choose inTurn values (keys ps) <;> simp [Except.map, filled_hole]

end RouteBook.Template
