/-!
# Pairs of key and value

A finite map as a list of pairs, looked up by the first pair with the key. `put` keeps the
place of a key that is there already, so that keys stay in the order of their first use.
-/

namespace RouteBook.Pairs

variable {α β : Type} [DecidableEq α]

/-- Gives `key` the value `value`: in its old place if it has one, else at the end. -/
def put (pairs : List (α × β)) (key : α) (value : β) : List (α × β) :=
  match pairs with
  | [] => [(key, value)]
  | (k, v) :: rest => if k = key then (k, value) :: rest else (k, v) :: put rest key value

/-- Takes all pairs with the key away. -/
def remove (pairs : List (α × β)) (key : α) : List (α × β) :=
  pairs.filter fun (k, _) => k ≠ key

/-- After `put`, the key has the new value and all other keys have what they had. -/
theorem lookup_put (pairs : List (α × β)) (key k : α) (value : β) :
    (put pairs key value).lookup k = if k = key then some value else pairs.lookup k := by
  induction pairs with
  | nil => by_cases h : k = key <;> simp [put, h]
  | cons pair rest ih =>
    obtain ⟨k', v'⟩ := pair
    unfold put
    by_cases h : k = k'
    · subst h
      by_cases h' : k = key <;> simp [h']
    · have hb : (k == k') = false := by simpa using h
      by_cases h' : k' = key
      · subst h'
        simp [h, hb, List.lookup_cons]
      · simp [h', hb, ih, List.lookup_cons]

/-- `put` adds the key at the end of the keys, unless it is there already. -/
theorem keys_put (pairs : List (α × β)) (key : α) (value : β) :
    (put pairs key value).map Prod.fst =
      if key ∈ pairs.map Prod.fst then pairs.map Prod.fst else pairs.map Prod.fst ++ [key] := by
  induction pairs with
  | nil => rfl
  | cons pair rest ih =>
    obtain ⟨k, v⟩ := pair
    unfold put
    by_cases h : k = key
    · simp [h]
    · have h' : key ≠ k := fun e => h e.symm
      by_cases hm : key ∈ rest.map Prod.fst
      · rw [if_pos hm] at ih
        rw [if_neg h, List.map_cons, ih, List.map_cons, if_pos (List.mem_cons_of_mem k hm)]
      · rw [if_neg hm] at ih
        have hm' : key ∉ k :: rest.map Prod.fst := by simp [h', hm]
        rw [if_neg h, List.map_cons, ih, List.map_cons, if_neg hm', List.cons_append]

end RouteBook.Pairs
