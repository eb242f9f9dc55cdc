import Mathlib.Data.List.Nodup
import Mathlib.Data.List.Perm.Basic
import RouteBook.Pairs

/-!
# Pairs with different keys

Where every key stands once, a look-up finds exactly the pairs that are there (`lookup_eq_some_iff`),
in whatever order they stand (`lookup_perm`). `put` keeps the keys different, and adds a new pair at the
end.
-/

namespace RouteBook.Pairs

variable {α β : Type} [DecidableEq α] {pairs : List (α × β)} {key : α} {value : β}

/-! ## Looking up -/

theorem lookup_eq_none_iff : pairs.lookup key = none ↔ key ∉ pairs.map Prod.fst := by
  rw [List.lookup_eq_none_iff]
  constructor
  · intro h hmem
    obtain ⟨pair, hpair, rfl⟩ := List.mem_map.1 hmem
    simpa using h pair hpair
  · intro h pair hpair
    have hne : key ≠ pair.1 := fun e => h (e ▸ List.mem_map_of_mem hpair)
    simpa using hne

theorem mem_of_lookup (h : pairs.lookup key = some value) : (key, value) ∈ pairs := by
  obtain ⟨before, after, rfl, _⟩ := List.lookup_eq_some_iff.1 h
  simp

theorem lookup_eq_some_iff (hkeys : (pairs.map Prod.fst).Nodup) :
    pairs.lookup key = some value ↔ (key, value) ∈ pairs := by
  refine ⟨mem_of_lookup, fun h => ?_⟩
  obtain ⟨before, after, rfl⟩ := List.append_of_mem h
  refine List.lookup_eq_some_iff.2 ⟨before, after, rfl, fun pair hpair => ?_⟩
  rw [List.map_append, List.nodup_append] at hkeys
  have hne : pair.1 ≠ key := hkeys.2.2 pair.1 (List.mem_map_of_mem hpair) key (by simp)
  simpa using hne.symm

/-- The order of pairs with different keys does not matter. -/
theorem lookup_perm {others : List (α × β)} (h : pairs.Perm others)
    (hkeys : (pairs.map Prod.fst).Nodup) (key : α) : pairs.lookup key = others.lookup key := by
  have hkeys' : (others.map Prod.fst).Nodup := (h.map Prod.fst).nodup_iff.1 hkeys
  apply Option.ext
  intro value
  rw [lookup_eq_some_iff hkeys, lookup_eq_some_iff hkeys', h.mem_iff]

theorem lookup_reverse (hkeys : (pairs.map Prod.fst).Nodup) (key : α) :
    pairs.reverse.lookup key = pairs.lookup key :=
  (lookup_perm (List.reverse_perm pairs).symm hkeys key).symm

/-- Among the pairs with keys of some kind, a key of that kind has the value that it has among all. -/
theorem lookup_filter (p : α → Bool) (hp : p key = true) :
    (pairs.filter fun pair => p pair.1).lookup key = pairs.lookup key := by
  induction pairs with
  | nil => rfl
  | cons pair pairs ih =>
    obtain ⟨k, v⟩ := pair
    by_cases hk : key = k
    · subst hk
      simp [hp]
    · have hb : (key == k) = false := by simpa using hk
      by_cases hpk : p k = true
      · simp [hpk, List.lookup_cons, hb, ih]
      · simp [hpk, List.lookup_cons, hb, ih]

/-! ## Putting -/

theorem mem_keys_put {k : α} :
    k ∈ (put pairs key value).map Prod.fst ↔ k ∈ pairs.map Prod.fst ∨ k = key := by
  rw [keys_put]
  by_cases hm : key ∈ pairs.map Prod.fst
  · rw [if_pos hm]
    constructor
    · exact Or.inl
    · rintro (h | rfl)
      · exact h
      · exact hm
  · rw [if_neg hm, List.mem_append, List.mem_singleton]

theorem nodup_keys_put (hkeys : (pairs.map Prod.fst).Nodup) (key : α) (value : β) :
    ((put pairs key value).map Prod.fst).Nodup := by
  rw [keys_put]
  by_cases hm : key ∈ pairs.map Prod.fst
  · rwa [if_pos hm]
  · rw [if_neg hm, List.nodup_append]
    refine ⟨hkeys, List.nodup_singleton key, ?_⟩
    rintro k hk _ hk' rfl
    exact hm (List.mem_singleton.1 hk' ▸ hk)

/-- A key that is nowhere yet comes last. -/
theorem put_of_not_mem (h : key ∉ pairs.map Prod.fst) (value : β) :
    put pairs key value = pairs ++ [(key, value)] := by
  induction pairs with
  | nil => rfl
  | cons pair pairs ih =>
    obtain ⟨k, v⟩ := pair
    simp only [List.map_cons, List.mem_cons, not_or] at h
    have hne : k ≠ key := fun e => h.1 e.symm
    rw [put, if_neg hne, ih h.2, List.cons_append]

/-- The value of the last key is replaced in its place. -/
theorem put_append_self (h : key ∉ pairs.map Prod.fst) (old value : β) :
    put (pairs ++ [(key, old)]) key value = pairs ++ [(key, value)] := by
  induction pairs with
  | nil => simp [put]
  | cons pair pairs ih =>
    obtain ⟨k, v⟩ := pair
    simp only [List.map_cons, List.mem_cons, not_or] at h
    have hne : k ≠ key := fun e => h.1 e.symm
    rw [List.cons_append, put, if_neg hne, ih h.2, List.cons_append]

end RouteBook.Pairs
