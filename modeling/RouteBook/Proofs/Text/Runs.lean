import Mathlib

/-!
# Runs, marks and pieces

How a text is taken apart: a run of items of a class ends at the first item outside it
(`dropWhile_append_of_head`, `span_append_inj`), and what stands before the first mark is free of marks
(`takeWhile_ne_append`, `dropWhile_ne_append`). The other way round, a text made of pieces holds what they
hold (`mem_of_mem_intercalate`), and is as long as it has pieces that are not empty
(`length_le_flatten`).
-/

namespace RouteBook.Text

section
variable {α : Type} {q : α → Bool} {a a' b b' : List α}

/-! ## Runs -/

/-- A run of items of a class ends where the next item is outside it. -/
theorem dropWhile_append_of_head (ha : ∀ c ∈ a, q c = true) (hb : ∀ c ∈ b.head?, q c = false) :
    (a ++ b).dropWhile q = b := by
  rw [List.dropWhile_append_of_pos ha]
  cases b with
  | nil => rfl
  | cons c b => simp [hb c rfl]

theorem takeWhile_append_of_head (ha : ∀ c ∈ a, q c = true) (hb : ∀ c ∈ b.head?, q c = false) :
    (a ++ b).takeWhile q = a := by
  rw [List.takeWhile_append_of_pos ha]
  cases b with
  | nil => simp
  | cons c b => simp [hb c rfl]

/-- Two lists that begin with items of a class and go on with one outside it: equal wholes
have equal parts. -/
theorem span_append_inj (ha : ∀ c ∈ a, q c = true) (ha' : ∀ c ∈ a', q c = true)
    (hb : ∀ c ∈ b.head?, q c = false) (hb' : ∀ c ∈ b'.head?, q c = false)
    (h : a ++ b = a' ++ b') : a = a' ∧ b = b' := by
  have hbb : b = b' := by
    rw [← dropWhile_append_of_head ha hb, ← dropWhile_append_of_head ha' hb', h]
  subst hbb
  exact ⟨List.append_cancel_right h, rfl⟩

/-! ## Marks -/

variable [DecidableEq α] {mark : α}

theorem decide_ne_of_not_mem (h : mark ∉ a) : ∀ c ∈ a, decide (c ≠ mark) = true := by
  intro c hc
  rw [decide_eq_true_eq]
  rintro rfl
  exact h hc

theorem takeWhile_ne_append (h : mark ∉ a) (b : List α) :
    (a ++ mark :: b).takeWhile (· ≠ mark) = a :=
  takeWhile_append_of_head (decide_ne_of_not_mem h) (by simp)

theorem dropWhile_ne_append (h : mark ∉ a) (b : List α) :
    (a ++ mark :: b).dropWhile (· ≠ mark) = mark :: b :=
  dropWhile_append_of_head (decide_ne_of_not_mem h) (by simp)

theorem dropWhile_ne_of_not_mem (h : mark ∉ a) : a.dropWhile (· ≠ mark) = [] :=
  List.dropWhile_eq_nil_iff.2 (decide_ne_of_not_mem h)

end

/-! ## Pieces -/

/-- Nothing but separators stands between pieces. -/
theorem mem_of_mem_intercalate {α : Type} {sep : List α} {pieces : List (List α)} {a : α}
    (h : a ∈ sep.intercalate pieces) : a ∈ sep ∨ ∃ piece ∈ pieces, a ∈ piece := by
  induction pieces with
  | nil => simp at h
  | cons piece pieces ih =>
    cases pieces with
    | nil => exact Or.inr ⟨piece, by simp, by simpa using h⟩
    | cons piece' pieces =>
      rw [List.intercalate_cons_of_ne_nil (by simp), List.mem_append, List.mem_append] at h
      rcases h with (h | h) | h
      · exact Or.inr ⟨piece, by simp, h⟩
      · exact Or.inl h
      · exact (ih h).imp_right fun ⟨p, hp, ha⟩ => ⟨p, List.mem_cons_of_mem _ hp, ha⟩

/-- Where every item has a piece that is not empty, the pieces are as long as there are items. -/
theorem length_le_flatten {α β : Type} {R : β → List α → Prop} (hR : ∀ item piece, R item piece → piece ≠ [])
    {items : List β} {pieces : List (List α)} (h : List.Forall₂ R items pieces) :
    items.length ≤ pieces.flatten.length := by
  induction h with
  | nil => simp
  | cons hpiece _ ih =>
    have hpos := List.length_pos_iff.2 (hR _ _ hpiece)
    simp only [List.length_cons, List.flatten_cons, List.length_append]
    omega

end RouteBook.Text
