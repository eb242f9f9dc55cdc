import RouteBook.Proofs.Text.Utf8

/-!
# Texts without some of their end

`Cut part whole` says that `part` is the beginning of `whole` and lacks some of its end. A text in
two pieces is cut in the first of them or in the second, so that cuts are followed through a text
from its beginning. In UTF-8, a character that is cut is invalid: octets that begin a text and can
be read are those of a beginning of that text (`decode?_prefix`).
-/

namespace RouteBook

/-- The beginning of a text, without some of its end. -/
def Cut {α : Type} (part whole : List α) : Prop := part <+: whole ∧ part ≠ whole

section
variable {α : Type} {part : List α}

instance [DecidableEq α] (part whole : List α) : Decidable (Cut part whole) :=
  inferInstanceAs (Decidable (_ ∧ _))

theorem not_cut_nil : ¬ Cut part [] := fun h => h.2 (List.prefix_nil.1 h.1)

theorem cut_nil {whole : List α} (h : whole ≠ []) : Cut [] whole := ⟨List.nil_prefix, h.symm⟩

/-- The beginning of a text in two pieces ends within the first of them, or takes all of it. -/
theorem prefix_append_cases {a b : List α} (h : part <+: a ++ b) :
    Cut part a ∨ ∃ q, part = a ++ q ∧ q <+: b := by
  by_cases ha : a <+: part
  · right
    obtain ⟨q, rfl⟩ := ha
    exact ⟨q, rfl, (List.prefix_append_right_inj a).1 h⟩
  · left
    rcases List.prefix_or_prefix_of_prefix h (List.prefix_append a b) with hp | hp
    · refine ⟨hp, ?_⟩
      rintro rfl
      exact ha (List.prefix_refl _)
    · exact absurd hp ha

/-- A text in two pieces is cut in the first of them, or in the second. -/
theorem Cut.append_cases {a b : List α} (h : Cut part (a ++ b)) :
    Cut part a ∨ ∃ q, part = a ++ q ∧ Cut q b := by
  rcases prefix_append_cases h.1 with ha | ⟨q, rfl, hq⟩
  · exact Or.inl ha
  · refine Or.inr ⟨q, rfl, hq, ?_⟩
    rintro rfl
    exact h.2 rfl

theorem Cut.cons_cases {c : α} {t : List α} (h : Cut part (c :: t)) :
    part = [] ∨ ∃ q, part = c :: q ∧ Cut q t := by
  rcases Cut.append_cases (a := [c]) h with h | ⟨q, rfl, hq⟩
  · left
    obtain ⟨hpre, hne⟩ := h
    rcases List.prefix_cons_iff.1 hpre with rfl | ⟨t', rfl, ht'⟩
    · rfl
    · exact absurd (by rw [List.prefix_nil.1 ht']) hne
  · exact Or.inr ⟨q, rfl, hq⟩

end

namespace Text.Utf8

/-- A sequence that is broken off is invalid. -/
theorem decodeFrom_completes_cut {p : Pending} {s t : List UInt8} {c : Char} (h : Completes p s c)
    (ht : Cut t s) : decodeFrom (some p) t = [none] := by
  induction h generalizing t with
  | last hb hw =>
    rcases ht.cons_cases with rfl | ⟨q, rfl, hq⟩
    · rfl
    · exact absurd hq not_cut_nil
  | more hb hw _ ih =>
    rcases ht.cons_cases with rfl | ⟨q, rfl, hq⟩
    · rfl
    · rw [decodeFrom_some_cons, if_pos hb, if_neg (Nat.not_le.2 hw)]
      exact ih hq

/-- A character of which not all octets are there is either not there, or invalid. -/
theorem decode?_encodeChar_cut {c : Char} {octets : List UInt8}
    (h : Cut octets (String.utf8EncodeChar c)) : octets = [] ∨ decode? octets = none := by
  obtain ⟨b, t, e, hcases⟩ := encodeChar_cases c
  rw [e] at h
  rcases h.cons_cases with rfl | ⟨q, rfl, hq⟩
  · exact Or.inl rfl
  · right
    rcases hcases with ⟨_, rfl⟩ | ⟨p, hp, hc⟩
    · exact absurd hq not_cut_nil
    · have hdecode : decode (b :: q) = [none] := by
        change decodeFrom none (b :: q) = [none]
        rw [decodeFrom_none_cons, hp]
        exact decodeFrom_completes_cut hc hq
      rw [decode?, hdecode]
      rfl

theorem decode?_encodeChar_append (c : Char) (bs : List UInt8) :
    decode? (String.utf8EncodeChar c ++ bs) = (decode? bs).map (c :: ·) := by
  have hdecode : decode (String.utf8EncodeChar c ++ bs) = some c :: decode bs :=
    decodeFrom_encodeChar c bs
  rw [decode?, decode?, hdecode, List.mapM_cons]
  cases (decode bs).mapM id <;> rfl

/-- **Octets cut short**: the beginning of a text's octets can be read only where it ends between
two characters, and is read as the beginning of the text. -/
theorem decode?_prefix {cs cut : List Char} {octets : List UInt8} (h : octets <+: encode cs)
    (hcut : decode? octets = some cut) : cut <+: cs ∧ octets = encode cut := by
  induction cs generalizing octets cut with
  | nil =>
    obtain rfl := List.prefix_nil.1 h
    obtain rfl : [] = cut := Option.some.inj hcut
    exact ⟨List.prefix_refl _, rfl⟩
  | cons c cs ih =>
    rw [encode, List.flatMap_cons] at h
    rcases prefix_append_cases h with hchar | ⟨q, rfl, hq⟩
    · rcases decode?_encodeChar_cut hchar with rfl | hnone
      · obtain rfl : [] = cut := Option.some.inj hcut
        exact ⟨List.nil_prefix, rfl⟩
      · rw [hnone] at hcut
        cases hcut
    · rw [decode?_encodeChar_append] at hcut
      obtain ⟨cut', hcut', rfl⟩ := Option.map_eq_some_iff.1 hcut
      obtain ⟨hpre, rfl⟩ := ih hq hcut'
      exact ⟨(List.prefix_cons_inj c).2 hpre, rfl⟩

end Text.Utf8

end RouteBook
