import Mathlib
import RouteBook.Text.Utf8

/-!
# Octet offsets into a text

What `size` is of texts put together, and the part of a text between two octet offsets. There is
such a part only where both offsets lie between characters, the first not after the second
(`slice?_eq_some_iff`), so that a slice that is there never holds half a character.
-/

namespace RouteBook.Text.Utf8

@[simp] theorem size_nil : size [] = 0 := rfl

@[simp] theorem size_cons (c : Char) (cs : List Char) : size (c :: cs) = c.utf8Size + size cs := by
  simp [size, encode]

@[simp] theorem size_append (a b : List Char) : size (a ++ b) = size a + size b := by
  simp [size, encode]

theorem size_eq_utf8Len (cs : List Char) : size cs = String.utf8Len cs := by
  induction cs with
  | nil => rfl
  | cons c cs ih =>
    simp only [size_cons, String.utf8Len_cons]
    omega

theorem size_toList (t : String) : size t.toList = t.utf8ByteSize := by
  rw [size_eq_utf8Len, String.utf8Len_toList]

theorem size_pos {cs : List Char} (h : cs ≠ []) : 0 < size cs := by
  cases cs with
  | nil => exact absurd rfl h
  | cons c cs =>
    have := c.utf8Size_pos
    simp only [size_cons]
    omega

/-- Of two beginnings of one text, the one that ends first is a beginning of the other. -/
theorem exists_append_of_size_le {a b x y : List Char} (h : a ++ x = b ++ y) (hle : size a ≤ size b) :
    ∃ d, b = a ++ d ∧ x = d ++ y := by
  rcases List.append_eq_append_iff.1 h with ⟨d, rfl, rfl⟩ | ⟨d, rfl, rfl⟩
  · exact ⟨d, rfl, rfl⟩
  · by_cases hd : d = []
    · subst hd
      exact ⟨[], by simp, by simp⟩
    · have := size_pos hd
      simp only [size_append] at hle
      omega

/-- A place in a text is known by its offset. -/
theorem append_inj_of_size {a b x y : List Char} (h : a ++ x = b ++ y) (hs : size a = size b) :
    a = b ∧ x = y := by
  obtain ⟨d, rfl, rfl⟩ := exists_append_of_size_le h hs.le
  have hd : d = [] := by
    by_contra hne
    have := size_pos hne
    simp only [size_append] at hs
    omega
  simp [hd]

/-! ## Slices -/

/-- The part of a text from octet `start` up to octet `stop`. There is none if one of them lies
outside the text or within a character, or if they are in the wrong order. -/
def slice? (text : String) (start stop : Nat) : Option String :=
  if h : String.Pos.Raw.IsValid text ⟨start⟩ ∧ String.Pos.Raw.IsValid text ⟨stop⟩ ∧ start ≤ stop then
    some (text.slice (text.pos ⟨start⟩ h.1) (text.pos ⟨stop⟩ h.2.1) h.2.2).copy
  else none

theorem isValid_iff {t : String} {i : Nat} :
    String.Pos.Raw.IsValid t ⟨i⟩ ↔ ∃ a b, t.toList = a ++ b ∧ size a = i := by
  rw [String.Pos.Raw.isValid_iff_exists_append]
  constructor
  · rintro ⟨a, b, rfl, hi⟩
    refine ⟨a.toList, b.toList, by simp, ?_⟩
    rw [size_toList]
    exact (congrArg String.Pos.Raw.byteIdx hi).symm
  · rintro ⟨a, b, hab, rfl⟩
    refine ⟨String.ofList a, String.ofList b, ?_, ?_⟩
    · rw [← String.ofList_append, ← hab, String.ofList_toList]
    · ext
      simp [size_eq_utf8Len]

theorem splits_iff {t a b : String} {p : t.Pos} :
    p.Splits a b ↔ t.toList = a.toList ++ b.toList ∧ size a.toList = p.offset.byteIdx := by
  constructor
  · intro h
    refine ⟨by simp [h.eq_append], ?_⟩
    rw [h.offset_eq_rawEndPos, size_toList]
    rfl
  · rintro ⟨hab, hs⟩
    refine ⟨String.toList_inj.1 (by simpa using hab), ?_⟩
    ext
    rw [← hs, size_toList]
    rfl

/-- A slice is a part of the text that begins and ends at the two offsets. -/
theorem slice?_eq_some_iff {t u : String} {i j : Nat} :
    slice? t i j = some u ↔
      ∃ a b, t.toList = a ++ (u.toList ++ b) ∧ size a = i ∧ i + size u.toList = j := by
  constructor
  · intro h
    unfold slice? at h
    split at h
    · next hv =>
      obtain ⟨a, b, ha, hb⟩ := String.copy_slice_eq_iff_splits.1 ⟨hv.2.2, Option.some.inj h⟩
      obtain ⟨hab, hi⟩ := splits_iff.1 ha
      obtain ⟨_, hj⟩ := splits_iff.1 hb
      have hi : size a.toList = i := hi
      have hj : size (a ++ u).toList = j := hj
      refine ⟨a.toList, b.toList, by simpa using hab, hi, ?_⟩
      simp only [String.toList_append, size_append] at hj
      omega
    · cases h
  · rintro ⟨a, b, hab, rfl, rfl⟩
    have hi : String.Pos.Raw.IsValid t ⟨size a⟩ := isValid_iff.2 ⟨a, _, hab, rfl⟩
    have hj : String.Pos.Raw.IsValid t ⟨size a + size u.toList⟩ :=
      isValid_iff.2 ⟨a ++ u.toList, b, by simp [hab], by simp⟩
    have hle : size a ≤ size a + size u.toList := Nat.le_add_right _ _
    rw [slice?, dif_pos ⟨hi, hj, hle⟩, Option.some.injEq]
    obtain ⟨_, h⟩ : ∃ h, (t.slice (t.pos _ hi) (t.pos _ hj) h).copy = u :=
      String.copy_slice_eq_iff_splits.2 ⟨String.ofList a, String.ofList b,
        splits_iff.2 ⟨by simp [hab], by simp⟩, splits_iff.2 ⟨by simp [hab], by simp⟩⟩
    exact h

theorem slice?_of_append {t : String} {a m b : List Char} (h : t.toList = a ++ (m ++ b)) :
    slice? t (size a) (size a + size m) = some (String.ofList m) :=
  slice?_eq_some_iff.2 ⟨a, b, by simpa using h, rfl, by simp⟩

end RouteBook.Text.Utf8
