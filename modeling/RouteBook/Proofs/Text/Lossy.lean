import RouteBook.Proofs.Text.Utf8

/-!
# Lossy reading

`Lossy bs cs` says what lossy reading is without a reader: characters stand for themselves,
and where none stands, the longest octets with which some character begins, or one octet if
there are no such, are read as one U+FFFD. Main statement (`lossy_iff`): the reader does just
this.
-/

namespace RouteBook.Text.Utf8

/-- Octets with which those of some character begin. -/
def Begins (s : List UInt8) : Prop := ∃ c, s <+: String.utf8EncodeChar c

/-- `s` is the maximal invalid subpart at the start of `s ++ rest`. -/
structure Broken (s rest : List UInt8) : Prop where
  noChar : ∀ c, ¬ String.utf8EncodeChar c <+: s ++ rest
  ne_nil : s ≠ []
  begins : Begins s ∨ s.length = 1
  longest : ∀ t, t <+: s ++ rest → Begins t → t.length ≤ s.length

/-- Octets, and their characters in lossy reading. -/
inductive Lossy : List UInt8 → List Char → Prop
  | nil : Lossy [] []
  | char (c : Char) {bs : List UInt8} {cs : List Char} :
      Lossy bs cs → Lossy (String.utf8EncodeChar c ++ bs) (c :: cs)
  | broken {s bs : List UInt8} {cs : List Char} :
      Broken s bs → Lossy bs cs → Lossy (s ++ bs) ('\uFFFD' :: cs)

/-! ## What completes a sequence -/

theorem completes_cons_iff {p : Pending} {b : UInt8} {s : List UInt8} {c : Char} :
    Completes p (b :: s) c ↔ (p.low ≤ b ∧ b ≤ p.high) ∧
      (p.wanted ≤ 1 ∧ s = [] ∧ c = Char.ofNat (p.bitsWith b) ∨
        1 < p.wanted ∧ Completes (p.after b) s c) := by
  constructor
  · intro h
    cases h with
    | last hb hw => exact ⟨hb, Or.inl ⟨hw, rfl, rfl⟩⟩
    | more hb hw h => exact ⟨hb, Or.inr ⟨hw, h⟩⟩
  · rintro ⟨hb, ⟨hw, rfl, hc⟩ | ⟨hw, h⟩⟩
    · rw [hc]; exact .last hb hw
    · exact .more hb hw h

theorem not_completes_nil {p : Pending} {c : Char} : ¬ Completes p [] c := by
  intro h; cases h

theorem tail_iff {b : UInt8} : (0x80 ≤ b ∧ b ≤ 0xBF) ↔ ∃ k < 64, b = UInt8.ofNat (k + 0x80) := by
  constructor
  · rintro ⟨hl, hh⟩
    have hl' : 0x80 ≤ b.toNat := UInt8.le_iff_toNat_le.1 hl
    have hh' : b.toNat ≤ 0xBF := UInt8.le_iff_toNat_le.1 hh
    exact ⟨b.toNat - 0x80, by omega, by rw [Nat.sub_add_cancel hl', UInt8.ofNat_toNat]⟩
  · rintro ⟨k, hk, rfl⟩
    constructor <;> rw [UInt8.le_iff_toNat_le, tail_toNat hk]
    · exact Nat.le_add_left _ _
    · show k + 0x80 ≤ 0xBF; omega

/-- Any sequence can be completed. -/
theorem exists_completes (p : Pending) (h : p.low ≤ p.high) : ∃ s c, Completes p s c := by
  induction hw : p.wanted generalizing p with
  | zero => exact ⟨_, _, .last ⟨UInt8.le_refl _, h⟩ (by omega)⟩
  | succ n ih =>
    rcases Nat.lt_or_ge 1 p.wanted with h1 | h1
    · obtain ⟨s, c, hc⟩ := ih (p.after p.low) (show (0x80 : UInt8) ≤ 0xBF by decide)
        (show p.wanted - 1 = n by omega)
      exact ⟨_, c, .more ⟨UInt8.le_refl _, h⟩ h1 hc⟩
    · exact ⟨_, _, .last ⟨UInt8.le_refl _, h⟩ h1⟩

/-! ## From octets to the character -/

theorem toNat_ofNat_of_valid {n : Nat} (h : n.isValidChar) : (Char.ofNat n).toNat = n := by
  rw [Char.toNat_ofNat, if_pos h]

theorem encodeChar_of_lead_scalar {b : UInt8} {c : Char} (h : lead b = .scalar c) :
    String.utf8EncodeChar c = [b] := by
  obtain ⟨hb, rfl⟩ := lead_eq_scalar h
  have hn : (Char.ofNat b.toNat).toNat = b.toNat := toNat_ofNat_of_valid (Or.inl (by omega))
  rw [encodeChar_one (by omega), hn, UInt8.ofNat_toNat]

/-- The last octet of a sequence, and the value it leads to. -/
theorem completes_one {bits : Nat} {s : List UInt8} {c : Char}
    (h : Completes ⟨1, 0x80, 0xBF, bits⟩ s c) :
    ∃ k < 64, s = [UInt8.ofNat (k + 0x80)] ∧ c = Char.ofNat (bits * 64 + k) := by
  cases s with
  | nil => exact absurd h not_completes_nil
  | cons b s =>
    obtain ⟨hb, h | ⟨hw, _⟩⟩ := completes_cons_iff.1 h
    · obtain ⟨k, hk, rfl⟩ := tail_iff.1 hb
      obtain ⟨_, rfl, hc⟩ := h
      rw [bitsWith_tail hk] at hc
      exact ⟨k, hk, rfl, hc⟩
    · exact absurd hw (Nat.lt_irrefl 1)

/-- An octet of a sequence that is not its last. -/
theorem completes_succ {wanted : Nat} {low high : UInt8} {bits : Nat} {s : List UInt8} {c : Char}
    (hl : 0x80 ≤ low) (hh : high ≤ 0xBF) (hw : 1 ≤ wanted)
    (h : Completes ⟨wanted + 1, low, high, bits⟩ s c) :
    ∃ k < 64, ∃ t, low.toNat ≤ k + 0x80 ∧ k + 0x80 ≤ high.toNat ∧ s = UInt8.ofNat (k + 0x80) :: t ∧
      Completes ⟨wanted, 0x80, 0xBF, bits * 64 + k⟩ t c := by
  cases s with
  | nil => exact absurd h not_completes_nil
  | cons b s =>
    obtain ⟨hb, ⟨hw', _⟩ | ⟨_, h'⟩⟩ := completes_cons_iff.1 h
    · exact absurd hw' (by dsimp only; omega)
    · obtain ⟨k, hk, rfl⟩ := tail_iff.1 ⟨UInt8.le_trans hl hb.1, UInt8.le_trans hb.2 hh⟩
      have hlow := UInt8.le_iff_toNat_le.1 hb.1
      have hhigh := UInt8.le_iff_toNat_le.1 hb.2
      rw [tail_toNat hk] at hlow hhigh
      rw [Pending.after, bitsWith_tail hk] at h'
      exact ⟨k, hk, s, hlow, hhigh, rfl, h'⟩

theorem encodeChar_of_completes {b : UInt8} {p : Pending} {s : List UInt8} {c : Char}
    (hl : lead b = .opens p) (h : Completes p s c) : String.utf8EncodeChar c = b :: s := by
  rcases lead_opens_cases hl with ⟨n, h2, hn, rfl, rfl⟩ | ⟨n, hn, rfl, rfl⟩ | ⟨n, hn, rfl, rfl⟩
  · obtain ⟨k, hk, rfl, rfl⟩ := completes_one h
    have hv := toNat_ofNat_of_valid (n := n * 64 + k) (Or.inl (by omega))
    rw [encodeChar_two (by omega) (by omega), hv]
    rw [show (n * 64 + k) / 64 = n by omega, show (n * 64 + k) % 64 = k by omega]
  · obtain ⟨j, hj, t, hlow, hhigh, rfl, h'⟩ := completes_succ (by split <;> decide) (by split <;> decide)
      (Nat.le_refl 1) h
    obtain ⟨k, hk, rfl, rfl⟩ := completes_one h'
    have hj0 : n = 0 → 0x20 ≤ j := by
      rintro rfl; have : 0xA0 ≤ j + 0x80 := hlow; omega
    have hj13 : n = 13 → j ≤ 0x1F := by
      rintro rfl; have : j + 0x80 ≤ 0x9F := hhigh; omega
    have hv := toNat_ofNat_of_valid (n := (n * 64 + j) * 64 + k) (by
      rcases Nat.lt_or_ge n 14 with h | h
      · exact Or.inl (by omega)
      · exact Or.inr ⟨by omega, by omega⟩)
    rw [encodeChar_three (by omega) (by omega), hv]
    rw [show ((n * 64 + j) * 64 + k) / 4096 = n by omega,
      show ((n * 64 + j) * 64 + k) / 64 % 64 = j by omega, show ((n * 64 + j) * 64 + k) % 64 = k by omega]
  · obtain ⟨i, hi, t, hlow, hhigh, rfl, h'⟩ := completes_succ (by split <;> decide) (by split <;> decide)
      (show 1 ≤ 2 by omega) h
    obtain ⟨j, hj, t, _, _, rfl, h''⟩ := completes_succ (UInt8.le_refl _) (UInt8.le_refl _) (Nat.le_refl 1) h'
    obtain ⟨k, hk, rfl, rfl⟩ := completes_one h''
    have hi0 : n = 0 → 0x10 ≤ i := by
      rintro rfl; have : 0x90 ≤ i + 0x80 := hlow; omega
    have hi4 : n = 4 → i ≤ 0x0F := by
      rintro rfl; have : i + 0x80 ≤ 0x8F := hhigh; omega
    have hv := toNat_ofNat_of_valid (n := ((n * 64 + i) * 64 + j) * 64 + k) (Or.inr ⟨by omega, by omega⟩)
    rw [encodeChar_four (by omega), hv]
    rw [show (((n * 64 + i) * 64 + j) * 64 + k) / 262144 = n by omega,
      show (((n * 64 + i) * 64 + j) * 64 + k) / 4096 % 64 = i by omega,
      show (((n * 64 + i) * 64 + j) * 64 + k) / 64 % 64 = j by omega,
      show (((n * 64 + i) * 64 + j) * 64 + k) % 64 = k by omega]

/-! ## Sequences that have begun -/

/-- After the octets `read` the reader is in the middle of a sequence, in the state `p`: what
completes `p` is what makes a character of `read`. -/
def Reached (read : List UInt8) (p : Pending) : Prop :=
  ∀ s c, Completes p s c ↔ String.utf8EncodeChar c = read ++ s

theorem reached_of_lead {b : UInt8} {p : Pending} (h : lead b = .opens p) : Reached [b] p := by
  intro s c
  refine ⟨encodeChar_of_completes h, fun e => ?_⟩
  obtain ⟨x, t, e', hx⟩ := encodeChar_cases c
  obtain ⟨rfl, rfl⟩ := List.cons.inj (e.symm.trans e')
  rcases hx with ⟨hl, _⟩ | ⟨q, hl, hc⟩
  · rw [h] at hl; cases hl
  · rw [h] at hl; cases hl; exact hc

section
variable {read : List UInt8} {p : Pending} {b : UInt8}

theorem Reached.after (h : Reached read p) (hb : p.low ≤ b ∧ b ≤ p.high) (hw : 1 < p.wanted) :
    Reached (read ++ [b]) (p.after b) := by
  intro s c
  have e := h (b :: s) c
  rw [completes_cons_iff] at e
  rw [List.append_assoc, List.singleton_append, ← e]
  refine ⟨fun hc => ⟨hb, Or.inr ⟨hw, hc⟩⟩, ?_⟩
  rintro ⟨_, ⟨hw', _⟩ | ⟨_, hc⟩⟩
  · omega
  · exact hc

theorem Reached.last (h : Reached read p) (hb : p.low ≤ b ∧ b ≤ p.high) (hw : p.wanted ≤ 1) :
    ∃ c, String.utf8EncodeChar c = read ++ [b] :=
  ⟨_, (h _ _).1 (.last hb hw)⟩

/-- The octets that continue a sequence are those with which some character goes on. -/
theorem Reached.takes_iff (h : Reached read p) :
    (p.low ≤ b ∧ b ≤ p.high) ↔ Begins (read ++ [b]) := by
  constructor
  · intro hb
    rcases Nat.lt_or_ge 1 p.wanted with hw | hw
    · obtain ⟨s, c, hc⟩ := exists_completes (p.after b) (show (0x80 : UInt8) ≤ 0xBF by decide)
      exact ⟨c, s, ((h.after hb hw s c).1 hc).symm⟩
    · obtain ⟨c, hc⟩ := h.last hb hw
      exact ⟨c, [], by rw [hc, List.append_nil]⟩
  · rintro ⟨c, s, e⟩
    rw [List.append_assoc, List.singleton_append] at e
    exact (completes_cons_iff.1 ((h _ c).2 e.symm)).1

end

theorem Begins.shorten {s t : List UInt8} (h : Begins t) (hs : s <+: t) : Begins s := by
  obtain ⟨c, hc⟩ := h
  exact ⟨c, hs.trans hc⟩

/-! ## The reader and lossy reading -/

/-- The reader in the middle of the octets that are broken off. -/
theorem decodeFrom_reached {read t rest : List UInt8} {p : Pending} (h : Reached read p)
    (hne : read ≠ []) (hbr : Broken (read ++ t) rest) :
    decodeFrom (some p) (t ++ rest) = none :: decodeFrom none rest := by
  induction t generalizing read p with
  | nil =>
    cases rest with
    | nil => rfl
    | cons x rest =>
      have hx : ¬ (p.low ≤ x ∧ x ≤ p.high) := by
        intro hx
        have := hbr.longest (read ++ [x]) ⟨rest, by simp⟩ (h.takes_iff.1 hx)
        simp at this
      rw [List.nil_append, decodeFrom_some_cons, if_neg hx]
  | cons x t ih =>
    have hbeg : Begins (read ++ x :: t) := by
      rcases hbr.begins with hb | hb
      · exact hb
      · have := List.length_pos_iff.2 hne
        simp at hb; omega
    have hx : p.low ≤ x ∧ x ≤ p.high := h.takes_iff.2 (hbeg.shorten ⟨t, by simp⟩)
    have hw : ¬ p.wanted ≤ 1 := by
      intro hw
      obtain ⟨c, hc⟩ := h.last hx hw
      exact hbr.noChar c ⟨t ++ rest, by rw [hc]; simp⟩
    rw [List.cons_append, decodeFrom_some_cons, if_pos hx, if_neg hw]
    exact ih (h.after hx (by omega)) (by simp) (by simpa using hbr)

theorem decodeFrom_broken {s rest : List UInt8} (h : Broken s rest) :
    decodeFrom none (s ++ rest) = none :: decodeFrom none rest := by
  cases s with
  | nil => exact absurd rfl h.ne_nil
  | cons b t =>
    rw [List.cons_append, decodeFrom_none_cons]
    cases hl : lead b with
    | scalar c => exact absurd ⟨t ++ rest, by rw [encodeChar_of_lead_scalar hl]; rfl⟩ (h.noChar c)
    | opens p => exact decodeFrom_reached (reached_of_lead hl) (by simp) h
    | stray =>
      -- No character begins with a stray octet, so it is broken off alone.
      have ht : t = [] := by
        rcases h.begins with ⟨c, r, e⟩ | hb
        · obtain ⟨x, u, e', hx⟩ := encodeChar_cases c
          obtain ⟨rfl, _⟩ := List.cons.inj (e.trans e')
          rcases hx with ⟨hx, _⟩ | ⟨p, hx, _⟩ <;> rw [hl] at hx <;> cases hx
        · simpa using hb
      subst ht
      rfl

theorem decodeLossy_encodeChar_append (c : Char) (bs : List UInt8) :
    decodeLossy (String.utf8EncodeChar c ++ bs) = c :: decodeLossy bs := by
  have h : decode (String.utf8EncodeChar c ++ bs) = some c :: decode bs := decodeFrom_encodeChar c bs
  simp [decodeLossy, h]

theorem decodeLossy_broken {s rest : List UInt8} (h : Broken s rest) :
    decodeLossy (s ++ rest) = '\uFFFD' :: decodeLossy rest := by
  have h : decode (s ++ rest) = none :: decode rest := decodeFrom_broken h
  simp [decodeLossy, h]

/-- Where no character stands, something is broken off. -/
theorem exists_broken {bs : List UInt8} (hne : bs ≠ []) (h : ∀ c, ¬ String.utf8EncodeChar c <+: bs) :
    ∃ s rest, bs = s ++ rest ∧ Broken s rest := by
  classical
  let P : Nat → Prop := fun n => Begins (bs.take n)
  have hpos : 0 < bs.length := List.length_pos_iff.2 hne
  refine ⟨bs.take (max 1 (Nat.findGreatest P bs.length)), bs.drop (max 1 (Nat.findGreatest P bs.length)),
    (List.take_append_drop _ _).symm, ?_⟩
  have hlen : (bs.take (max 1 (Nat.findGreatest P bs.length))).length =
      max 1 (Nat.findGreatest P bs.length) := by
    have := Nat.findGreatest_le (P := P) bs.length
    rw [List.length_take]; omega
  constructor
  · rw [List.take_append_drop]; exact h
  · refine List.length_pos_iff.1 ?_
    rw [hlen]
    exact lt_of_lt_of_le Nat.one_pos (le_max_left _ _)
  · rcases Nat.eq_zero_or_pos (Nat.findGreatest P bs.length) with h0 | h0
    · exact Or.inr (by rw [hlen, h0]; rfl)
    · rw [max_eq_right h0]
      have hP : P (Nat.findGreatest P bs.length) := Nat.findGreatest_of_ne_zero rfl h0.ne'
      exact Or.inl hP
  · intro t ht hb
    rw [List.take_append_drop] at ht
    have hP : P t.length := by
      change Begins (bs.take t.length)
      rwa [← List.prefix_iff_eq_take.1 ht]
    have := Nat.le_findGreatest ht.length_le hP
    rw [hlen]; omega

theorem lossy_decodeLossy (bs : List UInt8) : Lossy bs (decodeLossy bs) := by
  by_cases hne : bs = []
  · subst hne; exact .nil
  by_cases hc : ∃ c, String.utf8EncodeChar c <+: bs
  · obtain ⟨c, rest, rfl⟩ := hc
    have hpos := List.length_pos_iff.2 (String.utf8EncodeChar_ne_nil (c := c))
    rw [decodeLossy_encodeChar_append]
    exact .char c (lossy_decodeLossy rest)
  · obtain ⟨s, rest, rfl, hbr⟩ := exists_broken hne (not_exists.1 hc)
    have hpos := List.length_pos_iff.2 hbr.ne_nil
    rw [decodeLossy_broken hbr]
    exact .broken hbr (lossy_decodeLossy rest)
termination_by bs.length
decreasing_by all_goals (subst_vars; rw [List.length_append]; omega)

/-- **Lossy reading**: the reader yields the characters that stand in the octets, and one
U+FFFD for each maximal invalid subpart; and octets are read so in one way only. -/
theorem lossy_iff {bs : List UInt8} {cs : List Char} : Lossy bs cs ↔ cs = decodeLossy bs := by
  refine ⟨fun h => ?_, fun h => h ▸ lossy_decodeLossy bs⟩
  induction h with
  | nil => rfl
  | char c _ ih => rw [decodeLossy_encodeChar_append, ih]
  | broken hbr _ ih => rw [decodeLossy_broken hbr, ih]

end RouteBook.Text.Utf8
