import Mathlib
import RouteBook.Text.Utf8

/-!
# The reader of UTF-8

`decodeFrom` says what is read from the middle of a sequence on, and its equations follow the
octets one by one. A character's octets are read as that character (`decodeFrom_encodeChar`),
so reading gives back what was written, strictly (`decode?_encode`) and lossily
(`decodeLossy_encode`). A line feed stands for itself wherever it is, also within a sequence
that it breaks off (`decodeFrom_feed`), and nothing else is read as one.
-/

namespace RouteBook.Text.Utf8

/-! ## Reading from a state on -/

/-- What is read from octets, if the sequence `pending` has begun before them. -/
def decodeFrom (pending : Option Pending) (bs : List UInt8) : List (Option Char) :=
  (bs.foldl Reader.feed ⟨[], pending⟩).finish

/-- The bits of a sequence after one more octet. -/
def Pending.bitsWith (p : Pending) (b : UInt8) : Nat := p.bits * 64 + (b.toNat - 0x80)

/-- A sequence after one more octet that is not its last. -/
def Pending.after (p : Pending) (b : UInt8) : Pending := ⟨p.wanted - 1, 0x80, 0xBF, p.bitsWith b⟩

/-- What was found before does not matter to an octet. -/
theorem feed_eq (found : List (Option Char)) (pending : Option Pending) (b : UInt8) :
    Reader.feed ⟨found, pending⟩ b =
      ⟨(Reader.feed ⟨[], pending⟩ b).found ++ found, (Reader.feed ⟨[], pending⟩ b).pending⟩ := by
  have start : ∀ f, Reader.start ⟨f, none⟩ b =
      ⟨(Reader.start ⟨[], none⟩ b).found ++ f, (Reader.start ⟨[], none⟩ b).pending⟩ := by
    intro f
    unfold Reader.start
    cases lead b <;> rfl
  cases pending with
  | none => exact start found
  | some p =>
    simp only [Reader.feed]
    split
    · split <;> rfl
    · rw [start (none :: found), start [none]]
      simp

theorem finish_foldl_feed (bs : List UInt8) (found : List (Option Char)) (pending : Option Pending) :
    (bs.foldl Reader.feed ⟨found, pending⟩).finish = found.reverse ++ decodeFrom pending bs := by
  induction bs generalizing found pending with
  | nil => cases pending <;> simp [decodeFrom, Reader.finish]
  | cons b bs ih =>
    have h : decodeFrom pending (b :: bs) = _ :=
      ih (Reader.feed ⟨[], pending⟩ b).found (Reader.feed ⟨[], pending⟩ b).pending
    rw [List.foldl_cons, feed_eq, ih, h]
    simp

theorem decodeFrom_cons (pending : Option Pending) (b : UInt8) (bs : List UInt8) :
    decodeFrom pending (b :: bs) = (Reader.feed ⟨[], pending⟩ b).found.reverse ++
      decodeFrom (Reader.feed ⟨[], pending⟩ b).pending bs := by
  rw [decodeFrom, List.foldl_cons, feed_eq, finish_foldl_feed, List.append_nil]

@[simp] theorem decodeFrom_nil : decodeFrom none [] = [] := rfl

@[simp] theorem decodeFrom_some_nil (p : Pending) : decodeFrom (some p) [] = [none] := rfl

theorem decodeFrom_none_cons (b : UInt8) (bs : List UInt8) :
    decodeFrom none (b :: bs) =
      match lead b with
      | .scalar c => some c :: decodeFrom none bs
      | .opens p => decodeFrom (some p) bs
      | .stray => none :: decodeFrom none bs := by
  rw [decodeFrom_cons]
  simp only [Reader.feed, Reader.start]
  cases lead b <;> rfl

theorem decodeFrom_some_cons (p : Pending) (b : UInt8) (bs : List UInt8) :
    decodeFrom (some p) (b :: bs) =
      if p.low ≤ b ∧ b ≤ p.high then
        if p.wanted ≤ 1 then some (Char.ofNat (p.bitsWith b)) :: decodeFrom none bs
        else decodeFrom (some (p.after b)) bs
      else none :: decodeFrom none (b :: bs) := by
  rw [decodeFrom_cons]
  simp only [Reader.feed]
  split
  · split <;> rfl
  · have h : Reader.start ⟨[none], none⟩ b = _ := feed_eq [none] none b
    rw [h, decodeFrom_cons]
    simp

/-! ## The octets of a character -/

/-- The octets that complete a sequence, and the character they make of it. -/
inductive Completes : Pending → List UInt8 → Char → Prop
  | last {p : Pending} {b : UInt8} : p.low ≤ b ∧ b ≤ p.high → p.wanted ≤ 1 →
      Completes p [b] (Char.ofNat (p.bitsWith b))
  | more {p : Pending} {b : UInt8} {bs : List UInt8} {c : Char} : p.low ≤ b ∧ b ≤ p.high →
      1 < p.wanted → Completes (p.after b) bs c → Completes p (b :: bs) c

theorem decodeFrom_completes {p : Pending} {s : List UInt8} {c : Char} (h : Completes p s c)
    (bs : List UInt8) : decodeFrom (some p) (s ++ bs) = some c :: decodeFrom none bs := by
  induction h with
  | last hb hw => simp [decodeFrom_some_cons, hb, hw]
  | more hb hw _ ih =>
    have hw' : ¬ _ ≤ 1 := Nat.not_le.2 hw
    simp [decodeFrom_some_cons, hb, hw', ih]

theorem lead_one : ∀ n < 0x80, lead (UInt8.ofNat n) = .scalar (Char.ofNat n) := by decide

theorem lead_two : ∀ n < 32, 2 ≤ n → lead (UInt8.ofNat (n + 0xC0)) = .opens ⟨1, 0x80, 0xBF, n⟩ := by
  decide

theorem lead_three : ∀ n < 16, lead (UInt8.ofNat (n + 0xE0)) =
    .opens ⟨2, if n = 0 then 0xA0 else 0x80, if n = 13 then 0x9F else 0xBF, n⟩ := by decide

theorem lead_four : ∀ n < 5, lead (UInt8.ofNat (n + 0xF0)) =
    .opens ⟨3, if n = 0 then 0x90 else 0x80, if n = 4 then 0x8F else 0xBF, n⟩ := by decide

theorem lead_stray_tail : ∀ n < 66, lead (UInt8.ofNat (n + 0x80)) = .stray := by decide

theorem lead_stray_high : ∀ n < 11, lead (UInt8.ofNat (n + 0xF5)) = .stray := by decide

/-- The leads that begin a sequence, and what they make of it. -/
theorem lead_opens_cases {b : UInt8} {p : Pending} (h : lead b = .opens p) :
    (∃ n, 2 ≤ n ∧ n < 32 ∧ b = UInt8.ofNat (n + 0xC0) ∧ p = ⟨1, 0x80, 0xBF, n⟩) ∨
    (∃ n < 16, b = UInt8.ofNat (n + 0xE0) ∧
      p = ⟨2, if n = 0 then 0xA0 else 0x80, if n = 13 then 0x9F else 0xBF, n⟩) ∨
    (∃ n < 5, b = UInt8.ofNat (n + 0xF0) ∧
      p = ⟨3, if n = 0 then 0x90 else 0x80, if n = 4 then 0x8F else 0xBF, n⟩) := by
  have hb : b = UInt8.ofNat b.toNat := by simp
  have hlt : b.toNat < 256 := b.toNat_lt
  generalize b.toNat = m at hb hlt
  subst hb
  rcases Nat.lt_or_ge m 0x80 with h1 | h1
  · rw [lead_one m h1] at h; cases h
  rcases Nat.lt_or_ge m 0xC2 with h2 | h2
  · obtain ⟨n, rfl⟩ := Nat.exists_eq_add_of_le' h1
    rw [lead_stray_tail n (by omega)] at h; cases h
  rcases Nat.lt_or_ge m 0xE0 with h3 | h3
  · obtain ⟨n, rfl⟩ := Nat.exists_eq_add_of_le' (show 0xC0 ≤ m by omega)
    rw [lead_two n (by omega) (by omega)] at h
    exact Or.inl ⟨n, by omega, by omega, rfl, (Lead.opens.inj h).symm⟩
  rcases Nat.lt_or_ge m 0xF0 with h4 | h4
  · obtain ⟨n, rfl⟩ := Nat.exists_eq_add_of_le' h3
    rw [lead_three n (by omega)] at h
    exact Or.inr (Or.inl ⟨n, by omega, rfl, (Lead.opens.inj h).symm⟩)
  rcases Nat.lt_or_ge m 0xF5 with h5 | h5
  · obtain ⟨n, rfl⟩ := Nat.exists_eq_add_of_le' h4
    rw [lead_four n (by omega)] at h
    exact Or.inr (Or.inr ⟨n, by omega, rfl, (Lead.opens.inj h).symm⟩)
  · obtain ⟨n, rfl⟩ := Nat.exists_eq_add_of_le' h5
    rw [lead_stray_high n (by omega)] at h; cases h

section
variable {c : Char}

theorem encodeChar_one (h : c.toNat < 0x80) :
    String.utf8EncodeChar c = [UInt8.ofNat c.toNat] := by
  have h1 : c.val.toNat ≤ 0x7F := by have : c.toNat = c.val.toNat := rfl; omega
  simp only [String.utf8EncodeChar, if_pos h1]
  rfl

theorem encodeChar_two (h1 : 0x80 ≤ c.toNat) (h2 : c.toNat < 0x800) :
    String.utf8EncodeChar c = [UInt8.ofNat (c.toNat / 64 + 0xC0), UInt8.ofNat (c.toNat % 64 + 0x80)] := by
  have e : c.val.toNat = c.toNat := rfl
  simp only [String.utf8EncodeChar, e]
  rw [if_neg (by omega), if_pos (by omega), show c.toNat / 64 % 0x20 = c.toNat / 64 by omega]

theorem encodeChar_three (h1 : 0x800 ≤ c.toNat) (h2 : c.toNat < 0x10000) :
    String.utf8EncodeChar c = [UInt8.ofNat (c.toNat / 4096 + 0xE0),
      UInt8.ofNat (c.toNat / 64 % 64 + 0x80), UInt8.ofNat (c.toNat % 64 + 0x80)] := by
  have e : c.val.toNat = c.toNat := rfl
  simp only [String.utf8EncodeChar, e]
  rw [if_neg (by omega), if_neg (by omega), if_pos (by omega),
    show c.toNat / 4096 % 0x10 = c.toNat / 4096 by omega]

theorem encodeChar_four (h1 : 0x10000 ≤ c.toNat) :
    String.utf8EncodeChar c = [UInt8.ofNat (c.toNat / 262144 + 0xF0),
      UInt8.ofNat (c.toNat / 4096 % 64 + 0x80), UInt8.ofNat (c.toNat / 64 % 64 + 0x80),
      UInt8.ofNat (c.toNat % 64 + 0x80)] := by
  have e : c.val.toNat = c.toNat := rfl
  have hv : c.toNat < 0x110000 := by rcases c.valid with h | h <;> omega
  simp only [String.utf8EncodeChar, e]
  rw [if_neg (by omega), if_neg (by omega), if_neg (by omega),
    show c.toNat / 262144 % 0x08 = c.toNat / 262144 by omega]

end

theorem tail_toNat {k : Nat} (hk : k < 64) : (UInt8.ofNat (k + 0x80)).toNat = k + 0x80 :=
  UInt8.toNat_ofNat_of_lt' (by have : UInt8.size = 256 := rfl; omega)

theorem bitsWith_tail {k : Nat} (hk : k < 64) (p : Pending) :
    p.bitsWith (UInt8.ofNat (k + 0x80)) = p.bits * 64 + k := by
  have h : (UInt8.ofNat (k + 0x80)).toNat - 0x80 = k := by
    rw [tail_toNat hk, Nat.add_sub_cancel]
  unfold Pending.bitsWith
  rw [h]

theorem completes_last_tail {k : Nat} (hk : k < 64) (bits : Nat) :
    Completes ⟨1, 0x80, 0xBF, bits⟩ [UInt8.ofNat (k + 0x80)] (Char.ofNat (bits * 64 + k)) := by
  rw [← bitsWith_tail hk ⟨1, 0x80, 0xBF, bits⟩]
  refine .last ⟨?_, ?_⟩ (Nat.le_refl 1) <;> rw [UInt8.le_iff_toNat_le, tail_toNat hk]
  · exact Nat.le_add_left _ _
  · show k + 0x80 ≤ 0xBF; omega

theorem completes_more_tail {k : Nat} (hk : k < 64) {wanted bits : Nat} {low high : UInt8}
    {bs : List UInt8} {c : Char} (hl : low.toNat ≤ k + 0x80) (hh : k + 0x80 ≤ high.toNat)
    (hw : 1 ≤ wanted) (h : Completes ⟨wanted, 0x80, 0xBF, bits * 64 + k⟩ bs c) :
    Completes ⟨wanted + 1, low, high, bits⟩ (UInt8.ofNat (k + 0x80) :: bs) c := by
  refine .more ⟨?_, ?_⟩ (Nat.lt_succ_of_le hw) ?_
  · rw [UInt8.le_iff_toNat_le, tail_toNat hk]; exact hl
  · rw [UInt8.le_iff_toNat_le, tail_toNat hk]; exact hh
  · rw [Pending.after, bitsWith_tail hk]; exact h

/-- A character's octets are a lead that stands for it alone, or a lead and what completes it. -/
theorem encodeChar_cases (c : Char) :
    ∃ b t, String.utf8EncodeChar c = b :: t ∧
      (lead b = .scalar c ∧ t = [] ∨ ∃ p, lead b = .opens p ∧ Completes p t c) := by
  have hv : c.toNat < 0xD800 ∨ 0xDFFF < c.toNat ∧ c.toNat < 0x110000 := c.valid
  rcases Nat.lt_or_ge c.toNat 0x80 with h1 | h1
  · refine ⟨_, _, encodeChar_one h1, Or.inl ⟨?_, rfl⟩⟩
    rw [lead_one _ h1, Char.ofNat_toNat]
  rcases Nat.lt_or_ge c.toNat 0x800 with h2 | h2
  · refine ⟨_, _, encodeChar_two h1 h2, Or.inr ⟨_, lead_two _ (by omega) (by omega), ?_⟩⟩
    have := completes_last_tail (k := c.toNat % 64) (by omega) (c.toNat / 64)
    rwa [show c.toNat / 64 * 64 + c.toNat % 64 = c.toNat by omega, Char.ofNat_toNat] at this
  rcases Nat.lt_or_ge c.toNat 0x10000 with h3 | h3
  · refine ⟨_, _, encodeChar_three h2 h3, Or.inr ⟨_, lead_three _ (by omega), ?_⟩⟩
    refine completes_more_tail (by omega) ?_ ?_ (by omega) ?_
    · split
      · show 0xA0 ≤ _; omega
      · show 0x80 ≤ _; omega
    · split
      · show _ ≤ 0x9F; omega
      · show _ ≤ 0xBF; omega
    · have := completes_last_tail (k := c.toNat % 64) (by omega) (c.toNat / 4096 * 64 + c.toNat / 64 % 64)
      rwa [show (c.toNat / 4096 * 64 + c.toNat / 64 % 64) * 64 + c.toNat % 64 = c.toNat by omega,
        Char.ofNat_toNat] at this
  · refine ⟨_, _, encodeChar_four h3, Or.inr ⟨_, lead_four _ (by omega), ?_⟩⟩
    refine completes_more_tail (by omega) ?_ ?_ (by omega) ?_
    · split
      · show 0x90 ≤ _; omega
      · show 0x80 ≤ _; omega
    · split
      · show _ ≤ 0x8F; omega
      · show _ ≤ 0xBF; omega
    refine completes_more_tail (by omega) (Nat.le_add_left _ _) (show _ ≤ 0xBF by omega) (by omega) ?_
    have := completes_last_tail (k := c.toNat % 64) (by omega)
      ((c.toNat / 262144 * 64 + c.toNat / 4096 % 64) * 64 + c.toNat / 64 % 64)
    rwa [show ((c.toNat / 262144 * 64 + c.toNat / 4096 % 64) * 64 + c.toNat / 64 % 64) * 64 +
      c.toNat % 64 = c.toNat by omega, Char.ofNat_toNat] at this

/-- A character's octets are read as that character. -/
theorem decodeFrom_encodeChar (c : Char) (bs : List UInt8) :
    decodeFrom none (String.utf8EncodeChar c ++ bs) = some c :: decodeFrom none bs := by
  obtain ⟨b, t, e, ⟨hl, rfl⟩ | ⟨p, hl, hc⟩⟩ := encodeChar_cases c
  · rw [e, List.cons_append, decodeFrom_none_cons, hl]; rfl
  · rw [e, List.cons_append, decodeFrom_none_cons, hl]
    exact decodeFrom_completes hc bs

/-! ## Reading what was written -/

theorem decode_encode (cs : List Char) : decode (encode cs) = cs.map some := by
  change decodeFrom none (encode cs) = cs.map some
  induction cs with
  | nil => rfl
  | cons c cs ih =>
    rw [encode, List.flatMap_cons, decodeFrom_encodeChar, List.map_cons]
    exact congrArg _ ih

theorem decodeLossy_encode (cs : List Char) : decodeLossy (encode cs) = cs := by
  simp [decodeLossy, decode_encode, Function.comp_def]

theorem decode?_encode (cs : List Char) : decode? (encode cs) = some cs := by
  rw [decode?, decode_encode]
  induction cs with
  | nil => rfl
  | cons c cs ih => simp [ih]


/-! ## Line feeds -/

/-- A sequence as a lead can have begun it: no ASCII octet continues it, and whatever does
leads to a value that is not ASCII. -/
structure Pending.Open (p : Pending) : Prop where
  low : 0x80 ≤ p.low.toNat
  last : p.wanted ≤ 1 → 2 ≤ p.bits
  more : 1 < p.wanted → 2 ≤ p.bits * 64 + (p.low.toNat - 0x80)

theorem open_of_lead {b : UInt8} {p : Pending} (h : lead b = .opens p) : p.Open := by
  rcases lead_opens_cases h with ⟨n, h2, _, _, rfl⟩ | ⟨n, hn, _, rfl⟩ | ⟨n, hn, _, rfl⟩
  · exact ⟨Nat.le_refl _, fun _ => h2, fun hw => absurd hw (Nat.lt_irrefl 1)⟩
  · refine ⟨?_, fun hw => absurd hw (Nat.not_le.2 (Nat.lt_succ_self 1)), fun _ => ?_⟩ <;> dsimp only <;> split
    · decide
    · decide
    · next h0 => subst h0; decide
    · omega
  · refine ⟨?_, fun hw => absurd hw (show ¬ 3 ≤ 1 by omega), fun _ => ?_⟩ <;> dsimp only <;> split
    · decide
    · decide
    · next h0 => subst h0; decide
    · omega

theorem Pending.Open.after {p : Pending} {b : UInt8} (h : p.Open) (hb : p.low ≤ b ∧ b ≤ p.high)
    (hw : 1 < p.wanted) : (p.after b).Open := by
  have hlow := UInt8.le_iff_toNat_le.1 hb.1
  have hbits : 2 ≤ p.bitsWith b := by
    have := h.more hw
    have := h.low
    unfold Pending.bitsWith
    omega
  exact ⟨Nat.le_refl _, fun _ => hbits,
    fun _ => Nat.le_trans hbits (by unfold Pending.after; dsimp only; omega)⟩

theorem Pending.Open.not_takes_feed {p : Pending} (h : p.Open) : ¬ (p.low ≤ 0x0A ∧ 0x0A ≤ p.high) := by
  rintro ⟨hl, _⟩
  have hl' : p.low.toNat ≤ 10 := UInt8.le_iff_toNat_le.1 hl
  have := h.low
  omega

/-- A line feed stands for itself, also where it breaks off a sequence. -/
theorem decodeFrom_feed (a b : List UInt8) (pending : Option Pending) (h : ∀ p ∈ pending, p.Open) :
    decodeFrom pending (a ++ 0x0A :: b) = decodeFrom pending a ++ some '\n' :: decodeFrom none b := by
  induction a generalizing pending with
  | nil =>
    have hn : decodeFrom none (0x0A :: b) = some '\n' :: decodeFrom none b := by
      rw [decodeFrom_none_cons]; rfl
    cases pending with
    | none => exact hn
    | some p =>
      rw [List.nil_append, decodeFrom_some_cons, if_neg (h p rfl).not_takes_feed, hn]; rfl
  | cons x a ih =>
    have hn : decodeFrom none (x :: a ++ 0x0A :: b) =
        decodeFrom none (x :: a) ++ some '\n' :: decodeFrom none b := by
      rw [List.cons_append, decodeFrom_none_cons, decodeFrom_none_cons]
      cases hx : lead x with
      | scalar c => simp [ih none (by simp)]
      | opens p => exact ih (some p) fun q hq => by cases hq; exact open_of_lead hx
      | stray => simp [ih none (by simp)]
    cases pending with
    | none => exact hn
    | some p =>
      rw [List.cons_append, decodeFrom_some_cons, decodeFrom_some_cons]
      split
      · next hx =>
        split
        · simp [ih none (by simp)]
        · next hw => exact ih _ fun q hq => by cases hq; exact (h p rfl).after hx (by omega)
      · rw [← List.cons_append, hn]; rfl

theorem ofNat_ne_feed {n : Nat} (h : 10 < n) : Char.ofNat n ≠ '\n' := by
  intro e
  have e' := congrArg Char.toNat e
  rw [Char.toNat_ofNat] at e'
  have : '\n'.toNat = 10 := rfl
  split at e' <;> omega

theorem lead_eq_scalar {b : UInt8} {c : Char} (h : lead b = .scalar c) :
    b.toNat < 0x80 ∧ c = Char.ofNat b.toNat := by
  unfold lead at h
  split at h
  · next hb => exact ⟨UInt8.lt_iff_toNat_lt.1 hb, (Lead.scalar.inj h).symm⟩
  · repeat' split at h
    all_goals cases h

theorem lead_scalar_feed {b : UInt8} (h : lead b = .scalar '\n') : b = 0x0A := by
  obtain ⟨hb, hc⟩ := lead_eq_scalar h
  have e := congrArg Char.toNat hc
  have hv : b.toNat.isValidChar := Or.inl (by omega)
  have e' := e.trans (Char.toNat_ofNat b.toNat)
  rw [if_pos hv] at e'
  exact UInt8.toNat_inj.1 e'.symm

/-- Only a line feed is read as one. -/
theorem feed_not_mem_decodeFrom {bs : List UInt8} (hbs : ∀ b ∈ bs, b ≠ 0x0A) (pending : Option Pending)
    (h : ∀ p ∈ pending, p.Open) : some '\n' ∉ decodeFrom pending bs := by
  induction bs generalizing pending with
  | nil => cases pending <;> simp
  | cons x bs ih =>
    have ih' := ih fun b hb => hbs b (by simp [hb])
    have hn : some '\n' ∉ decodeFrom none (x :: bs) := by
      rw [decodeFrom_none_cons]
      cases hx : lead x with
      | scalar c =>
        have hc : '\n' ≠ c := by rintro rfl; exact hbs x (by simp) (lead_scalar_feed hx)
        simp [hc, ih' none (by simp)]
      | opens p => exact ih' (some p) fun q hq => by cases hq; exact open_of_lead hx
      | stray => simp [ih' none (by simp)]
    cases pending with
    | none => exact hn
    | some p =>
      have hp := h p rfl
      rw [decodeFrom_some_cons]
      split
      · next hx =>
        split
        · next hw =>
          have hbits : 10 < p.bitsWith x := by have := hp.last hw; unfold Pending.bitsWith; omega
          simp [(ofNat_ne_feed hbits).symm, ih' none (by simp)]
        · next hw => exact ih' _ fun q hq => by cases hq; exact hp.after hx (by omega)
      · simp [hn]

theorem decodeFrom_some_ne_nil (p : Pending) (bs : List UInt8) : decodeFrom (some p) bs ≠ [] := by
  induction bs generalizing p with
  | nil => simp
  | cons b bs ih =>
    rw [decodeFrom_some_cons]
    split
    · split
      · simp
      · exact ih _
    · simp

theorem decode_eq_nil_iff {bs : List UInt8} : decode bs = [] ↔ bs = [] := by
  refine ⟨fun h => ?_, by rintro rfl; rfl⟩
  cases bs with
  | nil => rfl
  | cons b bs =>
    change decodeFrom none (b :: bs) = [] at h
    rw [decodeFrom_none_cons] at h
    split at h
    · cases h
    · exact absurd h (decodeFrom_some_ne_nil _ _)
    · cases h

theorem decodeLossy_feed (a b : List UInt8) :
    decodeLossy (a ++ 0x0A :: b) = decodeLossy a ++ '\n' :: decodeLossy b := by
  have h : decode (a ++ 0x0A :: b) = decode a ++ some '\n' :: decode b := decodeFrom_feed a b none (by simp)
  simp [decodeLossy, h]

theorem feed_not_mem_decodeLossy {bs : List UInt8} (h : ∀ b ∈ bs, b ≠ 0x0A) :
    '\n' ∉ decodeLossy bs := by
  intro hm
  simp only [decodeLossy, List.mem_map] at hm
  obtain ⟨o, ho, he⟩ := hm
  cases o with
  | none => revert he; decide
  | some c =>
    obtain rfl : c = '\n' := he
    exact feed_not_mem_decodeFrom h none (by simp) ho

theorem decodeLossy_eq_nil_iff {bs : List UInt8} : decodeLossy bs = [] ↔ bs = [] := by
  rw [decodeLossy, List.map_eq_nil_iff, decode_eq_nil_iff]

end RouteBook.Text.Utf8
