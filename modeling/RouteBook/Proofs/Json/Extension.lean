import Mathlib
import RouteBook.Json.Skip

/-!
# Text that comes after

A reader that has come to the end of what it reads gives the same whatever text comes after.
Words and strings show where they end (`word_append`, `string_delimited`). A number ends where
something else follows, so a value that is passed over is known to have ended only if some text
is left of it (`skip_append`); the lists and objects in which it stands show their end again. The
fuel of a reader grows with its text, and what is read does not depend on that.
-/

namespace RouteBook

theorem bind_eq_ok_iff {ε α β : Type} {x : Except ε α} {f : α → Except ε β} {b : β} :
    (x >>= f) = .ok b ↔ ∃ a, x = .ok a ∧ f a = .ok b := by
  cases x with
  | error e => simp [bind, Except.bind]
  | ok a => simp [bind, Except.bind]

namespace Json

/-- A reader of something that shows its end: text that comes after makes no difference. -/
def Delimited {α : Type} (read : List Char → Except Fault (α × List Char)) : Prop :=
  ∀ ⦃cs rest : List Char⦄ ⦃x : α⦄, read cs = .ok (x, rest) →
    ∀ more, read (cs ++ more) = .ok (x, rest ++ more)

section
variable {α β : Type} {read : List Char → Except Fault (α × List Char)}

theorem Delimited.done (a : α) : Delimited fun cs => .ok (a, cs) := by
  intro cs rest x h more
  cases h
  rfl

/-- Something that shows its end, and after it something that does. -/
theorem Delimited.bind {next : α → List Char → Except Fault (β × List Char)} (hread : Delimited read)
    (hnext : ∀ a, Delimited (next a)) : Delimited fun cs => read cs >>= fun p => next p.1 p.2 := by
  intro cs rest b h more
  obtain ⟨⟨a, tail⟩, ha, hb⟩ := bind_eq_ok_iff.1 h
  exact bind_eq_ok_iff.2 ⟨(a, tail ++ more), hread ha more, hnext a hb more⟩

/-- A mark, and after it something that shows its end. -/
theorem Delimited.after {mark : List Char → Except Fault (List Char)}
    (hmark : ∀ {cs rest}, mark cs = .ok rest → ∀ more, mark (cs ++ more) = .ok (rest ++ more))
    (hread : Delimited read) : Delimited fun cs => mark cs >>= read := by
  intro cs rest a h more
  obtain ⟨tail, hm, ha⟩ := bind_eq_ok_iff.1 h
  exact bind_eq_ok_iff.2 ⟨tail ++ more, hmark hm more, hread ha more⟩

end

theorem trim_append {cs rest : List Char} {c : Char} (h : trim cs = c :: rest) (more : List Char) :
    trim (cs ++ more) = c :: (rest ++ more) := by
  unfold trim at h ⊢
  rw [List.dropWhile_append, h]
  rfl

/-! ## Words and strings -/

theorem word_append {letters cs rest : List Char} (h : word letters cs = .ok rest)
    (more : List Char) : word letters (cs ++ more) = .ok (rest ++ more) := by
  induction letters generalizing cs with
  | nil =>
    obtain rfl : cs = rest := by simpa [word] using h
    rfl
  | cons l ls ih =>
    cases cs with
    | nil => cases h
    | cons c cs =>
      rw [List.cons_append]
      unfold word at h ⊢
      split at h
      · next hc => rw [if_pos hc]; exact ih h
      · cases h

theorem hexEscape_delimited : Delimited hexEscape := by
  intro cs rest n h more
  unfold hexEscape at h
  split at h
  · next a b c d tail =>
    cases hq : hexQuad? a b c d with
    | none => simp [hq] at h
    | some m =>
      simp only [hq, Except.ok.injEq, Prod.mk.injEq] at h
      obtain ⟨rfl, rfl⟩ := h
      simp [hexEscape, hq]
  · cases h

theorem skippedEscape_delimited : Delimited skippedEscape :=
  hexEscape_delimited.bind fun _ => Delimited.done _

theorem unicodeEscape_delimited : Delimited unicodeEscape := by
  intro cs rest c h more
  obtain ⟨⟨n, tail⟩, hn, h⟩ := bind_eq_ok_iff.1 h
  refine bind_eq_ok_iff.2 ⟨(n, tail ++ more), hexEscape_delimited hn more, ?_⟩
  dsimp only at h ⊢
  split at h
  · cases h
  · next hlow =>
    rw [if_neg hlow]
    split at h
    · next hhigh =>
      rw [if_pos hhigh]
      split at h
      · cases h
      · cases h
      · next pair =>
        obtain ⟨⟨m, tail'⟩, hm, h⟩ := bind_eq_ok_iff.1 h
        refine bind_eq_ok_iff.2 ⟨(m, tail' ++ more), hexEscape_delimited hm more, ?_⟩
        dsimp only at h ⊢
        split at h
        · next hm' =>
          rw [if_pos hm']
          exact Delimited.done _ h more
        · cases h
      · cases h
    · next hhigh =>
      rw [if_neg hhigh]
      exact Delimited.done _ h more

section
variable {unicode : List Char → Except Fault (Char × List Char)}

theorem Delimited.escape (hu : Delimited unicode) : Delimited (escape unicode) := by
  intro cs rest c h more
  cases cs with
  | nil => cases h
  | cons d tail =>
    rw [List.cons_append]
    unfold Json.escape at h ⊢
    dsimp only at h ⊢
    split at h
    any_goals (cases h; rfl)
    · exact hu h more
    · cases h

/-- A string is read the same with more text after it, and with the more fuel that this gives. -/
theorem Delimited.stringBody (hu : Delimited unicode) {fuel fuel' : Nat} (hf : fuel ≤ fuel')
    {read cs s rest : List Char} (h : stringBody unicode fuel read cs = .ok (s, rest))
    (more : List Char) : stringBody unicode fuel' read (cs ++ more) = .ok (s, rest ++ more) := by
  induction fuel generalizing fuel' read cs with
  | zero => cases h
  | succ fuel ih =>
    cases fuel' with
    | zero => exact absurd hf (Nat.not_succ_le_zero _)
    | succ fuel' =>
      have hf' := Nat.le_of_succ_le_succ hf
      cases cs with
      | nil => cases h
      | cons c cs =>
        rw [List.cons_append]
        unfold Json.stringBody at h ⊢
        split at h
        · next hquote => rw [if_pos hquote]; cases h; rfl
        · next hquote =>
          rw [if_neg hquote]
          split at h
          · next hslash =>
            rw [if_pos hslash]
            obtain ⟨⟨e, tail⟩, he, h⟩ := bind_eq_ok_iff.1 h
            exact bind_eq_ok_iff.2 ⟨(e, tail ++ more), hu.escape he more, ih hf' h⟩
          · next hslash =>
            rw [if_neg hslash]
            split at h
            · cases h
            · next hcontrol => rw [if_neg hcontrol]; exact ih hf' h

end

theorem length_le_length_append (cs more : List Char) : cs.length + 1 ≤ (cs ++ more).length + 1 := by
  rw [List.length_append]; omega

theorem string_delimited : Delimited string := by
  intro cs rest s h more
  obtain ⟨⟨s', tail⟩, hs, h⟩ := bind_eq_ok_iff.1 h
  have hs' := unicodeEscape_delimited.stringBody (length_le_length_append cs more) hs more
  refine bind_eq_ok_iff.2 ⟨(s', tail ++ more), hs', ?_⟩
  cases h; rfl

theorem skipString_append {cs rest : List Char} (h : skipString cs = .ok rest) (more : List Char) :
    skipString (cs ++ more) = .ok (rest ++ more) := by
  obtain ⟨⟨s, tail⟩, hs, h⟩ := bind_eq_ok_iff.1 h
  have hs' := skippedEscape_delimited.stringBody (length_le_length_append cs more) hs more
  refine bind_eq_ok_iff.2 ⟨(s, tail ++ more), hs', ?_⟩
  cases h; rfl

/-! ## Numbers -/

/-- Digits that something follows are the same with more text after it. -/
theorem digits_append {cs : List Char} (h : afterDigits cs ≠ []) (more : List Char) :
    digits (cs ++ more) = digits cs ∧ afterDigits (cs ++ more) = afterDigits cs ++ more := by
  unfold digits afterDigits at *
  constructor
  · rw [List.takeWhile_append, if_neg]
    intro hlen
    have hsplit := congrArg List.length (List.takeWhile_append_dropWhile (p := Char.isDigit) (l := cs))
    rw [List.length_append, hlen] at hsplit
    exact h (List.eq_nil_of_length_eq_zero (by omega))
  · rw [List.dropWhile_append, if_neg]
    simpa using h

theorem skipDigits_append {cs rest : List Char} (h : skipDigits cs = .ok rest) (hne : rest ≠ [])
    (more : List Char) : skipDigits (cs ++ more) = .ok (rest ++ more) := by
  unfold skipDigits at h ⊢
  split at h
  · cases h
  · next hdigits =>
    cases h
    obtain ⟨hd, ha⟩ := digits_append hne more
    rw [hd, ha, if_neg hdigits]

/-- What follows the letter of an exponent. -/
def skipSigned (cs : List Char) : Except Fault (List Char) :=
  match cs with
  | '+' :: rest | '-' :: rest => skipDigits rest
  | rest => skipDigits rest

/-- A sign is passed over alone, or is none. -/
theorem skipSigned_cons (c : Char) :
    (∀ cs, skipSigned (c :: cs) = skipDigits cs) ∨
      ∀ cs, skipSigned (c :: cs) = skipDigits (c :: cs) := by
  by_cases hplus : c = '+'
  · subst hplus; exact Or.inl fun _ => rfl
  by_cases hminus : c = '-'
  · subst hminus; exact Or.inl fun _ => rfl
  refine Or.inr fun cs => ?_
  unfold skipSigned
  split
  · next h => exact absurd (List.cons.inj h).1 hplus
  · next h => exact absurd (List.cons.inj h).1 hminus
  · rfl

/-- An exponent begins with its letter, or there is none. -/
theorem skipExponent_cons (c : Char) :
    (∀ cs, skipExponent (c :: cs) = skipSigned cs) ∨
      ∀ cs, skipExponent (c :: cs) = .ok (c :: cs) := by
  by_cases hlower : c = 'e'
  · subst hlower; exact Or.inl fun _ => rfl
  by_cases hupper : c = 'E'
  · subst hupper; exact Or.inl fun _ => rfl
  refine Or.inr fun cs => ?_
  unfold skipExponent
  split
  · next h => exact absurd (List.cons.inj h).1 hlower
  · next h => exact absurd (List.cons.inj h).1 hupper
  · rfl

theorem skipSigned_append {cs rest : List Char} (h : skipSigned cs = .ok rest) (hne : rest ≠ [])
    (more : List Char) : skipSigned (cs ++ more) = .ok (rest ++ more) := by
  cases cs with
  | nil => cases h
  | cons c cs =>
    rcases skipSigned_cons c with hc | hc
    · rw [hc] at h
      rw [List.cons_append, hc]
      exact skipDigits_append h hne more
    · rw [hc] at h
      rw [List.cons_append, hc]
      exact skipDigits_append h hne more

theorem skipExponent_append {cs rest : List Char} (h : skipExponent cs = .ok rest) (hne : rest ≠ [])
    (more : List Char) : skipExponent (cs ++ more) = .ok (rest ++ more) := by
  cases cs with
  | nil => cases h; exact absurd rfl hne
  | cons c cs =>
    rcases skipExponent_cons c with hc | hc
    · rw [hc] at h
      rw [List.cons_append, hc]
      exact skipSigned_append h hne more
    · rw [hc] at h
      rw [List.cons_append, hc]
      cases h; rfl

/-- After digits that end with the text there is no exponent to leave some of it. -/
theorem ne_nil_of_skipExponent {cs rest : List Char} (h : skipExponent cs = .ok rest)
    (hne : rest ≠ []) : cs ≠ [] := by
  rintro rfl
  cases h
  exact hne rfl

theorem skipFraction_of_ne {c : Char} (hc : c ≠ '.') (cs : List Char) :
    skipFraction (c :: cs) = skipExponent (c :: cs) := by
  unfold skipFraction
  split
  · next h => exact absurd (List.cons.inj h).1 hc
  · rfl

theorem skipFraction_append {cs rest : List Char} (h : skipFraction cs = .ok rest) (hne : rest ≠ [])
    (more : List Char) : skipFraction (cs ++ more) = .ok (rest ++ more) := by
  cases cs with
  | nil => cases h; exact absurd rfl hne
  | cons c cs =>
    rw [List.cons_append]
    by_cases hc : c = '.'
    · subst hc
      obtain ⟨mid, hmid, h⟩ := bind_eq_ok_iff.1 h
      have hmid' := skipDigits_append hmid (ne_nil_of_skipExponent h hne) more
      exact bind_eq_ok_iff.2 ⟨mid ++ more, hmid', skipExponent_append h hne more⟩
    · rw [skipFraction_of_ne hc] at h ⊢
      exact skipExponent_append h hne more

theorem ne_nil_of_skipFraction {cs rest : List Char} (h : skipFraction cs = .ok rest)
    (hne : rest ≠ []) : cs ≠ [] := by
  rintro rfl
  cases h
  exact hne rfl

theorem skipUnsigned_zero (cs : List Char) : skipUnsigned ('0' :: cs) =
    if (digits cs).isEmpty then skipFraction cs else .error .invalidNumber := rfl

theorem skipUnsigned_of_ne {c : Char} (hc : c ≠ '0') (cs : List Char) :
    skipUnsigned (c :: cs) = skipDigits (c :: cs) >>= skipFraction := by
  unfold skipUnsigned
  split
  · next h => exact absurd (List.cons.inj h).1 hc
  · rfl

/-- A number is passed over the same, if its end has been seen. -/
theorem skipUnsigned_append {cs rest : List Char} (h : skipUnsigned cs = .ok rest) (hne : rest ≠ [])
    (more : List Char) : skipUnsigned (cs ++ more) = .ok (rest ++ more) := by
  cases cs with
  | nil => cases h
  | cons c cs =>
    rw [List.cons_append]
    by_cases hc : c = '0'
    · subst hc
      rw [skipUnsigned_zero] at h ⊢
      split at h
      · next hdigits =>
        have hafter : afterDigits cs ≠ [] := by
          cases cs with
          | nil => exact absurd rfl (ne_nil_of_skipFraction h hne)
          | cons d cs =>
            intro hnil
            have hsplit := List.takeWhile_append_dropWhile (p := Char.isDigit) (l := d :: cs)
            rw [show List.takeWhile Char.isDigit (d :: cs) = [] by simpa [digits] using hdigits,
              show List.dropWhile Char.isDigit (d :: cs) = [] from hnil] at hsplit
            cases hsplit
        rw [(digits_append hafter more).1, if_pos hdigits]
        exact skipFraction_append h hne more
      · cases h
    · rw [skipUnsigned_of_ne hc] at h ⊢
      obtain ⟨mid, hmid, h⟩ := bind_eq_ok_iff.1 h
      have hmid' := skipDigits_append hmid (ne_nil_of_skipFraction h hne) more
      exact bind_eq_ok_iff.2 ⟨mid ++ more, hmid', skipFraction_append h hne more⟩

/-! ## Values that are passed over -/

/-- What the three readers do with fuel `fuel` they do with more fuel, and more text. -/
structure SkipsOn (fuel : Nat) : Prop where
  value : ∀ {fuel' cs rest}, fuel ≤ fuel' → skipValue fuel cs = .ok rest → rest ≠ [] →
    ∀ more, skipValue fuel' (cs ++ more) = .ok (rest ++ more)
  items : ∀ {fuel' cs rest}, fuel ≤ fuel' → skipItems fuel cs = .ok rest →
    ∀ more, skipItems fuel' (cs ++ more) = .ok (rest ++ more)
  members : ∀ {fuel' cs rest}, fuel ≤ fuel' → skipMembers fuel cs = .ok rest →
    ∀ more, skipMembers fuel' (cs ++ more) = .ok (rest ++ more)

/-- The items of a list are read up to its bracket, so the end of each has been seen. -/
theorem SkipsOn.items_succ {fuel : Nat} (ih : SkipsOn fuel) {fuel' : Nat} {cs rest : List Char}
    (hf : fuel ≤ fuel') (h : skipItems (fuel + 1) cs = .ok rest) (more : List Char) :
    skipItems (fuel' + 1) (cs ++ more) = .ok (rest ++ more) := by
  unfold skipItems at h ⊢
  obtain ⟨mid, hmid, h⟩ := bind_eq_ok_iff.1 h
  cases ht : trim mid with
  | nil => rw [ht] at h; cases h
  | cons c tail =>
    have hne : mid ≠ [] := by rintro rfl; cases ht
    refine bind_eq_ok_iff.2 ⟨mid ++ more, ih.value hf hmid hne more, ?_⟩
    rw [ht] at h
    rw [trim_append ht more]
    split at h
    · cases h
    · next heq => cases heq; cases h; rfl
    · next heq => cases heq; exact ih.items hf h more
    · cases h

/-- The members of an object are read up to its brace. -/
theorem SkipsOn.members_succ {fuel : Nat} (ih : SkipsOn fuel) {fuel' : Nat} {cs rest : List Char}
    (hf : fuel ≤ fuel') (h : skipMembers (fuel + 1) cs = .ok rest) (more : List Char) :
    skipMembers (fuel' + 1) (cs ++ more) = .ok (rest ++ more) := by
  unfold skipMembers at h ⊢
  cases hkey : trim cs with
  | nil => rw [hkey] at h; cases h
  | cons c tail =>
    rw [hkey] at h
    rw [trim_append hkey more]
    split at h
    · cases h
    · next heq =>
      cases heq
      obtain ⟨afterKey, hafter, h⟩ := bind_eq_ok_iff.1 h
      refine bind_eq_ok_iff.2 ⟨afterKey ++ more, skipString_append hafter more, ?_⟩
      cases hcolon : trim afterKey with
      | nil => rw [hcolon] at h; cases h
      | cons c tail =>
        rw [hcolon] at h
        rw [trim_append hcolon more]
        split at h
        · cases h
        · next heq =>
          cases heq
          obtain ⟨mid, hmid, h⟩ := bind_eq_ok_iff.1 h
          cases hend : trim mid with
          | nil => rw [hend] at h; cases h
          | cons c tail =>
            have hne : mid ≠ [] := by rintro rfl; cases hend
            refine bind_eq_ok_iff.2 ⟨mid ++ more, ih.value hf hmid hne more, ?_⟩
            rw [hend] at h
            rw [trim_append hend more]
            split at h
            · cases h
            · next heq => cases heq; cases h; rfl
            · next heq => cases heq; exact ih.members hf h more
            · cases h
        · cases h
    · cases h

theorem SkipsOn.value_succ {fuel : Nat} (ih : SkipsOn fuel) {fuel' : Nat} {cs rest : List Char}
    (hf : fuel ≤ fuel') (h : skipValue (fuel + 1) cs = .ok rest) (hne : rest ≠ []) (more : List Char) :
    skipValue (fuel' + 1) (cs ++ more) = .ok (rest ++ more) := by
  unfold skipValue at h ⊢
  cases ht : trim cs with
  | nil => rw [ht] at h; cases h
  | cons c tail =>
    rw [ht] at h
    rw [trim_append ht more]
    dsimp only at h ⊢
    split at h
    · exact word_append h more
    · exact word_append h more
    · exact word_append h more
    · exact skipString_append h more
    · exact skipUnsigned_append h hne more
    · -- A list: it is empty, or its first item begins after white space.
      cases hitem : trim tail with
      | nil => rw [hitem] at h; cases h
      | cons d tail' =>
        rw [hitem] at h
        rw [trim_append hitem more]
        split at h
        · cases h
        · next heq => cases heq; cases h; rfl
        · next hclose =>
          have hd : d ≠ ']' := by rintro rfl; exact hclose _ rfl
          split
          · next heq => cases heq
          · next heq => exact absurd (List.cons.inj heq).1 hd
          · exact ih.items hf h more
    · -- An object, in the same way.
      cases hkey : trim tail with
      | nil => rw [hkey] at h; cases h
      | cons d tail' =>
        rw [hkey] at h
        rw [trim_append hkey more]
        split at h
        · cases h
        · next heq => cases heq; cases h; rfl
        · next hclose =>
          have hd : d ≠ '\x7d' := by rintro rfl; exact hclose _ rfl
          split
          · next heq => cases heq
          · next heq => exact absurd (List.cons.inj heq).1 hd
          · exact ih.members hf h more
    · split at h
      · next hdigit => rw [if_pos hdigit]; exact skipUnsigned_append h hne more
      · cases h

theorem skipsOn (fuel : Nat) : SkipsOn fuel := by
  induction fuel with
  | zero =>
    constructor
    · intro _ _ _ _ h; cases h
    · intro _ _ _ _ h; cases h
    · intro _ _ _ _ h; cases h
  | succ fuel ih =>
    have more_fuel : ∀ {fuel'}, fuel + 1 ≤ fuel' → ∃ n, fuel' = n + 1 ∧ fuel ≤ n := by
      intro fuel' hf
      exact ⟨fuel' - 1, by omega, by omega⟩
    constructor
    · intro fuel' cs rest hf h hne more
      obtain ⟨n, rfl, hn⟩ := more_fuel hf
      exact ih.value_succ hn h hne more
    · intro fuel' cs rest hf h more
      obtain ⟨n, rfl, hn⟩ := more_fuel hf
      exact ih.items_succ hn h more
    · intro fuel' cs rest hf h more
      obtain ⟨n, rfl, hn⟩ := more_fuel hf
      exact ih.members_succ hn h more

/-- **Passing over**: a value is passed over the same with more text after it, if something of
the text was left, so that its end has been seen. -/
theorem skip_append {cs rest : List Char} (h : skip cs = .ok rest) (hne : rest ≠ [])
    (more : List Char) : skip (cs ++ more) = .ok (rest ++ more) := by
  have hf : 2 * cs.length + 2 ≤ 2 * (cs ++ more).length + 2 := by
    rw [List.length_append]; omega
  exact (skipsOn _).value hf h hne more

end Json

end RouteBook
