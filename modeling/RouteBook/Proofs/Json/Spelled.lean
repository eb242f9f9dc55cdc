import RouteBook.Proofs.Json.Extension
import RouteBook.Proofs.Json.Grammar

/-!
# Spelled texts are read

The readers follow the grammar. A spelled string is read as that string, whatever escapes it is
spelled with (`StringText.body`), and where it is passed over its surrogates may as well come one by
one. A spelled value is passed over as a whole (`skip_of_spaced`): the digits of a number end where
`EndsValue` says that they do, and twice the length of a text is fuel enough for it.
-/

namespace RouteBook.Json

/-! ## Strings -/

theorem isDigit_iff {c : Char} : c.isDigit = true ↔ '0' ≤ c ∧ c ≤ '9' := by
  simp [Char.isDigit, Char.le_def, UInt32.le_iff_toNat_le]

theorem isDigit_eq_false_of_lt {c : Char} (h : '9' < c) : c.isDigit = false := by
  rw [Bool.eq_false_iff, ne_eq, isDigit_iff]
  exact fun hc => absurd hc.2 (not_le.2 h)

theorem hexValue?_of_hexDigit {c : Char} {n : Nat} (h : HexDigit c n) : hexValue? c = some n := by
  rcases h with ⟨hlow, hhigh, rfl⟩ | ⟨hlow, hhigh, rfl⟩ | ⟨hlow, hhigh, rfl⟩
  · rw [hexValue?, if_pos (isDigit_iff.2 ⟨hlow, hhigh⟩)]
  · have hdigit := isDigit_eq_false_of_lt (lt_of_lt_of_le (by decide : '9' < 'a') hlow)
    simp [hexValue?, hdigit, hlow, hhigh]
  · have hdigit := isDigit_eq_false_of_lt (lt_of_lt_of_le (by decide : '9' < 'A') hlow)
    have hlower : ¬ 'a' ≤ c := not_le.2 (lt_of_le_of_lt hhigh (by decide))
    simp [hexValue?, hdigit, hlow, hhigh, hlower]

theorem HexQuad.escape {quad : List Char} {n : Nat} (h : HexQuad quad n) (rest : List Char) :
    hexEscape (quad ++ rest) = .ok (n, rest) := by
  obtain @⟨a, b, c, d, i, j, k, l, ha, hb, hc, hd⟩ := h
  have hquad : hexQuad? a b c d = some (((i * 16 + j) * 16 + k) * 16 + l) := by
    simp only [hexQuad?, hexValue?_of_hexDigit ha, hexValue?_of_hexDigit hb, hexValue?_of_hexDigit hc,
      hexValue?_of_hexDigit hd, Option.bind_eq_bind, Option.bind_some, Option.some.injEq]
    omega
  simp [hexEscape, hquad]

theorem unicodeEscape_of_quad {quad : List Char} {n : Nat} (h : HexQuad quad n)
    (hn : ¬ (0xD800 ≤ n ∧ n ≤ 0xDFFF)) (rest : List Char) :
    unicodeEscape (quad ++ rest) = .ok (Char.ofNat n, rest) := by
  have hlow : isLowSurrogate n = false := by simp [isLowSurrogate]; omega
  have hhigh : isHighSurrogate n = false := by simp [isHighSurrogate]; omega
  simp [unicodeEscape, h.escape, bind, Except.bind, hlow, hhigh]

theorem unicodeEscape_of_pair {quad quad' : List Char} {high low : Nat} (h : HexQuad quad high)
    (h' : HexQuad quad' low) (hh : 0xD800 ≤ high ∧ high ≤ 0xDBFF) (hl : 0xDC00 ≤ low ∧ low ≤ 0xDFFF)
    (rest : List Char) :
    unicodeEscape (quad ++ '\\' :: 'u' :: (quad' ++ rest)) =
      .ok (Char.ofNat (0x10000 + (high - 0xD800) * 0x400 + (low - 0xDC00)), rest) := by
  have hlow : isLowSurrogate high = false := by simp [isLowSurrogate]; omega
  have hhigh : isHighSurrogate high = true := by simp [isHighSurrogate]; omega
  have hlow' : isLowSurrogate low = true := by simp [isLowSurrogate]; omega
  simp [unicodeEscape, h.escape, h'.escape, bind, Except.bind, hlow, hhigh, hlow', pairedChar]

/-- A character is read from each of its texts. -/
theorem CharText.readAs {c : Char} {text : List Char} (h : CharText c text) : ReadAs c text := by
  cases h with
  | bare h => exact Or.inl ⟨h, rfl⟩
  | unicode hquad h =>
    exact Or.inr ⟨_, rfl, fun rest => unicodeEscape_of_quad hquad h rest⟩
  | pair hquad hquad' hhigh hlow =>
    refine Or.inr ⟨_, rfl, fun rest => ?_⟩
    have hread := unicodeEscape_of_pair hquad hquad' hhigh hlow rest
    simpa [escape] using hread
  | quote => exact Or.inr ⟨_, rfl, fun _ => rfl⟩
  | backslash => exact Or.inr ⟨_, rfl, fun _ => rfl⟩
  | slash => exact Or.inr ⟨_, rfl, fun _ => rfl⟩
  | backspace => exact Or.inr ⟨_, rfl, fun _ => rfl⟩
  | formFeed => exact Or.inr ⟨_, rfl, fun _ => rfl⟩
  | lineFeed => exact Or.inr ⟨_, rfl, fun _ => rfl⟩
  | carriageReturn => exact Or.inr ⟨_, rfl, fun _ => rfl⟩
  | tab => exact Or.inr ⟨_, rfl, fun _ => rfl⟩

/-! ## Strings that are passed over -/

/-- With fuel to spare, a text is passed over in `n` steps. -/
def Passed (n : Nat) (text : List Char) : Prop :=
  ∀ fuel read rest, ∃ read', stringBody skippedEscape (n + fuel) read (text ++ rest) =
    stringBody skippedEscape fuel read' rest

theorem Passed.append {n m : Nat} {a b : List Char} (ha : Passed n a) (hb : Passed m b) :
    Passed (n + m) (a ++ b) := by
  intro fuel read rest
  obtain ⟨read₁, h₁⟩ := ha (m + fuel) read (b ++ rest)
  obtain ⟨read₂, h₂⟩ := hb fuel read₁ rest
  refine ⟨read₂, ?_⟩
  rw [Nat.add_assoc, List.append_assoc, h₁, h₂]

/-- An escape is passed over in one step. -/
theorem passed_escape {e : List Char} {c : Char}
    (h : ∀ rest, escape skippedEscape (e ++ rest) = .ok (c, rest)) : Passed 1 ('\\' :: e) := by
  intro fuel read rest
  refine ⟨c :: read, ?_⟩
  rw [Nat.add_comm, List.cons_append, stringBody, if_neg (by decide), if_pos rfl, h]
  rfl

theorem passed_quad {quad : List Char} {n : Nat} (h : HexQuad quad n) :
    Passed 1 ('\\' :: 'u' :: quad) := by
  refine passed_escape (c := Char.ofNat n) fun rest => ?_
  simp [escape, skippedEscape, h.escape, bind, Except.bind]

/-- Of two surrogates, each is passed over by itself. -/
theorem CharText.passed {c : Char} {text : List Char} (h : CharText c text) :
    ∃ n ≤ text.length, Passed n text := by
  cases h with
  | bare h =>
    obtain ⟨hquote, hslash, hc⟩ := h
    have hc' : ¬ c.toNat < 0x20 := by omega
    refine ⟨1, by simp, fun fuel read rest => ⟨c :: read, ?_⟩⟩
    rw [Nat.add_comm, List.singleton_append, stringBody, if_neg hquote, if_neg hslash, if_neg hc']
  | unicode hquad => exact ⟨1, by simp, passed_quad hquad⟩
  | pair hquad hquad' =>
    refine ⟨2, by simp, ?_⟩
    exact (passed_quad hquad).append (passed_quad hquad')
  | quote => exact ⟨1, by simp, passed_escape (c := '"') fun _ => rfl⟩
  | backslash => exact ⟨1, by simp, passed_escape (c := '\\') fun _ => rfl⟩
  | slash => exact ⟨1, by simp, passed_escape (c := '/') fun _ => rfl⟩
  | backspace => exact ⟨1, by simp, passed_escape (c := '\x08') fun _ => rfl⟩
  | formFeed => exact ⟨1, by simp, passed_escape (c := '\x0c') fun _ => rfl⟩
  | lineFeed => exact ⟨1, by simp, passed_escape (c := '\n') fun _ => rfl⟩
  | carriageReturn => exact ⟨1, by simp, passed_escape (c := '\r') fun _ => rfl⟩
  | tab => exact ⟨1, by simp, passed_escape (c := '\t') fun _ => rfl⟩

theorem passed_of_pieces {cs : List Char} {pieces : List (List Char)}
    (h : List.Forall₂ CharText cs pieces) : ∃ n ≤ pieces.flatten.length, Passed n pieces.flatten := by
  induction h with
  | nil => exact ⟨0, by simp, fun fuel read rest => ⟨read, by simp⟩⟩
  | cons hpiece _ ih =>
    obtain ⟨n, hn, hpassed⟩ := hpiece.passed
    obtain ⟨m, hm, hpassed'⟩ := ih
    refine ⟨n + m, ?_, hpassed.append hpassed'⟩
    rw [List.flatten_cons, List.length_append]
    omega

theorem skipString_of_pieces {cs : List Char} {pieces : List (List Char)}
    (h : List.Forall₂ CharText cs pieces) (rest : List Char) :
    skipString (pieces.flatten ++ '"' :: rest) = .ok rest := by
  obtain ⟨n, hn, hpassed⟩ := passed_of_pieces h
  obtain ⟨spare, hspare⟩ : ∃ spare, (pieces.flatten ++ '"' :: rest).length + 1 = n + (spare + 1) :=
    ⟨(pieces.flatten ++ '"' :: rest).length - n, by rw [List.length_append]; omega⟩
  obtain ⟨read, hread⟩ := hpassed (spare + 1) [] ('"' :: rest)
  rw [skipString, hspare, hread]
  rfl

/-- After its quote, a spelled string is read as the string, and may be passed over. -/
theorem StringText.body {s : String} {text : List Char} (h : StringText s text) :
    ∃ body, text = '"' :: body ∧ ∀ rest, string (body ++ rest) = .ok (s, rest) ∧
      skipString (body ++ rest) = .ok rest := by
  obtain ⟨pieces, hpieces, rfl⟩ := h
  refine ⟨pieces.flatten ++ ['"'], rfl, fun rest => ?_⟩
  have hread : List.Forall₂ ReadAs s.toList pieces := hpieces.imp fun _ _ => CharText.readAs
  rw [List.append_assoc]
  exact ⟨string_of_pieces hread rest, skipString_of_pieces hpieces rest⟩

/-! ## Numbers -/

/-- No digit comes first. -/
def NoDigit (rest : List Char) : Prop := ∀ c ∈ rest.head?, c.isDigit = false

theorem EndsValue.noDigit {rest : List Char} (h : EndsValue rest) : NoDigit rest :=
  fun c hc => (h c hc).1

theorem noDigit_cons {c : Char} (h : c.isDigit = false) (rest : List Char) : NoDigit (c :: rest) := by
  intro d hd
  obtain rfl := Option.some.inj hd
  exact h

theorem NoDigit.digits {rest : List Char} (h : NoDigit rest) :
    digits rest = [] ∧ afterDigits rest = rest := by
  cases rest with
  | nil => exact ⟨rfl, rfl⟩
  | cons c rest =>
    have hc := h c rfl
    exact ⟨List.takeWhile_cons_of_neg (by simp [hc]), List.dropWhile_cons_of_neg (by simp [hc])⟩

/-- Digits are passed over where no further digit follows. -/
theorem Digits.skip {ds rest : List Char} (h : Digits ds) (hrest : NoDigit rest) :
    skipDigits (ds ++ rest) = .ok rest := by
  obtain ⟨hne, hall⟩ := h
  have hdigit : ∀ c ∈ ds, c.isDigit = true := fun c hc => isDigit_iff.2 (hall c hc)
  have htake : digits (ds ++ rest) = ds := Text.takeWhile_append_of_head hdigit hrest
  have hdrop : afterDigits (ds ++ rest) = rest := Text.dropWhile_append_of_head hdigit hrest
  rw [skipDigits, htake, hdrop, if_neg (by simpa using hne)]

/-- The first of some digits is no sign. -/
theorem Digits.skipSigned {ds rest : List Char} (h : Digits ds) (hrest : NoDigit rest) :
    skipSigned (ds ++ rest) = .ok rest := by
  have hskip := h.skip hrest
  obtain ⟨hne, hall⟩ := h
  obtain ⟨c, ds, rfl⟩ := List.exists_cons_of_ne_nil hne
  have hc := isDigit_iff.2 (hall c (by simp))
  rw [List.cons_append] at hskip ⊢
  unfold Json.skipSigned
  split
  · next heq => obtain ⟨rfl, -⟩ := List.cons.inj heq; cases hc
  · next heq => obtain ⟨rfl, -⟩ := List.cons.inj heq; cases hc
  · exact hskip

theorem EndsValue.skipExponent {rest : List Char} (h : EndsValue rest) :
    skipExponent rest = .ok rest := by
  cases rest with
  | nil => rfl
  | cons c rest =>
    obtain ⟨-, -, hlower, hupper⟩ := h c rfl
    unfold Json.skipExponent
    split
    · next heq => exact absurd (List.cons.inj heq).1 hlower
    · next heq => exact absurd (List.cons.inj heq).1 hupper
    · rfl

theorem Exponent.skip {exponent rest : List Char} (h : Exponent exponent) (hrest : EndsValue rest) :
    skipExponent (exponent ++ rest) = .ok rest := by
  rcases h with rfl | ⟨e, sign, ds, he, hsign, hds, rfl⟩
  · exact hrest.skipExponent
  · have hletter : ∀ cs, skipExponent (e :: cs) = skipSigned cs := by
      rcases he with rfl | rfl
      · exact fun _ => rfl
      · exact fun _ => rfl
    rw [List.cons_append, hletter, List.append_assoc]
    rcases hsign with rfl | rfl | rfl
    · exact hds.skipSigned hrest.noDigit
    · exact hds.skip hrest.noDigit
    · exact hds.skip hrest.noDigit

theorem Exponent.noDigit {exponent rest : List Char} (h : Exponent exponent) (hrest : EndsValue rest) :
    NoDigit (exponent ++ rest) := by
  rcases h with rfl | ⟨e, sign, ds, he, -, -, rfl⟩
  · exact hrest.noDigit
  · rcases he with rfl | rfl
    · exact noDigit_cons (by decide) _
    · exact noDigit_cons (by decide) _

theorem Fraction.skip {fraction exponent rest : List Char} (h : Fraction fraction)
    (hexponent : Exponent exponent) (hrest : EndsValue rest) :
    skipFraction (fraction ++ (exponent ++ rest)) = .ok rest := by
  have hskip := hexponent.skip hrest
  rcases h with rfl | ⟨ds, hds, rfl⟩
  · -- Without a fraction the next character is no point.
    rw [List.nil_append]
    cases hnext : exponent ++ rest with
    | nil => rwa [hnext] at hskip
    | cons c cs =>
      have hc : c ≠ '.' := by
        rcases hexponent with rfl | ⟨e, sign, ds, he, -, -, rfl⟩
        · rw [List.nil_append] at hnext
          subst hnext
          exact (hrest c rfl).2.1
        · rw [List.cons_append] at hnext
          obtain ⟨rfl, -⟩ := List.cons.inj hnext
          rcases he with rfl | rfl <;> decide
      rw [skipFraction_of_ne hc, ← hnext, hskip]
  · have hdigits := hds.skip (hexponent.noDigit hrest)
    exact bind_eq_ok_iff.2 ⟨_, hdigits, hskip⟩

theorem Fraction.noDigit {fraction exponent rest : List Char} (h : Fraction fraction)
    (hexponent : Exponent exponent) (hrest : EndsValue rest) :
    NoDigit (fraction ++ (exponent ++ rest)) := by
  rcases h with rfl | ⟨ds, -, rfl⟩
  · exact hexponent.noDigit hrest
  · exact noDigit_cons (by decide) _

theorem Whole.skip {whole rest rest' : List Char} (h : Whole whole) (hrest : NoDigit rest)
    (hskip : skipFraction rest = .ok rest') : skipUnsigned (whole ++ rest) = .ok rest' := by
  rcases h with rfl | ⟨hds, hzero⟩
  · rw [List.singleton_append, skipUnsigned_zero, hrest.digits.1]
    exact hskip
  · have hdigits := hds.skip hrest
    obtain ⟨c, ds, rfl⟩ := List.exists_cons_of_ne_nil hds.1
    have hc : c ≠ '0' := by
      rintro rfl
      exact hzero rfl
    rw [List.cons_append] at hdigits ⊢
    rw [skipUnsigned_of_ne hc]
    exact bind_eq_ok_iff.2 ⟨_, hdigits, hskip⟩

/-- A number is passed over, with its sign or after it. -/
theorem skipUnsigned_of_number {whole fraction exponent rest : List Char} (hwhole : Whole whole)
    (hfraction : Fraction fraction) (hexponent : Exponent exponent) (hrest : EndsValue rest) :
    skipUnsigned (whole ++ (fraction ++ (exponent ++ rest))) = .ok rest :=
  hwhole.skip (hfraction.noDigit hexponent hrest) (hfraction.skip hexponent hrest)

/-! ## Values that are passed over -/

theorem trim_trim (cs : List Char) : trim (trim cs) = trim cs := by
  unfold trim
  exact List.dropWhile_idempotent _ cs

theorem Spells.trim_append {v : Value} {t : List Char} (h : Spells v t) (rest : List Char) :
    trim (t ++ rest) = t ++ rest := by
  obtain ⟨c, t, rfl, hc⟩ := h.head
  exact trim_cons hc.plain.1 _

/-- Without the white space in front of it, a value begins with itself. -/
theorem SpellsSpaced.trim {v : Value} {t : List Char} (h : SpellsSpaced v t) :
    ∃ text w', Spells v text ∧ Spaces w' ∧ ∀ rest, trim (t ++ rest) = text ++ (w' ++ rest) := by
  cases h with
  | @intro _ w text w' hw h hw' =>
    refine ⟨text, w', h, hw', fun rest => ?_⟩
    rw [List.append_assoc, List.append_assoc, trim_spaces_append hw, h.trim_append]

theorem SpellsItems.ne_nil {vs : List Value} {t : List Char} (h : SpellsItems vs t) : vs ≠ [] := by
  rintro rfl
  cases h

/-- A list goes on after its first item, or ends. -/
theorem SpellsItems.first {v : Value} {vs : List Value} {t : List Char} (h : SpellsItems (v :: vs) t) :
    ∃ text w, Spells v text ∧ Spaces w ∧
      ((vs = [] ∧ ∀ rest, Json.trim (t ++ rest) = text ++ (w ++ rest)) ∨
        ∃ u, SpellsItems vs u ∧ ∀ rest, Json.trim (t ++ rest) = text ++ (w ++ ',' :: (u ++ rest))) := by
  cases h with
  | last h =>
    obtain ⟨text, w, htext, hw, htrim⟩ := h.trim
    exact ⟨text, w, htext, hw, Or.inl ⟨rfl, htrim⟩⟩
  | @more _ _ t u h hmore =>
    obtain ⟨text, w, htext, hw, htrim⟩ := h.trim
    refine ⟨text, w, htext, hw, Or.inr ⟨u, hmore, fun rest => ?_⟩⟩
    rw [List.append_assoc, htrim]
    rfl

/-- The first item of a list is not its end. -/
theorem SpellsItems.head {vs : List Value} {t : List Char} (h : SpellsItems vs t) (rest : List Char) :
    ∃ c cs, Json.trim (t ++ rest) = c :: cs ∧ c ≠ ']' := by
  obtain ⟨v, vs, rfl⟩ := List.exists_cons_of_ne_nil h.ne_nil
  obtain ⟨text, w, htext, -, hnext⟩ := h.first
  obtain ⟨c, text, rfl, hc⟩ := htext.head
  rcases hnext with ⟨-, htrim⟩ | ⟨u, -, htrim⟩
  · exact ⟨c, _, htrim rest, hc.plain.2.1⟩
  · exact ⟨c, _, htrim rest, hc.plain.2.1⟩

theorem KeyText.trim {key : String} {k : List Char} (h : KeyText key k) :
    ∃ body w', Spaces w' ∧ (∀ rest, Json.trim (k ++ rest) = '"' :: (body ++ (w' ++ ':' :: rest))) ∧
      ∀ rest, string (body ++ rest) = .ok (key, rest) ∧ skipString (body ++ rest) = .ok rest := by
  obtain ⟨w, t, w', hw, ht, hw', rfl⟩ := h
  obtain ⟨body, rfl, hbody⟩ := ht.body
  refine ⟨body, w', hw', fun rest => ?_, hbody⟩
  simp only [List.append_assoc, List.cons_append, List.nil_append]
  rw [trim_spaces_cons hw (by decide)]

/-- The members of an object begin with a key. -/
theorem SpellsMembers.head {ms : List (String × Value)} {t : List Char} (h : SpellsMembers ms t)
    (rest : List Char) : ∃ cs, Json.trim (t ++ rest) = '"' :: cs := by
  cases h with
  | last hkey _ =>
    obtain ⟨body, w', -, htrim, -⟩ := hkey.trim
    rw [List.append_assoc]
    exact ⟨_, htrim _⟩
  | more hkey _ _ =>
    obtain ⟨body, w', -, htrim, -⟩ := hkey.trim
    rw [List.append_assoc]
    exact ⟨_, htrim _⟩

theorem skipValue_trim (fuel : Nat) (cs : List Char) : skipValue fuel (trim cs) = skipValue fuel cs := by
  cases fuel with
  | zero => rfl
  | succ fuel => rw [skipValue, skipValue, trim_trim]

theorem skipItems_trim (fuel : Nat) (cs : List Char) : skipItems fuel (trim cs) = skipItems fuel cs := by
  cases fuel with
  | zero => rfl
  | succ fuel => rw [skipItems, skipItems, skipValue_trim]

theorem skipMembers_trim (fuel : Nat) (cs : List Char) :
    skipMembers fuel (trim cs) = skipMembers fuel cs := by
  cases fuel with
  | zero => rfl
  | succ fuel => rw [skipMembers, skipMembers, trim_trim]

theorem skipValue_number {t : List Char} (h : NumberText t) {fuel : Nat} {w rest : List Char}
    (hw : Spaces w) (hrest : EndsValue rest) : skipValue (fuel + 1) (w ++ (t ++ rest)) = .ok rest := by
  obtain ⟨sign, whole, fraction, exponent, hsign, hwhole, hfraction, hexponent, rfl⟩ := h
  have hskip := skipUnsigned_of_number hwhole hfraction hexponent hrest
  rw [skipValue, trim_spaces_append hw]
  simp only [List.append_assoc]
  rcases hsign with rfl | rfl
  · obtain ⟨c, whole', rfl, hc⟩ := hwhole.head
    have hdigit := isDigit_iff.2 hc
    have hspace := (show (Value.number []).Head c from Or.inr hc).plain.1
    rw [List.nil_append, List.cons_append, trim_cons hspace]
    rw [List.cons_append] at hskip
    -- No digit is the first character of another kind of value.
    split
    · next heq => cases heq
    · next heq =>
      obtain ⟨rfl, rfl⟩ := List.cons.inj heq
      split
      all_goals try exact absurd hdigit (by decide)
      rw [if_pos hdigit]
      exact hskip
  · rw [List.singleton_append, trim_cons (by decide)]
    exact hskip

theorem skipValue_string {s : String} {t : List Char} (h : StringText s t) {fuel : Nat}
    {w rest : List Char} (hw : Spaces w) : skipValue (fuel + 1) (w ++ (t ++ rest)) = .ok rest := by
  obtain ⟨body, rfl, hbody⟩ := h.body
  rw [skipValue, trim_spaces_append hw, List.cons_append, trim_cons (by decide)]
  exact (hbody rest).2

/-- A list is passed over with its items. -/
theorem skipValue_list {vs : List Value} {t : List Char} (h : SpellsItems vs t) {fuel : Nat}
    {w rest : List Char} (hw : Spaces w) (hitems : skipItems fuel (t ++ ']' :: rest) = .ok rest) :
    skipValue (fuel + 1) (w ++ '[' :: (t ++ ']' :: rest)) = .ok rest := by
  obtain ⟨c, cs, htrim, hc⟩ := h.head (']' :: rest)
  rw [skipValue, trim_spaces_cons hw (by decide)]
  simp only [htrim]
  rw [← skipItems_trim, htrim] at hitems
  split
  · next heq => cases heq
  · next heq => exact absurd (List.cons.inj heq).1 hc
  · exact hitems

/-- An object is passed over with its members. -/
theorem skipValue_object {ms : List (String × Value)} {t : List Char} (h : SpellsMembers ms t)
    {fuel : Nat} {w rest : List Char} (hw : Spaces w)
    (hmembers : skipMembers fuel (t ++ '\x7d' :: rest) = .ok rest) :
    skipValue (fuel + 1) (w ++ '\x7b' :: (t ++ '\x7d' :: rest)) = .ok rest := by
  obtain ⟨cs, htrim⟩ := h.head ('\x7d' :: rest)
  rw [skipValue, trim_spaces_cons hw (by decide)]
  simp only [htrim]
  rw [← skipMembers_trim, htrim] at hmembers
  exact hmembers

theorem skipItems_last {fuel : Nat} {cs w rest : List Char} (hw : Spaces w)
    (h : skipValue fuel cs = .ok (w ++ ']' :: rest)) : skipItems (fuel + 1) cs = .ok rest := by
  rw [skipItems, h]
  simp only [bind, Except.bind]
  rw [trim_spaces_cons hw (by decide)]
  rfl

theorem skipItems_more {fuel : Nat} {cs w rest : List Char} (hw : Spaces w)
    (h : skipValue fuel cs = .ok (w ++ ',' :: rest)) :
    skipItems (fuel + 1) cs = skipItems fuel rest := by
  rw [skipItems, h]
  simp only [bind, Except.bind]
  rw [trim_spaces_cons hw (by decide)]
  rfl

/-- What `skipMembers` does after the colon of a member. -/
def skipMember (fuel : Nat) (cs : List Char) : Except Fault (List Char) := do
  match trim (← skipValue fuel cs) with
  | [] => .error .endInObject
  | '\x7d' :: rest => .ok rest
  | ',' :: rest => skipMembers fuel rest
  | _ => .error .expectedObjectSeparator

theorem skipMembers_key {key : String} {k : List Char} (h : KeyText key k) (fuel : Nat)
    (rest : List Char) : skipMembers (fuel + 1) (k ++ rest) = skipMember fuel rest := by
  obtain ⟨body, w', hw', htrim, hbody⟩ := h.trim
  rw [skipMembers, htrim]
  simp only [(hbody _).2, bind, Except.bind]
  rw [trim_spaces_cons hw' (by decide)]
  rfl

theorem skipMember_last {fuel : Nat} {cs w rest : List Char} (hw : Spaces w)
    (h : skipValue fuel cs = .ok (w ++ '\x7d' :: rest)) : skipMember fuel cs = .ok rest := by
  rw [skipMember, h]
  simp only [bind, Except.bind]
  rw [trim_spaces_cons hw (by decide)]
  rfl

theorem skipMember_more {fuel : Nat} {cs w rest : List Char} (hw : Spaces w)
    (h : skipValue fuel cs = .ok (w ++ ',' :: rest)) : skipMember fuel cs = skipMembers fuel rest := by
  rw [skipMember, h]
  simp only [bind, Except.bind]
  rw [trim_spaces_cons hw (by decide)]
  rfl

mutual

/-- A value is passed over. A list or an object takes fuel for its items and one more, which its
brackets pay for. -/
theorem skipValue_of_spells {v : Value} {t : List Char} (h : Spells v t) {fuel : Nat}
    {w rest : List Char} (hf : 2 * t.length ≤ fuel) (hw : Spaces w) (hrest : EndsValue rest) :
    skipValue fuel (w ++ (t ++ rest)) = .ok rest := by
  have hpos : 0 < t.length := by
    obtain ⟨c, t, rfl, -⟩ := h.head
    simp
  obtain ⟨fuel, rfl⟩ : ∃ n, fuel = n + 1 := ⟨fuel - 1, by omega⟩
  cases h with
  | null => rw [skipValue, trim_spaces_append hw]; rfl
  | true => rw [skipValue, trim_spaces_append hw]; rfl
  | false => rw [skipValue, trim_spaces_append hw]; rfl
  | number h => exact skipValue_number h hw hrest
  | string h => exact skipValue_string h hw
  | emptyList hw' =>
    rw [skipValue, trim_spaces_append hw, List.cons_append, List.append_assoc, trim_cons (by decide)]
    simp only [trim_spaces_append hw']
    rw [List.singleton_append, trim_cons (by decide)]
    rfl
  | emptyObject hw' =>
    rw [skipValue, trim_spaces_append hw, List.cons_append, List.append_assoc, trim_cons (by decide)]
    simp only [trim_spaces_append hw']
    rw [List.singleton_append, trim_cons (by decide)]
    rfl
  | list h =>
    simp only [List.length_cons, List.length_append, List.length_nil] at hf
    rw [List.cons_append, List.append_assoc]
    exact skipValue_list h hw (skipItems_of_spells h (by omega) rest)
  | object h =>
    simp only [List.length_cons, List.length_append, List.length_nil] at hf
    rw [List.cons_append, List.append_assoc]
    exact skipValue_object h hw (skipMembers_of_spells h (by omega) rest)
termination_by (fuel, 0)

/-- What is left begins with the white space after the value. -/
theorem skipValue_of_spaced {v : Value} {t : List Char} (h : SpellsSpaced v t) {fuel : Nat}
    {rest : List Char} (hf : 2 * t.length ≤ fuel) (hrest : EndsValue rest) :
    ∃ w, Spaces w ∧ skipValue fuel (t ++ rest) = .ok (w ++ rest) := by
  cases h with
  | @intro _ w text w' hw h hw' =>
    simp only [List.length_append] at hf
    refine ⟨w', hw', ?_⟩
    rw [List.append_assoc, List.append_assoc]
    exact skipValue_of_spells h (by omega) hw (hrest.spaces_append hw')
termination_by (fuel, 1)

theorem skipItems_of_spells {vs : List Value} {t : List Char} (h : SpellsItems vs t) {fuel : Nat}
    (hf : 2 * t.length < fuel) (rest : List Char) : skipItems fuel (t ++ ']' :: rest) = .ok rest := by
  obtain ⟨fuel, rfl⟩ : ∃ n, fuel = n + 1 := ⟨fuel - 1, by omega⟩
  cases h with
  | last h =>
    obtain ⟨w, hw, hskip⟩ := skipValue_of_spaced h (Nat.le_of_lt_succ hf)
      (endsValue_cons (Or.inr (Or.inl rfl)) rest)
    exact skipItems_last hw hskip
  | @more _ _ t u h hmore =>
    simp only [List.length_cons, List.length_append] at hf
    have hlt : 2 * t.length ≤ fuel := by omega
    obtain ⟨w, hw, hskip⟩ := skipValue_of_spaced h hlt (endsValue_cons (Or.inl rfl) _)
    rw [List.append_assoc, List.cons_append, skipItems_more hw hskip]
    exact skipItems_of_spells hmore (by omega) rest
termination_by (fuel, 0)

theorem skipMembers_of_spells {ms : List (String × Value)} {t : List Char} (h : SpellsMembers ms t)
    {fuel : Nat} (hf : 2 * t.length < fuel) (rest : List Char) :
    skipMembers fuel (t ++ '\x7d' :: rest) = .ok rest := by
  obtain ⟨fuel, rfl⟩ : ∃ n, fuel = n + 1 := ⟨fuel - 1, by omega⟩
  cases h with
  | @last _ _ k t hkey h =>
    simp only [List.length_append] at hf
    have hlt : 2 * t.length ≤ fuel := by omega
    obtain ⟨w, hw, hskip⟩ := skipValue_of_spaced h hlt (endsValue_cons (Or.inr (Or.inr rfl)) rest)
    rw [List.append_assoc, skipMembers_key hkey, skipMember_last hw hskip]
  | @more _ _ _ k t u hkey h hmore =>
    simp only [List.length_cons, List.length_append] at hf
    have hlt : 2 * t.length ≤ fuel := by omega
    obtain ⟨w, hw, hskip⟩ := skipValue_of_spaced h hlt (endsValue_cons (Or.inl rfl) _)
    rw [List.append_assoc, List.append_assoc, skipMembers_key hkey, List.cons_append,
      skipMember_more hw hskip]
    exact skipMembers_of_spells hmore (by omega) rest
termination_by (fuel, 0)

end

/-- **Passing over**: whatever the value is, the text after it is left. -/
theorem skip_of_spaced {v : Value} {t rest : List Char} (h : SpellsSpaced v t) (hrest : EndsValue rest) :
    ∃ w, Spaces w ∧ skip (t ++ rest) = .ok (w ++ rest) := by
  refine skipValue_of_spaced h ?_ hrest
  rw [List.length_append]
  omega

end RouteBook.Json
