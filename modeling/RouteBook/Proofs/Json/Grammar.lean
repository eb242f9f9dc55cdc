import RouteBook.Proofs.Json.Strings

/-!
# The grammar of JSON

What a text of JSON is, and which value it stands for, said without a reader: `Spells v t` relates a
value to each of the texts that spell it. Numbers keep their text, as no artifact holds one; members
keep their order, and a key may be repeated. A string is spelled by any mix of bare characters and
escapes, where the escapes of surrogates come in pairs.
-/

namespace RouteBook.Json

/-- A value, as far as it matters here. -/
inductive Value where
  | null
  | boolean (b : Bool)
  | number (text : List Char)
  | string (s : String)
  | list (items : List Value)
  | object (members : List (String × Value))

/-! ## Numbers -/

/-- One digit or more. -/
def Digits (cs : List Char) : Prop := cs ≠ [] ∧ ∀ c ∈ cs, '0' ≤ c ∧ c ≤ '9'

/-- The digits before the point: a zero stands alone. -/
def Whole (cs : List Char) : Prop := cs = ['0'] ∨ Digits cs ∧ cs.head? ≠ some '0'

/-- A point and digits, or nothing. -/
def Fraction (cs : List Char) : Prop := cs = [] ∨ ∃ ds, Digits ds ∧ cs = '.' :: ds

/-- A letter, a sign perhaps, and digits, or nothing. -/
def Exponent (cs : List Char) : Prop :=
  cs = [] ∨ ∃ e sign ds, (e = 'e' ∨ e = 'E') ∧ (sign = [] ∨ sign = ['+'] ∨ sign = ['-']) ∧ Digits ds ∧
    cs = e :: (sign ++ ds)

/-- The text of a number. -/
def NumberText (cs : List Char) : Prop :=
  ∃ sign whole fraction exponent, (sign = [] ∨ sign = ['-']) ∧ Whole whole ∧ Fraction fraction ∧
    Exponent exponent ∧ cs = sign ++ (whole ++ (fraction ++ exponent))

/-! ## Strings -/

/-- A hex digit of either case, with its value. -/
def HexDigit (c : Char) (n : Nat) : Prop :=
  ('0' ≤ c ∧ c ≤ '9' ∧ n = c.toNat - '0'.toNat) ∨
    ('a' ≤ c ∧ c ≤ 'f' ∧ n = c.toNat - 'a'.toNat + 10) ∨
    ('A' ≤ c ∧ c ≤ 'F' ∧ n = c.toNat - 'A'.toNat + 10)

/-- Four hex digits, with the value of all of them. -/
inductive HexQuad : List Char → Nat → Prop
  | intro {a b c d : Char} {i j k l : Nat} (ha : HexDigit a i) (hb : HexDigit b j)
      (hc : HexDigit c k) (hd : HexDigit d l) : HexQuad [a, b, c, d] (((i * 16 + j) * 16 + k) * 16 + l)

/-- The texts of a character within a string. -/
inductive CharText : Char → List Char → Prop
  | bare {c : Char} (h : Bare c) : CharText c [c]
  | quote : CharText '"' ['\\', '"']
  | backslash : CharText '\\' ['\\', '\\']
  | slash : CharText '/' ['\\', '/']
  | backspace : CharText '\x08' ['\\', 'b']
  | formFeed : CharText '\x0c' ['\\', 'f']
  | lineFeed : CharText '\n' ['\\', 'n']
  | carriageReturn : CharText '\r' ['\\', 'r']
  | tab : CharText '\t' ['\\', 't']
  /-- The number of a character that is no surrogate. -/
  | unicode {quad : List Char} {n : Nat} (hquad : HexQuad quad n) (h : ¬ (0xD800 ≤ n ∧ n ≤ 0xDFFF)) :
      CharText (Char.ofNat n) ('\\' :: 'u' :: quad)
  /-- Two surrogates for a character above U+FFFF. -/
  | pair {quad quad' : List Char} {high low : Nat} (hquad : HexQuad quad high)
      (hquad' : HexQuad quad' low) (hhigh : 0xD800 ≤ high ∧ high ≤ 0xDBFF)
      (hlow : 0xDC00 ≤ low ∧ low ≤ 0xDFFF) :
      CharText (Char.ofNat (0x10000 + (high - 0xD800) * 0x400 + (low - 0xDC00)))
        ('\\' :: 'u' :: (quad ++ '\\' :: 'u' :: quad'))

/-- The texts of a string: texts of its characters between quotes. -/
def StringText (s : String) (text : List Char) : Prop :=
  ∃ pieces, List.Forall₂ CharText s.toList pieces ∧ text = '"' :: (pieces.flatten ++ ['"'])

/-- A string of bare characters is spelled by these. -/
theorem stringText_of_bare {s : String} {cs : List Char} (hs : s.toList = cs) (h : ∀ c ∈ cs, Bare c) :
    StringText s ('"' :: (cs ++ ['"'])) := by
  refine ⟨cs.map fun c => [c], ?_, ?_⟩
  · rw [hs, List.forall₂_map_right_iff, List.forall₂_same]
    exact fun c hc => .bare (h c hc)
  · rw [← List.flatMap_def, List.flatMap_singleton']

/-- A key and its colon, with white space around the key. -/
def KeyText (key : String) (text : List Char) : Prop :=
  ∃ w t w', Spaces w ∧ StringText key t ∧ Spaces w' ∧ text = w ++ (t ++ (w' ++ [':']))

/-! ## Values -/

mutual

/-- The text spells the value. -/
inductive Spells : Value → List Char → Prop
  | null : Spells .null ['n', 'u', 'l', 'l']
  | true : Spells (.boolean true) ['t', 'r', 'u', 'e']
  | false : Spells (.boolean false) ['f', 'a', 'l', 's', 'e']
  | number {t : List Char} (h : NumberText t) : Spells (.number t) t
  | string {s : String} {t : List Char} (h : StringText s t) : Spells (.string s) t
  | emptyList {w : List Char} (hw : Spaces w) : Spells (.list []) ('[' :: (w ++ [']']))
  | list {vs : List Value} {t : List Char} (h : SpellsItems vs t) :
      Spells (.list vs) ('[' :: (t ++ [']']))
  | emptyObject {w : List Char} (hw : Spaces w) : Spells (.object []) ('\x7b' :: (w ++ ['\x7d']))
  | object {ms : List (String × Value)} {t : List Char} (h : SpellsMembers ms t) :
      Spells (.object ms) ('\x7b' :: (t ++ ['\x7d']))

/-- The text spells the value, with white space around it. -/
inductive SpellsSpaced : Value → List Char → Prop
  | intro {v : Value} {w t w' : List Char} (hw : Spaces w) (h : Spells v t) (hw' : Spaces w') :
      SpellsSpaced v (w ++ (t ++ w'))

/-- The text spells the items of a list, one at least, with commas between them. -/
inductive SpellsItems : List Value → List Char → Prop
  | last {v : Value} {t : List Char} (h : SpellsSpaced v t) : SpellsItems [v] t
  | more {v : Value} {vs : List Value} {t u : List Char} (h : SpellsSpaced v t)
      (hrest : SpellsItems vs u) : SpellsItems (v :: vs) (t ++ ',' :: u)

/-- The text spells the members of an object, one at least, with commas between them. -/
inductive SpellsMembers : List (String × Value) → List Char → Prop
  | last {key : String} {v : Value} {k t : List Char} (hkey : KeyText key k) (h : SpellsSpaced v t) :
      SpellsMembers [(key, v)] (k ++ t)
  | more {key : String} {v : Value} {ms : List (String × Value)} {k t u : List Char}
      (hkey : KeyText key k) (h : SpellsSpaced v t) (hrest : SpellsMembers ms u) :
      SpellsMembers ((key, v) :: ms) (k ++ (t ++ ',' :: u))

end

/-! ## How a value begins, and what may follow it -/

/-- The characters with which the texts of a value begin. -/
def Value.Head : Value → Char → Prop
  | .null, c => c = 'n'
  | .boolean b, c => c = if b then 't' else 'f'
  | .number _, c => c = '-' ∨ '0' ≤ c ∧ c ≤ '9'
  | .string _, c => c = '"'
  | .list _, c => c = '['
  | .object _, c => c = '\x7b'

theorem Whole.head {cs : List Char} (h : Whole cs) : ∃ c t, cs = c :: t ∧ '0' ≤ c ∧ c ≤ '9' := by
  rcases h with rfl | ⟨⟨hne, hall⟩, -⟩
  · exact ⟨'0', [], rfl, by decide, by decide⟩
  · obtain ⟨c, t, rfl⟩ := List.exists_cons_of_ne_nil hne
    exact ⟨c, t, rfl, hall c (by simp)⟩

theorem Spells.head {v : Value} {t : List Char} (h : Spells v t) :
    ∃ c rest, t = c :: rest ∧ v.Head c := by
  cases h with
  | null => exact ⟨_, _, rfl, rfl⟩
  | true => exact ⟨_, _, rfl, rfl⟩
  | false => exact ⟨_, _, rfl, rfl⟩
  | number h =>
    obtain ⟨sign, whole, fraction, exponent, hsign, hwhole, -, -, rfl⟩ := h
    rcases hsign with rfl | rfl
    · obtain ⟨c, t, rfl, hc⟩ := hwhole.head
      exact ⟨c, _, rfl, Or.inr hc⟩
    · exact ⟨'-', _, rfl, Or.inl rfl⟩
  | string h =>
    obtain ⟨pieces, -, rfl⟩ := h
    exact ⟨_, _, rfl, rfl⟩
  | emptyList => exact ⟨_, _, rfl, rfl⟩
  | list => exact ⟨_, _, rfl, rfl⟩
  | emptyObject => exact ⟨_, _, rfl, rfl⟩
  | object => exact ⟨_, _, rfl, rfl⟩

/-- No value begins with white space or the mark that ends a list or an object. -/
theorem Value.Head.plain {v : Value} {c : Char} (h : v.Head c) :
    isSpace c = false ∧ c ≠ ']' ∧ c ≠ '\x7d' := by
  cases v with
  | number t =>
    rcases h with rfl | ⟨hlow, hhigh⟩
    · decide
    · have hc : isSpace c = false := by
        simp only [isSpace, Bool.or_eq_false_iff, decide_eq_false_iff_not]
        refine ⟨⟨⟨?_, ?_⟩, ?_⟩, ?_⟩ <;> rintro rfl <;> revert hlow <;> decide
      refine ⟨hc, ?_, ?_⟩ <;> rintro rfl <;> revert hhigh <;> decide
  | boolean b => cases b <;> cases h <;> decide
  | null => cases h; decide
  | string s => cases h; decide
  | list vs => cases h; decide
  | object ms => cases h; decide

/-- The first character tells the kinds of values that are kept. -/
theorem Value.Head.kind {v : Value} {c : Char} (h : v.Head c) :
    (c = 'n' → v = .null) ∧ (c = '"' → ∃ s, v = .string s) ∧ (c = '[' → ∃ vs, v = .list vs) ∧
      (c = '\x7b' → ∃ ms, v = .object ms) := by
  cases v with
  | number t =>
    have hc : c = '-' ∨ '0' ≤ c ∧ c ≤ '9' := h
    refine ⟨?_, ?_, ?_, ?_⟩ <;> rintro rfl <;> exact absurd hc (by decide)
  | boolean b => cases b <;> cases h <;> simp
  | null => cases h; simp
  | string s => cases h; simp
  | list vs => cases h; simp
  | object ms => cases h; simp

/-- Text before which a value has ended: no character follows that could belong to a number. -/
def EndsValue (rest : List Char) : Prop :=
  ∀ c ∈ rest.head?, c.isDigit = false ∧ c ≠ '.' ∧ c ≠ 'e' ∧ c ≠ 'E'

theorem endsValue_cons {c : Char} (h : c = ',' ∨ c = ']' ∨ c = '\x7d') (rest : List Char) :
    EndsValue (c :: rest) := by
  intro d hd
  obtain rfl := Option.some.inj hd
  rcases h with rfl | rfl | rfl <;> decide

theorem EndsValue.spaces_append {w rest : List Char} (h : EndsValue rest) (hw : Spaces w) :
    EndsValue (w ++ rest) := by
  cases w with
  | nil => exact h
  | cons c w =>
    intro d hd
    obtain rfl := Option.some.inj hd
    have hc := hw c (by simp)
    simp only [isSpace, Bool.or_eq_true, decide_eq_true_eq] at hc
    rcases hc with ((rfl | rfl) | rfl) | rfl <;> decide

end RouteBook.Json
