import RouteBook.Proofs.Text.Runs
import RouteBook.Toml.Document

/-!
# Lines of TOML

What lines say, said without a reader: `Spells stmts text` relates statements to each of the texts that
spell them, with any blanks, comments and empty lines between. Keys have one name, bare or quoted. Strings
are spelled between quotes by any mix of bare characters and escapes. A reader of lines finds these
statements (`statements?_of_spells`).
-/

namespace RouteBook.Toml

/-! ## Strings -/

/-- The texts of a character within a string. -/
inductive CharText : Char → List Char → Prop
  | bare {c : Char} (h : isTextChar c = true) (hquote : c ≠ '"') (hslash : c ≠ '\\') : CharText c [c]
  | quote : CharText '"' ['\\', '"']
  | backslash : CharText '\\' ['\\', '\\']
  | backspace : CharText '\x08' ['\\', 'b']
  | tab : CharText '\t' ['\\', 't']
  | lineFeed : CharText '\n' ['\\', 'n']
  | formFeed : CharText '\x0c' ['\\', 'f']
  | carriageReturn : CharText '\r' ['\\', 'r']
  /-- The number of the character, with four hex digits. -/
  | four {c : Char} {ds : List Char} (hlength : ds.length = 4) (hds : ∀ d ∈ ds, isHexDigit d = true)
      (h : numberOf 16 ds = c.toNat) : CharText c ('\\' :: 'u' :: ds)
  /-- The number of the character, with eight hex digits. -/
  | eight {c : Char} {ds : List Char} (hlength : ds.length = 8) (hds : ∀ d ∈ ds, isHexDigit d = true)
      (h : numberOf 16 ds = c.toNat) : CharText c ('\\' :: 'U' :: ds)

/-- The texts of a string: texts of its characters between quotes. -/
def StringText (s : String) (text : List Char) : Prop :=
  ∃ pieces, List.Forall₂ CharText s.toList pieces ∧ text = '"' :: (pieces.flatten ++ ['"'])

/-- A string of bare characters is spelled by these. -/
theorem stringText_of_bare {s : String}
    (h : ∀ c ∈ s.toList, isTextChar c = true ∧ c ≠ '"' ∧ c ≠ '\\') :
    StringText s ('"' :: (s.toList ++ ['"'])) := by
  refine ⟨s.toList.map fun c => [c], ?_, ?_⟩
  · rw [List.forall₂_map_right_iff, List.forall₂_same]
    exact fun c hc => .bare (h c hc).1 (h c hc).2.1 (h c hc).2.2
  · rw [← List.flatMap_def, List.flatMap_singleton']

theorem hexChar?_of_digits {c : Char} {ds : List Char} (hds : ∀ d ∈ ds, isHexDigit d = true)
    (h : numberOf 16 ds = c.toNat) (rest : List Char) :
    hexChar? ds.length (ds ++ rest) = some (c, rest) := by
  have hall : ds.all isHexDigit = true := List.all_eq_true.2 hds
  have hvalid : c.toNat.isValidChar := c.valid
  simp [hexChar?, hall, h, hvalid]

/-- An escape, as it is read after its backslash. -/
theorem CharText.escape {c : Char} {text : List Char} (h : CharText c text) :
    (text = [c] ∧ isTextChar c = true ∧ c ≠ '"' ∧ c ≠ '\\') ∨
      ∃ body, text = '\\' :: body ∧ ∀ rest, escape? (body ++ rest) = some (c, rest) := by
  cases h with
  | bare h hquote hslash => exact Or.inl ⟨rfl, h, hquote, hslash⟩
  | @four _ ds hlength hds h =>
    refine Or.inr ⟨_, rfl, fun rest => ?_⟩
    have hread := hexChar?_of_digits hds h rest
    rw [hlength] at hread
    simpa [escape?] using hread
  | @eight _ ds hlength hds h =>
    refine Or.inr ⟨_, rfl, fun rest => ?_⟩
    have hread := hexChar?_of_digits hds h rest
    rw [hlength] at hread
    simpa [escape?] using hread
  | quote => exact Or.inr ⟨_, rfl, fun _ => rfl⟩
  | backslash => exact Or.inr ⟨_, rfl, fun _ => rfl⟩
  | backspace => exact Or.inr ⟨_, rfl, fun _ => rfl⟩
  | tab => exact Or.inr ⟨_, rfl, fun _ => rfl⟩
  | lineFeed => exact Or.inr ⟨_, rfl, fun _ => rfl⟩
  | formFeed => exact Or.inr ⟨_, rfl, fun _ => rfl⟩
  | carriageReturn => exact Or.inr ⟨_, rfl, fun _ => rfl⟩

theorem CharText.lineBody_append {c : Char} {text : List Char} (h : CharText c text) (fuel : Nat)
    (read rest : List Char) :
    lineBody '"' true (fuel + 1) read (text ++ rest) = lineBody '"' true fuel (c :: read) rest := by
  rcases h.escape with ⟨rfl, htext, hquote, hslash⟩ | ⟨body, rfl, hbody⟩
  · simp [lineBody, htext, hquote, hslash]
  · simp [lineBody, hbody]

theorem CharText.head {c : Char} {text : List Char} (h : CharText c text) :
    ∃ d rest, text = d :: rest ∧ d ≠ '"' := by
  rcases h.escape with ⟨rfl, _, hquote, _⟩ | ⟨body, rfl, _⟩
  · exact ⟨c, [], rfl, hquote⟩
  · exact ⟨'\\', body, rfl, by decide⟩

theorem CharText.ne_nil {c : Char} {text : List Char} (h : CharText c text) : text ≠ [] := by
  obtain ⟨d, rest, rfl, _⟩ := h.head
  simp

theorem lineBody_of_pieces {cs : List Char} {pieces : List (List Char)}
    (h : List.Forall₂ CharText cs pieces) {fuel : Nat} (hfuel : cs.length < fuel)
    (read rest : List Char) :
    lineBody '"' true fuel read (pieces.flatten ++ '"' :: rest) = some (read.reverse ++ cs, rest) := by
  induction h generalizing fuel read with
  | nil =>
    obtain ⟨fuel, rfl⟩ : ∃ k, fuel = k + 1 := Nat.exists_eq_add_one.2 hfuel
    simp [lineBody]
  | cons h _ ih =>
    obtain ⟨fuel, rfl⟩ : ∃ k, fuel = k + 1 := Nat.exists_eq_add_one.2 (by omega)
    rw [List.flatten_cons, List.append_assoc, h.lineBody_append, ih (by simpa using hfuel)]
    simp

section
variable {s : String} {text : List Char}

theorem StringText.lineString? (h : StringText s text) (rest : List Char) :
    lineString? (text ++ rest) = some (s, rest) := by
  obtain ⟨pieces, hpieces, rfl⟩ := h
  have hfuel : s.toList.length < (pieces.flatten ++ '"' :: rest).length + 1 := by
    have hlength := Text.length_le_flatten (fun _ _ => CharText.ne_nil) hpieces
    rw [List.length_append]
    omega
  have hbody := lineBody_of_pieces hpieces hfuel [] rest
  have htext : '"' :: (pieces.flatten ++ ['"']) ++ rest = '"' :: (pieces.flatten ++ '"' :: rest) := by
    simp
  rw [htext, Toml.lineString?, if_pos (Or.inl rfl), decide_eq_true rfl, hbody]
  simp

theorem StringText.string? (h : StringText s text) {rest : List Char} (hrest : rest.head? ≠ some '"') :
    string? (text ++ rest) = some (s, rest) := by
  have hline := h.lineString? rest
  obtain ⟨pieces, hpieces, rfl⟩ := h
  rw [← hline]
  unfold Toml.string?
  split
  · next e =>
    -- Three quotes cannot come together: the string would be empty, and a quote would follow.
    cases hpieces' : pieces with
    | nil =>
      simp [hpieces'] at e
      simp [e] at hrest
    | cons piece pieces' =>
      rw [hpieces'] at hpieces e
      cases hs : s.toList with
      | nil => simp [hs] at hpieces
      | cons c cs =>
        rw [hs, List.forall₂_cons] at hpieces
        obtain ⟨d, ds, rfl, hd⟩ := hpieces.1.head
        simp at e
        exact absurd e.1 hd
  · next e => simp at e
  · rfl

end

/-! ## Every string can be written -/

/-- Four hex digits of a number below 256. -/
def lowDigits (n : Nat) : List Char := ['0', '0', Nat.digitChar (n / 16), Nat.digitChar (n % 16)]

theorem digitChar_spec : ∀ n < 16, isHexDigit (Nat.digitChar n) = true ∧
    hexDigitValue (Nat.digitChar n) = n := by
  decide

theorem lowDigits_spec {n : Nat} (h : n < 256) : (∀ d ∈ lowDigits n, isHexDigit d = true) ∧
    numberOf 16 (lowDigits n) = n := by
  obtain ⟨hhigh, hhigh'⟩ := digitChar_spec (n / 16) (by omega)
  obtain ⟨hlow, hlow'⟩ := digitChar_spec (n % 16) (by omega)
  have hzero : isHexDigit '0' = true ∧ hexDigitValue '0' = 0 := by decide
  constructor
  · simp [lowDigits, hzero, hhigh, hlow]
  · simp only [numberOf, lowDigits, List.foldl_cons, List.foldl_nil, hzero, hhigh', hlow']
    omega

theorem exists_charText (c : Char) : ∃ text, CharText c text := by
  by_cases hbare : isTextChar c = true ∧ c ≠ '"' ∧ c ≠ '\\'
  · exact ⟨[c], .bare hbare.1 hbare.2.1 hbare.2.2⟩
  · have hlow : c.toNat < 256 := by
      by_contra hhigh
      apply hbare
      refine ⟨?_, ?_, ?_⟩
      · unfold isTextChar
        simp only [Bool.or_eq_true, Bool.and_eq_true, decide_eq_true_eq]
        omega
      · rintro rfl
        exact hhigh (by decide)
      · rintro rfl
        exact hhigh (by decide)
    obtain ⟨hds, hnumber⟩ := lowDigits_spec hlow
    exact ⟨_, .four rfl hds hnumber⟩

theorem exists_stringText (s : String) : ∃ text, StringText s text := by
  have hpieces : ∀ cs : List Char, ∃ pieces, List.Forall₂ CharText cs pieces := by
    intro cs
    induction cs with
    | nil => exact ⟨[], .nil⟩
    | cons c cs ih =>
      obtain ⟨text, hc⟩ := exists_charText c
      obtain ⟨pieces, hcs⟩ := ih
      exact ⟨text :: pieces, .cons hc hcs⟩
  obtain ⟨pieces, h⟩ := hpieces s.toList
  exact ⟨_, pieces, h, rfl⟩

/-! ## Blanks and ends of lines -/

/-- Nothing but blanks. -/
def Blanks (w : List Char) : Prop := ∀ c ∈ w, isBlank c = true

theorem blanks_nil : Blanks [] := by simp [Blanks]

/-- A comment, or nothing. -/
def Comment (cs : List Char) : Prop :=
  cs = [] ∨ ∃ body, (∀ c ∈ body, isTextChar c = true) ∧ cs = '#' :: body

/-- A line break. -/
def Break (cs : List Char) : Prop := cs = ['\n'] ∨ cs = ['\r', '\n']

/-- What stands behind a statement, with the lines after it. The last line need have no break. -/
inductive LineEnd : List Char → List Char → Prop
  | broken {w comment newline : List Char} (hw : Blanks w) (hc : Comment comment)
      (hn : Break newline) (rest : List Char) : LineEnd (w ++ (comment ++ (newline ++ rest))) rest
  | last {w comment : List Char} (hw : Blanks w) (hc : Comment comment) : LineEnd (w ++ comment) []

/-- A text that can stand behind a value: it ends the line, as far as its first character tells. -/
def EndsValue (rest : List Char) : Prop :=
  ∀ c ∈ rest.head?, isBlank c = true ∨ c = '#' ∨ c = '\n' ∨ c = '\r'

theorem skipBlanks_append {w : List Char} (hw : Blanks w) (rest : List Char) :
    skipBlanks (w ++ rest) = skipBlanks rest :=
  List.dropWhile_append_of_pos hw

theorem skipBlanks_cons {c : Char} (hc : isBlank c = false) (rest : List Char) :
    skipBlanks (c :: rest) = c :: rest := by
  simp [skipBlanks, hc]

theorem skipBlanks_skipBlanks (cs : List Char) : skipBlanks (skipBlanks cs) = skipBlanks cs := by
  induction cs with
  | nil => rfl
  | cons c cs ih =>
    by_cases hc : isBlank c = true
    · simpa [skipBlanks, hc] using ih
    · simp [skipBlanks, hc]

theorem lineEnd?_skipBlanks (cs : List Char) : lineEnd? (skipBlanks cs) = lineEnd? cs := by
  rw [lineEnd?, lineEnd?, skipBlanks_skipBlanks]

theorem lineEnd?_broken {comment newline : List Char} (hc : Comment comment) (hn : Break newline)
    (rest : List Char) : lineEnd? (comment ++ (newline ++ rest)) = some rest := by
  rcases hc with rfl | ⟨body, hbody, rfl⟩
  · rcases hn with rfl | rfl <;> rfl
  · have hhead : ∀ c ∈ (newline ++ rest).head?, isTextChar c = false := by
      intro c hc
      rcases hn with rfl | rfl <;> cases hc <;> rfl
    have hdrop := Text.dropWhile_append_of_head hbody hhead
    rw [lineEnd?, List.cons_append, skipBlanks_cons rfl]
    simp only [hdrop]
    rcases hn with rfl | rfl <;> rfl

theorem lineEnd?_last {comment : List Char} (hc : Comment comment) : lineEnd? comment = some [] := by
  rcases hc with rfl | ⟨body, hbody, rfl⟩
  · rfl
  · have hdrop : body.dropWhile isTextChar = [] := List.dropWhile_eq_nil_iff.2 hbody
    rw [lineEnd?, skipBlanks_cons rfl]
    simp only [hdrop]

theorem LineEnd.lineEnd? {text rest : List Char} (h : LineEnd text rest) :
    lineEnd? text = some rest := by
  cases h with
  | broken hw hc hn rest =>
    rw [← lineEnd?_skipBlanks, skipBlanks_append hw, lineEnd?_skipBlanks, lineEnd?_broken hc hn]
  | last hw hc =>
    rw [← lineEnd?_skipBlanks, skipBlanks_append hw, lineEnd?_skipBlanks, lineEnd?_last hc]

theorem endsValue_of_head {w after : List Char} (hw : Blanks w)
    (h : ∀ c ∈ after.head?, c = '#' ∨ c = '\n' ∨ c = '\r') : EndsValue (w ++ after) := by
  intro c hc
  cases w with
  | nil => exact Or.inr (h c hc)
  | cons d w =>
    cases hc
    exact Or.inl (hw c (by simp))

theorem Comment.head {comment after : List Char} (hc : Comment comment)
    (h : ∀ c ∈ after.head?, c = '#' ∨ c = '\n' ∨ c = '\r') :
    ∀ c ∈ (comment ++ after).head?, c = '#' ∨ c = '\n' ∨ c = '\r' := by
  rcases hc with rfl | ⟨body, _, rfl⟩
  · exact h
  · intro c hc
    cases hc
    exact Or.inl rfl

theorem LineEnd.endsValue {text rest : List Char} (h : LineEnd text rest) : EndsValue text := by
  cases h with
  | broken hw hc hn rest =>
    refine endsValue_of_head hw (hc.head ?_)
    intro c hc
    rcases hn with rfl | rfl <;> cases hc <;> simp
  | @last w comment hw hc =>
    rw [← List.append_nil comment]
    exact endsValue_of_head hw (hc.head (by simp))

/-! ## Keys and values -/

/-- The texts of a key of one name: bare, or a string. -/
inductive KeyText : String → List Char → Prop
  | bare {key : String} (hne : key ≠ "") (h : ∀ c ∈ key.toList, isKeyChar c = true) :
      KeyText key key.toList
  | quoted {key : String} {text : List Char} (h : StringText key text) : KeyText key text

/-- The texts of a value. Of values that are neither strings between quotes nor truth values, it only
matters that they are read as what they are, whatever ends their line. -/
inductive ValueText : Item → List Char → Prop
  | string {s : String} {text : List Char} (h : StringText s text) : ValueText (.string s) text
  | boolean (b : Bool) : ValueText (.boolean b) (if b then "true" else "false").toList
  | other {item : Item} {c : Char} {cs : List Char} (hc : isBlank c = false)
      (h : ∀ rest, EndsValue rest → value? nestingLimit (c :: cs ++ rest) = some (item, rest)) :
      ValueText item (c :: cs)

theorem KeyText.head {key : String} {text : List Char} (h : KeyText key text) :
    ∃ c rest, text = c :: rest ∧ (isKeyChar c = true ∨ c = '"') := by
  cases h with
  | bare hne h =>
    have hchars : key.toList ≠ [] := by simpa using hne
    obtain ⟨c, cs, hcs⟩ := List.exists_cons_of_ne_nil hchars
    exact ⟨c, cs, hcs, Or.inl (h c (by simp [hcs]))⟩
  | quoted h =>
    obtain ⟨pieces, _, rfl⟩ := h
    exact ⟨'"', _, rfl, Or.inr rfl⟩

theorem not_blank_of_keyHead {c : Char} (h : isKeyChar c = true ∨ c = '"') : isBlank c = false := by
  rcases h with h | rfl
  · cases hb : isBlank c with
    | false => rfl
    | true =>
      simp only [isBlank, Bool.or_eq_true, decide_eq_true_eq] at hb
      rcases hb with rfl | rfl <;> cases h
  · rfl

theorem KeyText.keyName? {key : String} {text : List Char} (h : KeyText key text) {rest : List Char}
    (hrest : ∀ c ∈ rest.head?, isKeyChar c = false) : keyName? (text ++ rest) = some (key, rest) := by
  cases h with
  | bare hne h =>
    have hchars : key.toList ≠ [] := by simpa using hne
    obtain ⟨c, cs, hcs⟩ := List.exists_cons_of_ne_nil hchars
    unfold Toml.keyName?
    rw [Text.takeWhile_append_of_head h hrest, Text.dropWhile_append_of_head h hrest, hcs]
    simp only [← hcs, String.ofList_toList]
  | quoted h =>
    have hline := h.lineString? rest
    obtain ⟨pieces, _, rfl⟩ := h
    unfold Toml.keyName?
    rw [← hline]
    rfl

/-- A key with its blanks, in front of an equals sign or a closing bracket. -/
theorem key?_of_text {key : String} {text w w' : List Char} (h : KeyText key text) (hw : Blanks w)
    (hw' : Blanks w') {m : Char} (hm : m = '=' ∨ m = ']') (rest : List Char) :
    key? nestingLimit (w ++ (text ++ (w' ++ m :: rest))) = some ([], key, m :: rest) := by
  have hfront : skipBlanks (w ++ (text ++ (w' ++ m :: rest))) = text ++ (w' ++ m :: rest) := by
    obtain ⟨c, cs, rfl, hc⟩ := h.head
    rw [skipBlanks_append hw]
    exact skipBlanks_cons (not_blank_of_keyHead hc) _
  have hname : keyName? (text ++ (w' ++ m :: rest)) = some (key, w' ++ m :: rest) := by
    apply h.keyName?
    intro c hc
    cases w' with
    | nil => rcases hm with rfl | rfl <;> cases hc <;> rfl
    | cons d w' =>
      obtain rfl : d = c := Option.some.inj hc
      have hd := hw' d (by simp)
      by_contra hk
      rw [not_blank_of_keyHead (Or.inl (by simpa using hk))] at hd
      cases hd
  have hback : skipBlanks (w' ++ m :: rest) = m :: rest := by
    rw [skipBlanks_append hw']
    rcases hm with rfl | rfl <;> exact skipBlanks_cons rfl rest
  rw [nestingLimit, key?, hfront, hname]
  rcases hm with rfl | rfl <;> simp [hback]

theorem ValueText.head {item : Item} {text : List Char} (h : ValueText item text) :
    ∃ c rest, text = c :: rest ∧ isBlank c = false := by
  cases h with
  | string h =>
    obtain ⟨pieces, _, rfl⟩ := h
    exact ⟨'"', _, rfl, rfl⟩
  | boolean b => cases b <;> exact ⟨_, _, rfl, rfl⟩
  | other hc _ => exact ⟨_, _, rfl, hc⟩

theorem ValueText.value? {item : Item} {text : List Char} (h : ValueText item text) {rest : List Char}
    (hrest : EndsValue rest) : value? nestingLimit (text ++ rest) = some (item, rest) := by
  cases h with
  | @string s _ h =>
    have hquote : rest.head? ≠ some '"' := by
      intro hq
      rcases hrest '"' hq with hb | hb | hb | hb <;> revert hb <;> decide
    have hstring := h.string? hquote
    obtain ⟨pieces, _, rfl⟩ := h
    rw [List.cons_append] at hstring ⊢
    simp only [Toml.value?, hstring, Option.map_some]
  | boolean b => cases b <;> rfl
  | other _ h => exact h rest hrest

/-! ## Statements -/

/-- The texts of a statement about a key of one name. -/
inductive StatementText : Statement → List Char → Prop
  | assignment {key : String} {item : Item} {keyText valueText w w' : List Char}
      (hkey : KeyText key keyText) (hw : Blanks w) (hw' : Blanks w') (hvalue : ValueText item valueText) :
      StatementText (.assignment [] key item) (keyText ++ (w ++ '=' :: (w' ++ valueText)))
  | header {key : String} {keyText w w' : List Char} (hkey : KeyText key keyText) (hw : Blanks w)
      (hw' : Blanks w') : StatementText (.header [] key) ('[' :: (w ++ (keyText ++ (w' ++ [']']))))

/-- The texts that spell statements, a line for each. -/
inductive Spells : List Statement → List Char → Prop
  | nil {w comment : List Char} (hw : Blanks w) (hc : Comment comment) : Spells [] (w ++ comment)
  /-- A line that says nothing. -/
  | idle {stmts : List Statement} {w comment newline rest : List Char} (hw : Blanks w)
      (hc : Comment comment) (hn : Break newline) (h : Spells stmts rest) :
      Spells stmts (w ++ (comment ++ (newline ++ rest)))
  | line {stmt : Statement} {stmts : List Statement} {w text behind rest : List Char} (hw : Blanks w)
      (ht : StatementText stmt text) (he : LineEnd behind rest) (h : Spells stmts rest) :
      Spells (stmt :: stmts) (w ++ (text ++ behind))

/-! ## Writing -/

/-- An item that can be written. -/
def Writable (item : Item) : Prop := ∃ text, ValueText item text

theorem exists_keyText (key : String) : ∃ text, KeyText key text := by
  obtain ⟨text, h⟩ := exists_stringText key
  exact ⟨text, .quoted h⟩

theorem exists_spells {stmts : List Statement}
    (h : ∀ stmt ∈ stmts, ∃ text, StatementText stmt text) : ∃ text, Spells stmts text := by
  induction stmts with
  | nil => exact ⟨_, .nil blanks_nil (Or.inl rfl)⟩
  | cons stmt stmts ih =>
    obtain ⟨text, ht⟩ := h stmt (by simp)
    obtain ⟨rest, hrest⟩ := ih fun stmt hs => h stmt (by simp [hs])
    exact ⟨_, .line blanks_nil ht (.broken blanks_nil (Or.inl rfl) (Or.inl rfl) rest) hrest⟩

theorem exists_assignment (key : String) {item : Item} (h : Writable item) :
    ∃ text, StatementText (.assignment [] key item) text := by
  obtain ⟨keyText, hkey⟩ := exists_keyText key
  obtain ⟨valueText, hvalue⟩ := h
  exact ⟨_, .assignment hkey blanks_nil blanks_nil hvalue⟩

/-! ## Reading -/

section
variable {stmt : Statement} {stmts : List Statement} {text behind rest : List Char}

theorem StatementText.head (h : StatementText stmt text) :
    ∃ c cs, text = c :: cs ∧ (isKeyChar c = true ∨ c = '"' ∨ c = '[') := by
  cases h with
  | assignment hkey _ _ _ =>
    obtain ⟨c, cs, rfl, hc⟩ := hkey.head
    refine ⟨c, _, rfl, ?_⟩
    rcases hc with hc | hc
    · exact Or.inl hc
    · exact Or.inr (Or.inl hc)
  | header _ _ _ => exact ⟨'[', _, rfl, Or.inr (Or.inr rfl)⟩

theorem statement?_of_keyHead {c : Char} (hc : isKeyChar c = true ∨ c = '"') (cs : List Char) :
    statement? (c :: cs) = (assignment? (value? nestingLimit) (c :: cs)).map
      fun (way, key, item, rest) => (.assignment way key item, rest) := by
  have hbracket : c ≠ '[' := by
    rintro rfl
    revert hc
    decide
  unfold statement?
  split
  · next e => exact absurd (List.cons.inj e).1 hbracket
  · next e => exact absurd (List.cons.inj e).1 hbracket
  · cases assignment? (value? nestingLimit) (c :: cs) <;> rfl

theorem header?_of_text {key : String} {keyText w w' : List Char} (hkey : KeyText key keyText)
    (hw : Blanks w) (hw' : Blanks w') (behind : List Char) :
    statement? ('[' :: (w ++ (keyText ++ (w' ++ [']']))) ++ behind) =
      some (.header [] key, behind) := by
  have hread := key?_of_text hkey hw hw' (Or.inr rfl) behind
  have hheader : header? (w ++ (keyText ++ (w' ++ ']' :: behind))) = some (.header [] key, behind) := by
    simp [header?, hread, mark?]
  have hbracket : (w ++ (keyText ++ (w' ++ ']' :: behind))).head? ≠ some '[' := by
    intro e
    cases w with
    | nil =>
      obtain ⟨c, cs, rfl, hc⟩ := hkey.head
      obtain rfl : c = '[' := by simpa using e
      revert hc
      decide
    | cons d w =>
      obtain rfl : d = '[' := by simpa using e
      have hd := hw '[' (by simp)
      cases hd
  have htext : '[' :: (w ++ (keyText ++ (w' ++ [']']))) ++ behind =
      '[' :: (w ++ (keyText ++ (w' ++ ']' :: behind))) := by simp
  rw [htext, statement?.eq_def]
  split
  · next e =>
    rw [(List.cons.inj e).2] at hbracket
    exact absurd rfl hbracket
  · next e =>
    cases e
    exact hheader
  · next e => exact absurd rfl (e _)

/-- A statement is read, and then the end of its line. -/
theorem StatementText.statement? (h : StatementText stmt text) (he : LineEnd behind rest) :
    ∃ after, statement? (text ++ behind) = some (stmt, after) ∧ lineEnd? after = some rest := by
  cases h with
  | header hkey hw hw' => exact ⟨behind, header?_of_text hkey hw hw' behind, he.lineEnd?⟩
  | @assignment key item keyText valueText w w' hkey hw hw' hvalue =>
    refine ⟨skipBlanks behind, ?_, by rw [lineEnd?_skipBlanks, he.lineEnd?]⟩
    have hread := key?_of_text hkey blanks_nil hw (Or.inl rfl)
      (w' ++ (valueText ++ behind))
    have hfront : skipBlanks (w' ++ (valueText ++ behind)) = valueText ++ behind := by
      obtain ⟨c, cs, rfl, hc⟩ := hvalue.head
      rw [skipBlanks_append hw']
      exact skipBlanks_cons hc _
    have hassignment : assignment? (value? nestingLimit)
        (keyText ++ (w ++ '=' :: (w' ++ (valueText ++ behind)))) =
          some ([], key, item, skipBlanks behind) := by
      rw [List.nil_append] at hread
      simp [assignment?, hread, mark?, hfront, hvalue.value? he.endsValue]
    have htext : keyText ++ (w ++ '=' :: (w' ++ valueText)) ++ behind =
        keyText ++ (w ++ '=' :: (w' ++ (valueText ++ behind))) := by simp
    obtain ⟨c, cs, rfl, hc⟩ := hkey.head
    rw [htext, List.cons_append, statement?_of_keyHead hc]
    rw [List.cons_append] at hassignment
    rw [hassignment]
    rfl

theorem LineEnd.length_le (h : LineEnd behind rest) : rest.length ≤ behind.length := by
  cases h with
  | broken _ _ _ rest =>
    simp only [List.length_append]
    omega
  | last _ _ => simp

/-- A line that starts with a comment or a break says nothing. -/
theorem statements?_idle {c : Char} {cs : List Char} (hc : c = '#' ∨ c = '\n' ∨ c = '\r')
    (h : skipBlanks text = c :: cs) (hend : lineEnd? (c :: cs) = some rest) (fuel : Nat) :
    statements? (fuel + 1) text = statements? fuel rest := by
  rw [statements?, h]
  simp only
  rw [if_pos hc, hend]
  rfl

theorem statements?_line {c : Char} {cs : List Char} (hc : ¬ (c = '#' ∨ c = '\n' ∨ c = '\r'))
    (h : skipBlanks text = c :: cs) {after : List Char} (hs : statement? (c :: cs) = some (stmt, after))
    (hend : lineEnd? after = some rest) (fuel : Nat) :
    statements? (fuel + 1) text = (statements? fuel rest).map (stmt :: ·) := by
  rw [statements?, h]
  simp only
  rw [if_neg hc, hs]
  simp only [bind, Option.bind, hend]
  cases statements? fuel rest <;> rfl

/-- **Lines**: the statements that a text spells are read off it. -/
theorem statements?_of_spells (h : Spells stmts text) {fuel : Nat} (hfuel : text.length < fuel) :
    statements? fuel text = some stmts := by
  induction h generalizing fuel with
  | @nil w comment hw hc =>
    obtain ⟨fuel, rfl⟩ : ∃ k, fuel = k + 1 := Nat.exists_eq_add_one.2 (by omega)
    rcases hc with rfl | ⟨body, hbody, rfl⟩
    · rw [statements?, skipBlanks_append hw]
      rfl
    · have hskip : skipBlanks (w ++ '#' :: body) = '#' :: body := by
        rw [skipBlanks_append hw, skipBlanks_cons rfl]
      have hend := lineEnd?_last (Or.inr ⟨body, hbody, rfl⟩)
      rw [statements?_idle (Or.inl rfl) hskip hend]
      obtain ⟨fuel, rfl⟩ : ∃ k, fuel = k + 1 := by
        rw [List.length_append, List.length_cons] at hfuel
        exact Nat.exists_eq_add_one.2 (by omega)
      rfl
  | @idle stmts w comment newline rest hw hc hn h ih =>
    obtain ⟨fuel, rfl⟩ : ∃ k, fuel = k + 1 := Nat.exists_eq_add_one.2 (by omega)
    have hend := lineEnd?_broken hc hn rest
    have hpos : 0 < newline.length := by rcases hn with rfl | rfl <;> simp
    have hrest : rest.length < fuel := by
      simp only [List.length_append] at hfuel
      omega
    obtain ⟨c, cs, hcs, hmark⟩ : ∃ c cs, comment ++ (newline ++ rest) = c :: cs ∧
        (c = '#' ∨ c = '\n' ∨ c = '\r') := by
      rcases hc with rfl | ⟨body, _, rfl⟩
      · rcases hn with rfl | rfl <;> exact ⟨_, _, rfl, by simp⟩
      · exact ⟨_, _, rfl, Or.inl rfl⟩
    have hblank : isBlank c = false := by rcases hmark with rfl | rfl | rfl <;> rfl
    have hskip : skipBlanks (w ++ (comment ++ (newline ++ rest))) = c :: cs := by
      rw [skipBlanks_append hw, hcs, skipBlanks_cons hblank]
    rw [statements?_idle hmark hskip (hcs ▸ hend), ih hrest]
  | @line stmt stmts w text behind rest hw ht he h ih =>
    obtain ⟨fuel, rfl⟩ : ∃ k, fuel = k + 1 := Nat.exists_eq_add_one.2 (by omega)
    obtain ⟨after, hs, hend⟩ := ht.statement? he
    have hle := he.length_le
    obtain ⟨c, cs, rfl, hc⟩ := ht.head
    have hrest : rest.length < fuel := by
      simp only [List.length_append, List.length_cons] at hfuel
      omega
    have hblank : isBlank c = false := by
      rcases hc with hc | rfl | rfl
      · exact not_blank_of_keyHead (Or.inl hc)
      · rfl
      · rfl
    have hmark : ¬ (c = '#' ∨ c = '\n' ∨ c = '\r') := by
      rintro (rfl | rfl | rfl) <;> revert hc <;> decide
    have hskip : skipBlanks (w ++ (c :: cs ++ behind)) = c :: (cs ++ behind) := by
      rw [skipBlanks_append hw, List.cons_append, skipBlanks_cons hblank]
    rw [statements?_line hmark hskip hs hend, ih hrest]
    rfl

/-- Lines do not start with a byte order mark. -/
theorem Spells.head (h : Spells stmts text) : ∀ c ∈ text.head?, c ≠ '\uFEFF' := by
  have hblank : ∀ {w after : List Char}, Blanks w → (∀ c ∈ after.head?, c ≠ '\uFEFF') →
      ∀ c ∈ (w ++ after).head?, c ≠ '\uFEFF' := by
    intro w after hw hafter c hc
    cases w with
    | nil => exact hafter c hc
    | cons d w =>
      cases hc
      rintro rfl
      have hd := hw '\uFEFF' (by simp)
      cases hd
  have hcomment : ∀ {comment after : List Char}, Comment comment →
      (∀ c ∈ after.head?, c ≠ '\uFEFF') → ∀ c ∈ (comment ++ after).head?, c ≠ '\uFEFF' := by
    rintro comment after (rfl | ⟨body, _, rfl⟩) hafter c hc
    · exact hafter c hc
    · cases hc
      decide
  cases h with
  | @nil w comment hw hc =>
    rw [← List.append_nil comment]
    exact hblank hw (hcomment hc (by simp))
  | idle hw hc hn _ =>
    refine hblank hw (hcomment hc ?_)
    intro c hc
    rcases hn with rfl | rfl <;> cases hc <;> decide
  | line hw ht _ _ =>
    refine hblank hw ?_
    obtain ⟨d, cs, rfl, hd⟩ := ht.head
    intro c hc
    cases hc
    rintro rfl
    revert hd
    decide

/-- A document is built of the statements that its text spells. -/
theorem document?_of_spells {text : String} (h : Spells stmts text.toList) :
    document? text = build stmts := by
  have hread : statements? (text.toList.length + 1) text.toList = some stmts :=
    statements?_of_spells h (Nat.lt_succ_self _)
  have hhead := h.head
  unfold document?
  split
  · next cs e =>
    exact absurd rfl (hhead '\uFEFF' (by simp [e]))
  · simp only [hread]
    rfl

end

end RouteBook.Toml
