import RouteBook.Json.Layout
import RouteBook.Json.Lexeme
import RouteBook.Proofs.Text.Runs

/-!
# Strings are read as they were written

A string is read from texts of its characters, each of them bare or an escape (`string_of_pieces`),
whatever stands after its closing quote. Every character is read back from the way it is written, be
it bare, by one of the short escapes, or by its number (`stringBody_writeChar`), and so is the string
(`string_flatMap_writeChar`).
-/

namespace RouteBook.Json

/-! ## White space -/

/-- White space only, or nothing. -/
def Spaces (cs : List Char) : Prop := ∀ c ∈ cs, isSpace c = true

theorem spaces_nil : Spaces [] := by simp [Spaces]

theorem trim_cons {c : Char} (hc : isSpace c = false) (rest : List Char) :
    trim (c :: rest) = c :: rest := by
  simp [trim, hc]

theorem trim_spaces_append {w : List Char} (hw : Spaces w) (rest : List Char) :
    trim (w ++ rest) = trim rest := by
  rw [trim, List.dropWhile_append_of_pos hw]; rfl

theorem trim_spaces_cons {w : List Char} (hw : Spaces w) {c : Char} (hc : isSpace c = false)
    (rest : List Char) : trim (w ++ c :: rest) = c :: rest := by
  rw [trim_spaces_append hw, trim_cons hc]

theorem spaces_newline (layout : Layout) (level : Nat) : Spaces (layout.newline level) := by
  cases layout with
  | compact => exact spaces_nil
  | indented =>
    intro c hc
    simp only [Layout.newline, List.mem_cons, List.mem_replicate] at hc
    rcases hc with rfl | ⟨_, rfl⟩ <;> rfl

/-! ## Characters -/

theorem hexValue?_hexDigit : ∀ n < 16, hexValue? (hexDigit n) = some n := by decide

theorem hexEscape_hexDigit {n : Nat} (hn : n < 256) (rest : List Char) :
    hexEscape ('0' :: '0' :: hexDigit (n / 16) :: hexDigit (n % 16) :: rest) = .ok (n, rest) := by
  have hq : hexQuad? '0' '0' (hexDigit (n / 16)) (hexDigit (n % 16)) = some n := by
    have h0 : hexValue? '0' = some 0 := by decide
    have hh := hexValue?_hexDigit (n / 16) (by omega)
    have hl := hexValue?_hexDigit (n % 16) (Nat.mod_lt _ (by omega))
    simp only [hexQuad?, h0, hh, hl, Option.bind_eq_bind, Option.bind_some, Option.some.injEq]
    omega
  simp [hexEscape, hq]

/-- A control is read back from its number. -/
theorem unicodeEscape_hexDigit {c : Char} (hc : c.toNat < 0x20) (rest : List Char) :
    unicodeEscape ('0' :: '0' :: hexDigit (c.toNat / 16) :: hexDigit (c.toNat % 16) :: rest) =
      .ok (c, rest) := by
  have hlow : isLowSurrogate c.toNat = false := by simp [isLowSurrogate]; omega
  have hhigh : isHighSurrogate c.toNat = false := by simp [isHighSurrogate]; omega
  simp [unicodeEscape, hexEscape_hexDigit (show c.toNat < 256 by omega), bind, Except.bind, hlow, hhigh]

/-- A character that is written bare: no quote, no backslash, no control. -/
def Bare (c : Char) : Prop := c ≠ '"' ∧ c ≠ '\\' ∧ 0x20 ≤ c.toNat

instance (c : Char) : Decidable (Bare c) := inferInstanceAs (Decidable (_ ∧ _ ∧ _))

/-- A text from which a character is read within a string: itself, or an escape. -/
def ReadAs (c : Char) (text : List Char) : Prop :=
  (Bare c ∧ text = [c]) ∨
    ∃ e, text = '\\' :: e ∧ ∀ rest, escape unicodeEscape (e ++ rest) = .ok (c, rest)

theorem ReadAs.ne_nil {c : Char} {text : List Char} (h : ReadAs c text) : text ≠ [] := by
  rcases h with ⟨_, rfl⟩ | ⟨e, rfl, _⟩ <;> simp

theorem ReadAs.stringBody {c : Char} {text : List Char} (h : ReadAs c text) (fuel : Nat)
    (read rest : List Char) :
    stringBody unicodeEscape (fuel + 1) read (text ++ rest) =
      stringBody unicodeEscape fuel (c :: read) rest := by
  rcases h with ⟨⟨hquote, hslash, hc⟩, rfl⟩ | ⟨e, rfl, he⟩
  · have hc' : ¬ c.toNat < 0x20 := by omega
    rw [List.singleton_append, Json.stringBody, if_neg hquote, if_neg hslash, if_neg hc']
  · rw [List.cons_append, Json.stringBody, if_neg (by decide), if_pos rfl, he]; rfl

/-- A character is written bare, or as an escape from which it is read. -/
theorem writeChar_cases (c : Char) : ReadAs c (writeChar c) := by
  unfold writeChar
  split
  · exact Or.inr ⟨_, rfl, fun _ => rfl⟩
  · exact Or.inr ⟨_, rfl, fun _ => rfl⟩
  · exact Or.inr ⟨_, rfl, fun _ => rfl⟩
  · exact Or.inr ⟨_, rfl, fun _ => rfl⟩
  · exact Or.inr ⟨_, rfl, fun _ => rfl⟩
  · exact Or.inr ⟨_, rfl, fun _ => rfl⟩
  · exact Or.inr ⟨_, rfl, fun _ => rfl⟩
  · next hquote hslash _ _ _ _ _ =>
    split
    · next hc => exact Or.inr ⟨_, rfl, fun rest => unicodeEscape_hexDigit hc rest⟩
    · next hc => exact Or.inl ⟨⟨hquote, hslash, by omega⟩, rfl⟩

theorem stringBody_writeChar (c : Char) (fuel : Nat) (read rest : List Char) :
    stringBody unicodeEscape (fuel + 1) read (writeChar c ++ rest) =
      stringBody unicodeEscape fuel (c :: read) rest :=
  (writeChar_cases c).stringBody fuel read rest

/-! ## Strings -/

/-- Where every item takes a character at least, a text is as long as it has items. -/
theorem length_le_length_flatMap {α : Type} {write : α → List Char} {xs : List α}
    (h : ∀ x ∈ xs, write x ≠ []) : xs.length ≤ (xs.flatMap write).length := by
  induction xs with
  | nil => exact Nat.zero_le _
  | cons x xs ih =>
    have hx := List.length_pos_iff.2 (h x (by simp))
    have hxs := ih fun y hy => h y (by simp [hy])
    simp only [List.flatMap_cons, List.length_append, List.length_cons]
    omega

theorem stringBody_of_pieces {cs : List Char} {pieces : List (List Char)}
    (h : List.Forall₂ ReadAs cs pieces) {fuel : Nat} (hf : cs.length < fuel) (read rest : List Char) :
    stringBody unicodeEscape fuel read (pieces.flatten ++ '"' :: rest) =
      .ok (read.reverse ++ cs, rest) := by
  induction h generalizing fuel read with
  | nil =>
    obtain ⟨fuel, rfl⟩ := Nat.exists_eq_add_of_lt hf
    simp [stringBody]
  | cons hpiece _ ih =>
    cases fuel with
    | zero => exact absurd hf (Nat.not_lt_zero _)
    | succ fuel =>
      rw [List.flatten_cons, List.append_assoc, hpiece.stringBody, ih (Nat.lt_of_succ_lt_succ hf)]
      simp

/-- A string is read from texts of its characters. -/
theorem string_of_pieces {s : String} {pieces : List (List Char)}
    (h : List.Forall₂ ReadAs s.toList pieces) (rest : List Char) :
    string (pieces.flatten ++ '"' :: rest) = .ok (s, rest) := by
  have hlen := Text.length_le_flatten (fun _ _ => ReadAs.ne_nil) h
  have hf : s.toList.length < (pieces.flatten ++ '"' :: rest).length + 1 := by
    rw [List.length_append]; omega
  rw [string, stringBody_of_pieces h hf [] rest]
  simp [bind, Except.bind]

/-- A string is read back from its characters as they are written. -/
theorem string_flatMap_writeChar (s : String) (rest : List Char) :
    string (s.toList.flatMap writeChar ++ '"' :: rest) = .ok (s, rest) := by
  have hpieces : List.Forall₂ ReadAs s.toList (s.toList.map writeChar) := by
    rw [List.forall₂_map_right_iff, List.forall₂_same]
    exact fun c _ => writeChar_cases c
  rw [List.flatMap_def]
  exact string_of_pieces hpieces rest

end RouteBook.Json
