import RouteBook.Proofs.Json.Strings

/-!
# Inside and outside strings

A reader that goes through a JSON text is outside strings, in a string, or in a string after a
backslash. Blanks and line feeds outside strings can be taken out of the text (`closeUp`). A string
that was written has no end but its last quote (`closesUp_writeString`), whatever it holds, so that
nothing is taken out of it, and it holds no control character (`le_of_mem_writeString`).
-/

namespace RouteBook.Json

/-- Where a reader of a JSON text is. -/
inductive Zone where
  | outside
  | inside
  /-- In a string, after a backslash. -/
  | escaped
deriving DecidableEq

/-- Where the reader is after another character. -/
def Zone.after : Zone → Char → Zone
  | .outside, c => if c = '"' then .inside else .outside
  | .inside, c => if c = '"' then .outside else if c = '\\' then .escaped else .inside
  | .escaped, _ => .inside

/-- Where the reader is after a text. -/
def Zone.afterAll (z : Zone) (cs : List Char) : Zone := cs.foldl Zone.after z

/-- The text without the blanks and line feeds outside strings. -/
def closeUp (z : Zone) : List Char → List Char
  | [] => []
  | c :: cs =>
    if z = .outside ∧ (c = ' ' ∨ c = '\n') then closeUp z cs else c :: closeUp (z.after c) cs

theorem closeUp_append (z : Zone) (a b : List Char) :
    closeUp z (a ++ b) = closeUp z a ++ closeUp (z.afterAll a) b := by
  induction a generalizing z with
  | nil => rfl
  | cons c a ih =>
    rw [List.cons_append, closeUp, closeUp]
    split
    · next h =>
      obtain ⟨rfl, hc⟩ := h
      have hafter : Zone.after .outside c = .outside := by rcases hc with rfl | rfl <;> rfl
      rw [ih, Zone.afterAll, Zone.afterAll, List.foldl_cons, hafter]
    · rw [ih]
      rfl

theorem afterAll_append (z : Zone) (a b : List Char) :
    z.afterAll (a ++ b) = (z.afterAll a).afterAll b :=
  List.foldl_append

/-! ## Texts that end where they begin -/

/-- A text that is closed up to another in the zone `z`, and after which the reader is there again. -/
structure ClosesUp (z : Zone) (text tight : List Char) : Prop where
  ends : z.afterAll text = z
  closed : closeUp z text = tight

theorem closesUp_nil (z : Zone) : ClosesUp z [] [] := ⟨rfl, rfl⟩

theorem ClosesUp.append {z : Zone} {a a' b b' : List Char} (ha : ClosesUp z a a')
    (hb : ClosesUp z b b') : ClosesUp z (a ++ b) (a' ++ b') := by
  constructor
  · rw [afterAll_append, ha.ends, hb.ends]
  · rw [closeUp_append, ha.closed, ha.ends, hb.closed]

/-- A mark that is no quote, no blank and no line feed is kept. -/
theorem closesUp_mark {c : Char} (h : c ≠ '"' ∧ c ≠ ' ' ∧ c ≠ '\n') : ClosesUp .outside [c] [c] := by
  obtain ⟨hquote, hspace, hfeed⟩ := h
  constructor
  · simp [Zone.afterAll, Zone.after, hquote]
  · simp [closeUp, hspace, hfeed]

theorem closesUp_newline (level : Nat) :
    ClosesUp .outside (Layout.indented.newline level) (Layout.compact.newline level) := by
  have hblank : ClosesUp .outside [' '] [] := ⟨rfl, rfl⟩
  have hblanks : ∀ n, ClosesUp .outside (List.replicate n ' ') [] := by
    intro n
    induction n with
    | zero => exact closesUp_nil .outside
    | succ n ih => exact hblank.append ih
  have hfeed : ClosesUp .outside ['\n'] [] := ⟨rfl, rfl⟩
  exact hfeed.append (hblanks (2 * level))

/-! ## Strings -/

/-- A character is written bare, or as a backslash, the character that it escapes, and bare ones. -/
theorem writeChar_shape (c : Char) : (Bare c ∧ writeChar c = [c]) ∨
    ∃ e es, writeChar c = '\\' :: e :: es ∧ 0x20 ≤ e.toNat ∧ ∀ d ∈ es, Bare d := by
  have hdigit : ∀ n < 16, Bare (hexDigit n) := by decide
  unfold writeChar
  split
  · exact Or.inr ⟨_, _, rfl, by decide, by simp⟩
  · exact Or.inr ⟨_, _, rfl, by decide, by simp⟩
  · exact Or.inr ⟨_, _, rfl, by decide, by simp⟩
  · exact Or.inr ⟨_, _, rfl, by decide, by simp⟩
  · exact Or.inr ⟨_, _, rfl, by decide, by simp⟩
  · exact Or.inr ⟨_, _, rfl, by decide, by simp⟩
  · exact Or.inr ⟨_, _, rfl, by decide, by simp⟩
  · next hquote hslash _ _ _ _ _ =>
    split
    · next hc =>
      have hhigh := hdigit (c.toNat / 16) (by omega)
      have hlow := hdigit (c.toNat % 16) (Nat.mod_lt _ (by decide))
      have hzero : Bare '0' := by decide
      exact Or.inr ⟨_, _, rfl, by decide, by simp [hhigh, hlow, hzero]⟩
    · next hc => exact Or.inl ⟨⟨hquote, hslash, by omega⟩, rfl⟩

theorem closesUp_inside_bare {text : List Char} (h : ∀ c ∈ text, Bare c) :
    ClosesUp .inside text text := by
  induction text with
  | nil => exact closesUp_nil .inside
  | cons c text ih =>
    obtain ⟨hquote, hslash, _⟩ := h c (by simp)
    have hc : ClosesUp .inside [c] [c] := by
      constructor
      · simp [Zone.afterAll, Zone.after, hquote, hslash]
      · simp [closeUp]
    exact hc.append (ih fun d hd => h d (by simp [hd]))

/-- What is written for a character keeps the reader in the string. -/
theorem closesUp_writeChar (c : Char) : ClosesUp .inside (writeChar c) (writeChar c) := by
  rcases writeChar_shape c with ⟨hbare, h⟩ | ⟨e, es, h, _, hes⟩
  · rw [h]
    exact closesUp_inside_bare (by simpa using hbare)
  · have hescape : ClosesUp .inside ['\\', e] ['\\', e] := by
      constructor
      · rfl
      · simp [closeUp, Zone.after]
    rw [h]
    exact hescape.append (closesUp_inside_bare hes)

theorem closesUp_flatMap_writeChar (cs : List Char) :
    ClosesUp .inside (cs.flatMap writeChar) (cs.flatMap writeChar) := by
  induction cs with
  | nil => exact closesUp_nil .inside
  | cons c cs ih => exact (closesUp_writeChar c).append ih

/-- A string is kept as it was written. -/
theorem closesUp_writeString (s : String) : ClosesUp .outside (writeString s) (writeString s) := by
  obtain ⟨hends, hclosed⟩ := closesUp_flatMap_writeChar s.toList
  have hopen : Zone.after .outside '"' = .inside := rfl
  constructor
  · rw [writeString, List.cons_append, Zone.afterAll, List.foldl_cons, hopen]
    change Zone.afterAll .inside (s.toList.flatMap writeChar ++ ['"']) = .outside
    rw [afterAll_append, hends]
    rfl
  · rw [writeString, List.cons_append, closeUp, if_neg (by decide), hopen, closeUp_append, hclosed, hends]
    rfl

theorem le_of_mem_writeChar {c d : Char} (h : d ∈ writeChar c) : 0x20 ≤ d.toNat := by
  rcases writeChar_shape c with ⟨⟨_, _, hc⟩, hshape⟩ | ⟨e, es, hshape, he, hes⟩
  · rw [hshape, List.mem_singleton] at h
    rwa [h]
  · rw [hshape, List.mem_cons, List.mem_cons] at h
    rcases h with rfl | rfl | h
    · decide
    · exact he
    · exact (hes d h).2.2

/-- A string has no control characters, whatever it stands for. -/
theorem le_of_mem_writeString {s : String} {c : Char} (h : c ∈ writeString s) : 0x20 ≤ c.toNat := by
  simp only [writeString, List.cons_append, List.mem_cons, List.mem_append, List.mem_flatMap,
    List.not_mem_nil, or_false] at h
  rcases h with rfl | ⟨d, _, hd⟩ | rfl
  · decide
  · exact le_of_mem_writeChar hd
  · decide

end RouteBook.Json
