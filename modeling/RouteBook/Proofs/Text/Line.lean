import RouteBook.Proofs.Text.Runs
import RouteBook.Text.Line

/-!
# Lines and words

`words` is read off the front: blanks before a text do not matter (`words_blank_append`), and
a word that is followed by a blank or by nothing is the first of the words
(`words_word_append`). The other way round, `words_eq_cons` takes the first word off a text.

A text without end mark is one line, and in any other the first line ends with the first mark
(`Line.cut_append_cons`). `Line.lines_induction` goes through a text in these steps. Main statement
(`Line.ofChunks_eq`): how octets are divided into chunks does not matter to their lines.
-/

namespace RouteBook.Text

/-! ## Words between blanks -/

/-- All of a text is blank. -/
def Blank (cs : List Char) : Prop := ∀ c ∈ cs, isBlank c = true

/-- A text that can be a word: it has characters, and none of them is blank. -/
def IsWord (cs : List Char) : Prop := cs ≠ [] ∧ ∀ c ∈ cs, isBlank c = false

/-- A text before which a word ends. -/
def EndsWord : List Char → Prop
  | [] => True
  | c :: _ => isBlank c = true

theorem blank_nil : Blank [] := by simp [Blank]

theorem blank_append {a b : List Char} : Blank (a ++ b) ↔ Blank a ∧ Blank b := by
  simp [Blank, or_imp, forall_and]

theorem endsWord_blank_append {w rest : List Char} (hw : Blank w) (hr : EndsWord rest) :
    EndsWord (w ++ rest) := by
  cases w with
  | nil => exact hr
  | cons c w => exact hw c (by simp)

theorem startsBlank_blank_append {w : List Char} (hw : Blank w) (hne : w ≠ []) (rest : List Char) :
    startsBlank (w ++ rest) = true := by
  cases w with
  | nil => exact absurd rfl hne
  | cons c w => exact hw c (by simp)

theorem EndsWord.of_startsBlank {cs : List Char} (h : startsBlank cs = true) : EndsWord cs := by
  cases cs with
  | nil => trivial
  | cons c cs => exact h

/-- Between the end of a word and the next word there is a blank. -/
theorem EndsWord.ne_nil {w p rest : List Char} (h : EndsWord (w ++ p ++ rest)) (hp : IsWord p) :
    w ≠ [] := by
  rintro rfl
  cases p with
  | nil => exact hp.1 rfl
  | cons c p =>
    have hc : isBlank c = true := h
    rw [hp.2 c (by simp)] at hc; cases hc

/-! ### The front of a text -/

theorem IsWord.head_append {p : List Char} (hp : IsWord p) (rest : List Char) :
    ∀ c ∈ (p ++ rest).head?, isBlank c = false := by
  intro c hc
  cases p with
  | nil => exact absurd rfl hp.1
  | cons d p =>
    obtain rfl := Option.some.inj hc
    exact hp.2 d (by simp)

theorem dropWhile_blank_append {w rest : List Char} {c : Char} (hw : Blank w)
    (hc : isBlank c = false) : (w ++ c :: rest).dropWhile isBlank = c :: rest :=
  dropWhile_append_of_head hw (by simp [hc])

/-- What is left after the blanks at the front, with those blanks. -/
theorem exists_blank_of_dropWhile {cs rest : List Char} {c : Char}
    (h : cs.dropWhile isBlank = c :: rest) :
    isBlank c = false ∧ ∃ w, Blank w ∧ cs = w ++ c :: rest := by
  have hc : isBlank c = false := by
    have := List.head?_dropWhile_not isBlank cs
    simpa [h] using this
  refine ⟨hc, cs.takeWhile isBlank, fun x hx => List.mem_takeWhile_imp hx, ?_⟩
  rw [← h, List.takeWhile_append_dropWhile]

/-! ### Words -/

@[simp] theorem words_nil : words [] = [] := rfl

theorem words_cons_blank {c : Char} (hc : isBlank c = true) (cs : List Char) :
    words (c :: cs) = words cs := by
  simp [words, List.splitOnP_cons_eq_if_modifyHead, hc]

theorem words_blank_append {w : List Char} (hw : Blank w) (cs : List Char) :
    words (w ++ cs) = words cs := by
  induction w with
  | nil => rfl
  | cons c w ih =>
    rw [List.cons_append, words_cons_blank (hw c (by simp))]
    exact ih fun x hx => hw x (by simp [hx])

theorem words_blank {w : List Char} (hw : Blank w) : words w = [] := by
  simpa using words_blank_append hw []

theorem words_word_append {p rest : List Char} (hp : IsWord p) (hr : EndsWord rest) :
    words (p ++ rest) = p :: words rest := by
  have hpe : p.isEmpty = false := by simpa using hp.1
  cases rest with
  | nil => simp [words, List.splitOnP_eq_singleton hp.2, hpe]
  | cons c rest =>
    rw [words_cons_blank hr]
    simp [words, List.splitOnP_append_cons_of_forall_mem hp.2 c hr, hpe]

/-- A text without words is blank; any other begins with blanks, its first word, and what
ends that word. -/
theorem blank_or_exists_word (cs : List Char) :
    Blank cs ∨ ∃ w p rest, cs = w ++ p ++ rest ∧ Blank w ∧ IsWord p ∧ EndsWord rest := by
  cases h : cs.dropWhile isBlank with
  | nil => exact Or.inl (List.dropWhile_eq_nil_iff.1 h)
  | cons c r =>
    obtain ⟨hc, w, hw, rfl⟩ := exists_blank_of_dropWhile h
    refine Or.inr ⟨w, (c :: r).takeWhile (!isBlank ·), (c :: r).dropWhile (!isBlank ·), ?_, hw, ⟨?_, ?_⟩, ?_⟩
    · rw [List.append_assoc, List.takeWhile_append_dropWhile]
    · simp [hc]
    · intro x hx; simpa using List.mem_takeWhile_imp hx
    · have := List.head?_dropWhile_not (!isBlank ·) (c :: r)
      cases hd : (c :: r).dropWhile (!isBlank ·) with
      | nil => trivial
      | cons d _ => simpa [hd, EndsWord] using this

theorem words_eq_nil_iff {cs : List Char} : words cs = [] ↔ Blank cs := by
  refine ⟨fun h => ?_, words_blank⟩
  rcases blank_or_exists_word cs with hb | ⟨w, p, rest, rfl, hw, hp, hr⟩
  · exact hb
  · rw [List.append_assoc, words_blank_append hw, words_word_append hp hr] at h
    cases h

/-- The first word of a text, with the blanks before it. -/
theorem words_eq_cons {cs p : List Char} {ps : List (List Char)} (h : words cs = p :: ps) :
    ∃ w rest, cs = w ++ p ++ rest ∧ Blank w ∧ IsWord p ∧ EndsWord rest ∧ words rest = ps := by
  rcases blank_or_exists_word cs with hb | ⟨w, q, rest, rfl, hw, hq, hr⟩
  · rw [words_blank hb] at h; cases h
  · rw [List.append_assoc, words_blank_append hw, words_word_append hq hr] at h
    obtain ⟨rfl, rfl⟩ := List.cons.inj h
    exact ⟨w, rest, rfl, hw, hq, hr, rfl⟩

/-! ## Cutting into lines -/

namespace Line

section
variable {α : Type} {isEnd : α → Bool}

theorem cutInto_of_no_end {a : List α} (ha : ∀ c ∈ a, isEnd c = false) (line : List α) :
    cutInto isEnd line a = if line = [] ∧ a = [] then [] else [line.reverse ++ a] := by
  induction a generalizing line with
  | nil => cases line <;> simp [cutInto]
  | cons c a ih =>
    have hc : isEnd c = false := ha c (by simp)
    simp [cutInto, hc, ih fun x hx => ha x (by simp [hx])]

theorem cutInto_append_cons {a : List α} {c : α} (ha : ∀ x ∈ a, isEnd x = false)
    (hc : isEnd c = true) (b line : List α) :
    cutInto isEnd line (a ++ c :: b) = (line.reverse ++ a ++ [c]) :: cut isEnd b := by
  induction a generalizing line with
  | nil => simp [cutInto, hc, cut]
  | cons x a ih =>
    have hx : isEnd x = false := ha x (by simp)
    simp [cutInto, hx, ih fun y hy => ha y (by simp [hy])]

theorem cut_of_no_end {a : List α} (ha : ∀ c ∈ a, isEnd c = false) :
    cut isEnd a = if a = [] then [] else [a] := by
  simp [cut, cutInto_of_no_end ha]

theorem cut_append_cons {a : List α} {c : α} (ha : ∀ x ∈ a, isEnd x = false) (hc : isEnd c = true)
    (b : List α) : cut isEnd (a ++ c :: b) = (a ++ [c]) :: cut isEnd b := by
  rw [cut, cutInto_append_cons ha hc]; simp

/-- A text without end mark, or what stands before the first mark, the mark, and the rest. -/
theorem no_end_or_exists_end (isEnd : α → Bool) (cs : List α) :
    (∀ c ∈ cs, isEnd c = false) ∨
      ∃ a c b, cs = a ++ c :: b ∧ (∀ x ∈ a, isEnd x = false) ∧ isEnd c = true := by
  induction cs with
  | nil => exact Or.inl (by simp)
  | cons c cs ih =>
    cases hc : isEnd c with
    | true => exact Or.inr ⟨[], c, cs, rfl, by simp, hc⟩
    | false =>
      rcases ih with h | ⟨a, d, b, rfl, ha, hd⟩
      · exact Or.inl (by simpa [hc] using h)
      · exact Or.inr ⟨c :: a, d, b, rfl, by simpa [hc] using ha, hd⟩

/-- To show something of every text, show it of texts without end mark, and of a first line
before texts of which it holds. -/
theorem lines_induction (isEnd : α → Bool) {motive : List α → Prop}
    (last : ∀ a, (∀ c ∈ a, isEnd c = false) → motive a)
    (more : ∀ a c b, (∀ x ∈ a, isEnd x = false) → isEnd c = true → motive b → motive (a ++ c :: b))
    (cs : List α) : motive cs := by
  rcases no_end_or_exists_end isEnd cs with h | ⟨a, c, b, rfl, ha, hc⟩
  · exact last cs h
  · exact more a c b ha hc (lines_induction isEnd last more b)
termination_by cs.length
decreasing_by subst_vars; simp; omega

end

/-! ### Octets that arrive in chunks -/

theorem next_of_no_feed {chunks : List (List UInt8)}
    (h : ∀ b ∈ chunks.flatten, decide (b = 0x0A) = false) : next chunks = (chunks.flatten, []) := by
  induction chunks with
  | nil => rfl
  | cons chunk chunks ih =>
    have hc : chunk.dropWhile (· ≠ 0x0A) = [] := by
      rw [List.dropWhile_eq_nil_iff]
      intro b hb
      simpa using h b (by simp [hb])
    have ih' := ih fun b hb => h b (by simp at hb ⊢; exact Or.inr hb)
    simp only [next, hc, ih', List.flatten_cons]

theorem next_of_feed {chunks : List (List UInt8)} {a b : List UInt8}
    (h : chunks.flatten = a ++ 0x0A :: b) (ha : ∀ x ∈ a, decide (x = 0x0A) = false) :
    ∃ rest, next chunks = (a ++ [0x0A], rest) ∧ rest.flatten = b := by
  induction chunks generalizing a with
  | nil => simp at h
  | cons chunk chunks ih =>
    rcases no_end_or_exists_end (· = (0x0A : UInt8)) chunk with hc | ⟨p, c, q, rfl, hp, hc⟩
    · -- The whole chunk belongs to the line, and the line goes on in the chunks after it.
      have hd : chunk.dropWhile (· ≠ 0x0A) = [] := by
        rw [List.dropWhile_eq_nil_iff]; intro x hx; simpa using hc x hx
      obtain ⟨a', rfl⟩ : ∃ a', a = chunk ++ a' := by
        rw [List.flatten_cons] at h
        rcases List.append_eq_append_iff.1 h with ⟨a', rfl, _⟩ | ⟨c', hc', hb⟩
        · exact ⟨a', rfl⟩
        · cases c' with
          | nil => exact ⟨[], by simpa using hc'.symm⟩
          | cons x c' =>
            obtain ⟨rfl, _⟩ := List.cons.inj hb
            have := hc 0x0A (by rw [hc']; simp)
            simp at this
      rw [List.flatten_cons, List.append_assoc] at h
      obtain ⟨rest, hn, hr⟩ := ih (List.append_cancel_left h) fun x hx => ha x (by simp [hx])
      exact ⟨rest, by simp only [next, hd, hn, List.append_assoc], hr⟩
    · obtain rfl : c = 0x0A := by simpa using hc
      have hp' : ∀ x ∈ p, decide (x ≠ 0x0A) = true := fun x hx => by simpa using hp x hx
      have hmark : 0x0A ∉ p := fun hm => by simpa using hp' 0x0A hm
      have hd := dropWhile_ne_append hmark q
      have ht := takeWhile_ne_append hmark q
      rw [List.flatten_cons, List.append_assoc, List.cons_append] at h
      obtain ⟨rfl, hq⟩ := span_append_inj (q := (· ≠ (0x0A : UInt8))) hp'
        (fun x hx => by simpa using ha x hx) (by simp) (by simp) h
      exact ⟨q :: chunks, by simp only [next, hd, ht], (List.cons.inj hq).2⟩

theorem ofChunksWithin_eq (fuel : Nat) (chunks : List (List UInt8)) (hf : chunks.flatten.length ≤ fuel) :
    ofChunksWithin fuel chunks = ofOctets chunks.flatten := by
  induction fuel generalizing chunks with
  | zero =>
    have h : chunks.flatten = [] := List.length_eq_zero_iff.1 (by omega)
    simp [ofChunksWithin, ofOctets, h, cut, cutInto]
  | succ fuel ih =>
    unfold ofOctets
    rcases no_end_or_exists_end (· = (0x0A : UInt8)) chunks.flatten with h | ⟨a, c, b, hab, ha, hc⟩
    · rw [cut_of_no_end h, ofChunksWithin, next_of_no_feed h]
      have hnil : ofChunksWithin fuel [] = [] := ih [] (by simp)
      cases hfl : chunks.flatten with
      | nil => rfl
      | cons x xs => simp [hnil]
    · obtain rfl : c = 0x0A := by simpa using hc
      obtain ⟨rest, hn, rfl⟩ := next_of_feed hab ha
      have hlen : rest.flatten.length ≤ fuel := by
        rw [hab] at hf; simp at hf ⊢; omega
      rw [hab, cut_append_cons ha hc, ofChunksWithin, hn]
      cases hl : a ++ [0x0A] with
      | nil => simp at hl
      | cons x xs => exact congrArg _ (ih rest hlen)

/-- **Chunks do not matter**: octets that arrive in chunks have the lines of the octets joined. -/
theorem ofChunks_eq (chunks : List (List UInt8)) : ofChunks chunks = ofOctets chunks.flatten :=
  ofChunksWithin_eq _ chunks (Nat.le_refl _)

/-! ### End marks -/

theorem exists_dropEnd_append (line : List Char) :
    ∃ w, Blank w ∧ line = dropEnd line ++ w := by
  unfold dropEnd
  split
  · next kept h => exact ⟨['\r', '\n'], by simp [Blank, isBlank], by simpa using congrArg List.reverse h⟩
  · next kept _ h => exact ⟨['\n'], by simp [Blank, isBlank], by simpa using congrArg List.reverse h⟩
  · exact ⟨[], blank_nil, by simp⟩

/-- A line feed at the end of a text that has no other, and no carriage return before it, ends the one
line of the text. -/
theorem ofText_append_feed {line : List Char} (hfeed : '\n' ∉ line) (hreturn : '\r' ∉ line) :
    ofText (line ++ ['\n']) = [line] := by
  have hcut : cut (· = '\n') (line ++ ['\n']) = [line ++ ['\n']] := by
    rw [cut_append_cons (by simpa using fun c hc (h : c = '\n') => hfeed (h ▸ hc)) (by simp)]
    rfl
  have hdrop : dropEnd (line ++ ['\n']) = line := by
    rw [dropEnd, List.reverse_append]
    cases h : line.reverse with
    | nil => simp [List.reverse_eq_nil_iff.1 h]
    | cons c rest =>
      have hline : line = rest.reverse ++ [c] := by simpa using congrArg List.reverse h
      have hc : c ≠ '\r' := by
        rintro rfl
        exact hreturn (by simp [hline])
      simp [hline, hc]
  rw [ofText, hcut, List.map_singleton, hdrop]

end Line

end RouteBook.Text
