import RouteBook.Annotations
import RouteBook.Proofs.Text.Line

/-!
# The grammar of annotations

An annotation is a line of the form

    W* # W* route N : W+ B W*

in which `W` is one of six blanks, `N` is nothing or a name in brackets, and `B` is a path, or
methods, blanks and a path. A `Reading` says what stands in each place. Main statement
(`scan_eq_some_iff_reading`): the scanner finds a route exactly in the lines that have a
reading, a line has at most one, and the route is the one that the reading spells out.
-/

namespace RouteBook.Annotations
open Text

/-! ## Readings -/

/-- The characters that count as blanks. -/
def blanks : List Char := [' ', '\t', '\n', '\x0b', '\x0c', '\r']

/-- Only blanks, or nothing. -/
def AllBlank (cs : List Char) : Prop := ∀ c ∈ cs, c ∈ blanks

/-- A character that a name can have. -/
def NameChar (c : Char) : Prop :=
  ('A' ≤ c ∧ c ≤ 'Z') ∨ ('a' ≤ c ∧ c ≤ 'z') ∨ ('0' ≤ c ∧ c ≤ '9') ∨ c = '_'

/-- A character that a list of methods can have. -/
def MethodChar (c : Char) : Prop := ('A' ≤ c ∧ c ≤ 'Z') ∨ c = '|'

/-- What stands in the places of an annotation. -/
structure Reading where
  /-- Before the `#`. -/
  indent : List Char
  /-- Between the `#` and the keyword. -/
  gap : List Char
  name : Option (List Char)
  /-- After the colon. -/
  space : List Char
  /-- The word that lists methods, with what stands between it and the path. -/
  methods : Option (List Char × List Char)
  path : List Char
  trail : List Char

namespace Reading

/-- A name as it is written, brackets included. -/
def nameText : Option (List Char) → List Char
  | none => []
  | some n => '[' :: n ++ [']']

/-- Methods as they are written, with the blanks after them. -/
def methodText : Option (List Char × List Char) → List Char
  | none => []
  | some (s, w) => s ++ w

/-- The line that is read so. -/
def text (p : Reading) : List Char :=
  p.indent ++ '#' :: (p.gap ++ 'r' :: 'o' :: 'u' :: 't' :: 'e' :: (nameText p.name ++
    ':' :: (p.space ++ (methodText p.methods ++ (p.path ++ p.trail)))))

/-- A name, if there is one, has characters, all of which a name can have. -/
def NameOk (name : Option (List Char)) : Prop := ∀ n ∈ name, n ≠ [] ∧ ∀ c ∈ n, NameChar c

/-- Methods, if there are any, make up a word, and blanks follow it. -/
def MethodsOk (methods : Option (List Char × List Char)) : Prop :=
  ∀ m ∈ methods, (m.1 ≠ [] ∧ ∀ c ∈ m.1, MethodChar c) ∧ m.2 ≠ [] ∧ AllBlank m.2

/-- Every place holds what the grammar lets it hold. -/
structure Valid (p : Reading) : Prop where
  indent : AllBlank p.indent
  gap : AllBlank p.gap
  name : NameOk p.name
  space : p.space ≠ [] ∧ AllBlank p.space
  methods : MethodsOk p.methods
  path : p.path ≠ [] ∧ ∀ c ∈ p.path, c ∉ blanks
  trail : AllBlank p.trail

/-- `p` is a reading of the line. -/
def Reads (p : Reading) (line : List Char) : Prop := p.Valid ∧ p.text = line

/-- The non-empty pieces between the bars of the word that lists methods. -/
def pieces : Option (List Char × List Char) → List (List Char)
  | none => []
  | some (s, _) => (s.splitOn '|').filter (· ≠ [])

/-- The methods that the pieces amount to: none are given if there is no piece. -/
def listed (methods : Option (List Char × List Char)) : Option (List String) :=
  if pieces methods = [] then none else some ((pieces methods).map String.ofList)

/-- The route that a reading spells out. -/
def route (p : Reading) : Route where
  path := String.ofList p.path
  methods := listed p.methods
  name := p.name.map String.ofList

end Reading

/-! ## Character classes -/

theorem isBlank_iff {c : Char} : isBlank c = true ↔ c ∈ blanks := by
  simp [isBlank, blanks, or_assoc]

theorem isBlank_eq_false_iff {c : Char} : isBlank c = false ↔ c ∉ blanks := by
  rw [← isBlank_iff]; simp

theorem blank_iff {cs : List Char} : Blank cs ↔ AllBlank cs := by
  simp only [Blank, AllBlank, isBlank_iff]

theorem isWord_iff {cs : List Char} : IsWord cs ↔ cs ≠ [] ∧ ∀ c ∈ cs, c ∉ blanks := by
  simp only [IsWord, isBlank_eq_false_iff]

theorem isNameChar_iff {c : Char} : isNameChar c = true ↔ NameChar c := by
  simp [isNameChar, NameChar, Char.isAlphanum, Char.isAlpha, Char.isUpper, Char.isLower, Char.isDigit,
    Char.le_def, UInt32.le_iff_toNat_le]
  grind

theorem methodChar_not_blank {c : Char} (h : MethodChar c) : c ∉ blanks := by
  intro hb
  simp only [blanks, List.mem_cons, List.not_mem_nil, or_false] at hb
  rcases hb with rfl | rfl | rfl | rfl | rfl | rfl <;> revert h <;> simp [MethodChar]

theorem isMethodWord_iff {w : List Char} : isMethodWord w = true ↔ ∀ c ∈ w, MethodChar c := by
  simp [isMethodWord, MethodChar, Char.isUpper, Char.le_def, UInt32.le_iff_toNat_le]

/-! ## The stages of the scanner -/

theorem afterKeyword?_eq_some_iff {line rest : List Char} :
    afterKeyword? line = some rest ↔
      ∃ a b, Blank a ∧ Blank b ∧
        line = a ++ '#' :: (b ++ 'r' :: 'o' :: 'u' :: 't' :: 'e' :: rest) := by
  constructor
  · intro h
    unfold afterKeyword? at h
    split at h
    · next r hd =>
      obtain ⟨_, a, ha, rfl⟩ := exists_blank_of_dropWhile hd
      split at h
      · next r' hd' =>
        obtain ⟨_, b, hb, rfl⟩ := exists_blank_of_dropWhile hd'
        cases h
        exact ⟨a, b, ha, hb, rfl⟩
      · cases h
    · cases h
  · rintro ⟨a, b, ha, hb, rfl⟩
    unfold afterKeyword?
    rw [dropWhile_blank_append ha (by decide)]
    simp only
    rw [dropWhile_blank_append hb (by decide)]
    rfl

theorem nameChar_ne_bracket {c : Char} (h : NameChar c) : c ≠ ']' := by
  rintro rfl; revert h; simp [NameChar]

theorem splitName?_colon_iff {cs rest : List Char} {name : Option (List Char)} :
    splitName? cs = some (name, ':' :: rest) ↔
      Reading.NameOk name ∧ cs = Reading.nameText name ++ ':' :: rest := by
  constructor
  · intro h
    unfold splitName? at h
    split at h
    · next tail =>
      simp only at h
      split at h
      · next x r hd =>
        split at h
        · next hn =>
          simp only [Option.some.injEq, Prod.mk.injEq] at h
          obtain ⟨rfl, rfl⟩ := h
          simp only [Bool.and_eq_true, List.all_eq_true, isNameChar_iff] at hn
          have hx : x = ']' := by
            have := List.head?_dropWhile_not (· ≠ ']') tail
            rw [hd] at this
            simpa using this
          subst hx
          refine ⟨fun n hm => ?_, ?_⟩
          · obtain rfl := Option.some.inj hm
            exact ⟨by simpa using hn.1, hn.2⟩
          · have := List.takeWhile_append_dropWhile (p := (· ≠ ']')) (l := tail)
            rw [hd] at this
            simp only [Reading.nameText, List.cons_append, List.append_assoc, List.nil_append]
            rw [this]
        · cases h
      · cases h
    · simp only [Option.some.injEq, Prod.mk.injEq] at h
      obtain ⟨rfl, rfl⟩ := h
      exact ⟨by simp [Reading.NameOk], rfl⟩
  · rintro ⟨hn, rfl⟩
    cases name with
    | none => rfl
    | some n =>
      obtain ⟨hne, hall⟩ := hn n rfl
      have hstop : ']' ∉ n := fun hm => nameChar_ne_bracket (hall _ hm) rfl
      have htake := takeWhile_ne_append hstop (':' :: rest)
      have hdrop := dropWhile_ne_append hstop (':' :: rest)
      have hok : (!n.isEmpty && n.all isNameChar) = true := by
        simp only [Bool.and_eq_true, List.all_eq_true, isNameChar_iff]
        exact ⟨by simpa using hne, hall⟩
      simp only [Reading.nameText, List.cons_append, List.append_assoc, List.nil_append, splitName?]
      rw [htake, hdrop]
      simp [hok]

theorem methodsOf_eq (s w : List Char) : methodsOf s = Reading.listed (some (s, w)) := by
  have hf : ((s.splitOn '|').filter fun piece => !piece.isEmpty) = Reading.pieces (some (s, w)) := by
    simp only [Reading.pieces]
    exact List.filter_congr fun x _ => by cases x <;> rfl
  unfold methodsOf Reading.listed
  rw [hf]
  cases Reading.pieces (some (s, w)) <;> rfl

theorem endsWord_of_blank {trail : List Char} (h : Blank trail) : EndsWord trail := by
  have hend : EndsWord (trail ++ []) := endsWord_blank_append h trivial
  simpa using hend

theorem Reading.MethodsOk.isWord {s v : List Char} (h : MethodsOk (some (s, v))) : IsWord s :=
  ⟨(h _ rfl).1.1, fun c hc => isBlank_eq_false_iff.2 (methodChar_not_blank ((h _ rfl).1.2 c hc))⟩

/-- After the colon there are one or two words. -/
theorem words_body {m : Option (List Char × List Char)} {p trail : List Char}
    (hm : Reading.MethodsOk m) (hp : IsWord p) (htr : Blank trail) :
    words (Reading.methodText m ++ (p ++ trail)) = (m.map Prod.fst).toList ++ [p] := by
  have hpath : words (p ++ trail) = [p] := by
    rw [words_word_append hp (endsWord_of_blank htr), words_blank htr]
  cases m with
  | none => simp [Reading.methodText, hpath]
  | some sv =>
    obtain ⟨s, v⟩ := sv
    obtain ⟨_, hv, hvb⟩ := hm (s, v) rfl
    have hend : EndsWord (v ++ (p ++ trail)) :=
      EndsWord.of_startsBlank (startsBlank_blank_append (blank_iff.2 hvb) hv _)
    simp only [Reading.methodText, List.append_assoc]
    rw [words_word_append hm.isWord hend, words_blank_append (blank_iff.2 hvb), hpath]
    rfl

/-- What stands after the colon, if it is a path with or without methods before it. -/
theorem body?_eq_some_iff {rest : List Char} {ms : Option (List String)} {path : String} :
    startsBlank rest = true ∧ body? rest = some (ms, path) ↔
      ∃ space m p trail, (space ≠ [] ∧ AllBlank space) ∧ Reading.MethodsOk m ∧
        (p ≠ [] ∧ ∀ c ∈ p, c ∉ blanks) ∧ AllBlank trail ∧
        rest = space ++ (Reading.methodText m ++ (p ++ trail)) ∧
        ms = Reading.listed m ∧ path = String.ofList p := by
  simp only [← isWord_iff, ← blank_iff]
  constructor
  · rintro ⟨hb, h⟩
    unfold body? at h
    split at h
    · next p hw =>
      simp only [Option.some.injEq, Prod.mk.injEq] at h
      obtain ⟨rfl, rfl⟩ := h
      obtain ⟨w, r, rfl, hwb, hp, _, hr⟩ := words_eq_cons hw
      have hne := (EndsWord.of_startsBlank hb).ne_nil hp
      exact ⟨w, none, p, r, ⟨hne, hwb⟩, by simp [Reading.MethodsOk], hp, words_eq_nil_iff.1 hr,
        by simp [Reading.methodText], by simp [Reading.listed, Reading.pieces], rfl⟩
    · next s p hw =>
      split at h
      · next hs =>
        simp only [Option.some.injEq, Prod.mk.injEq] at h
        obtain ⟨rfl, rfl⟩ := h
        obtain ⟨w, r, rfl, hwb, hsw, hend, hr⟩ := words_eq_cons hw
        obtain ⟨v, r', rfl, hvb, hp, _, hr'⟩ := words_eq_cons hr
        have hne := (EndsWord.of_startsBlank hb).ne_nil hsw
        have hne' := hend.ne_nil hp
        refine ⟨w, some (s, v), p, r', ⟨hne, hwb⟩, ?_, hp, words_eq_nil_iff.1 hr',
          by simp [Reading.methodText], methodsOf_eq s v, rfl⟩
        intro m hm
        obtain rfl := Option.some.inj hm
        exact ⟨⟨hsw.1, isMethodWord_iff.1 hs⟩, hne', blank_iff.1 hvb⟩
      · cases h
    · cases h
  · rintro ⟨space, m, p, trail, ⟨hne, hsp⟩, hm, hp, htr, rfl, rfl, rfl⟩
    refine ⟨startsBlank_blank_append hsp hne _, ?_⟩
    unfold body?
    rw [words_blank_append hsp, words_body hm hp htr]
    cases m with
    | none => simp [Reading.listed, Reading.pieces]
    | some sv =>
      have hs := isMethodWord_iff.2 (hm sv rfl).1.2
      simp [hs, methodsOf_eq sv.1 sv.2]

/-! ## The scanner and the grammar -/

theorem scanChars_eq_some_iff {line : List Char} {r : Route} :
    scanChars line = some r ↔ ∃ p : Reading, p.Reads line ∧ p.route = r := by
  constructor
  · intro h
    unfold scanChars at h
    simp only [Option.bind_eq_bind, Option.bind_eq_some_iff] at h
    obtain ⟨rest, hk, ⟨name, tail⟩, hn, h⟩ := h
    simp only at h
    split at h
    · next body =>
      split at h
      · next hb =>
        simp only [Option.bind_eq_some_iff] at h
        obtain ⟨⟨ms, path⟩, hbody, h⟩ := h
        cases h
        obtain ⟨a, b, ha, hb', rfl⟩ := afterKeyword?_eq_some_iff.1 hk
        obtain ⟨hname, rfl⟩ := splitName?_colon_iff.1 hn
        obtain ⟨space, m, p, trail, hsp, hm, hp, htr, rfl, rfl, rfl⟩ :=
          body?_eq_some_iff.1 ⟨hb, hbody⟩
        exact ⟨⟨a, b, name, space, m, p, trail⟩,
          ⟨⟨blank_iff.1 ha, blank_iff.1 hb', hname, hsp, hm, hp, htr⟩, rfl⟩, rfl⟩
      · cases h
    · cases h
  · rintro ⟨p, ⟨hv, rfl⟩, rfl⟩
    have hk : afterKeyword? p.text = some (Reading.nameText p.name ++
        ':' :: (p.space ++ (Reading.methodText p.methods ++ (p.path ++ p.trail)))) :=
      afterKeyword?_eq_some_iff.2 ⟨_, _, blank_iff.2 hv.indent, blank_iff.2 hv.gap, rfl⟩
    have hn : splitName? (Reading.nameText p.name ++
        ':' :: (p.space ++ (Reading.methodText p.methods ++ (p.path ++ p.trail)))) = some (p.name, _) :=
      splitName?_colon_iff.2 ⟨hv.name, rfl⟩
    obtain ⟨hb, hbody⟩ := body?_eq_some_iff.2
      ⟨p.space, p.methods, p.path, p.trail, hv.space, hv.methods, hv.path, hv.trail, rfl, rfl, rfl⟩
    unfold scanChars
    simp [hk, hn, hb, hbody, Reading.route]

/-- The text after the colon can be taken apart in one way only. -/
theorem body_inj {m m' : Option (List Char × List Char)} {p p' trail trail' : List Char}
    (hm : Reading.MethodsOk m) (hm' : Reading.MethodsOk m') (hp : IsWord p) (hp' : IsWord p')
    (ht : Blank trail) (ht' : Blank trail')
    (h : Reading.methodText m ++ (p ++ trail) = Reading.methodText m' ++ (p' ++ trail')) :
    m = m' ∧ p = p' ∧ trail = trail' := by
  have hw : (m.map Prod.fst).toList ++ [p] = (m'.map Prod.fst).toList ++ [p'] := by
    rw [← words_body hm hp ht, ← words_body hm' hp' ht', h]
  cases m with
  | none =>
    cases m' with
    | none =>
      obtain rfl : p = p' := by simpa using hw
      exact ⟨rfl, rfl, by simpa [Reading.methodText] using h⟩
    | some sv' => simp at hw
  | some sv =>
    cases m' with
    | none => simp at hw
    | some sv' =>
      obtain ⟨s, v⟩ := sv
      obtain ⟨s', v'⟩ := sv'
      obtain ⟨rfl, rfl⟩ : s = s' ∧ p = p' := by simpa using hw
      have hv := blank_iff.2 (hm (s, v) rfl).2.2
      have hv' := blank_iff.2 (hm' (s, v') rfl).2.2
      have h' : v ++ (p ++ trail) = v' ++ (p ++ trail') := by
        simpa [Reading.methodText] using h
      obtain ⟨rfl, h''⟩ := span_append_inj hv hv' (hp.head_append _) (hp.head_append _) h'
      exact ⟨rfl, rfl, List.append_cancel_left h''⟩

theorem head_methodText_append {m : Option (List Char × List Char)} {p : List Char}
    (hm : Reading.MethodsOk m) (hp : IsWord p) (trail : List Char) :
    ∀ c ∈ (Reading.methodText m ++ (p ++ trail)).head?, isBlank c = false := by
  cases m with
  | none => exact hp.head_append trail
  | some sv =>
    simp only [Reading.methodText, List.append_assoc]
    exact Reading.MethodsOk.isWord hm |>.head_append _

/-- A line is read in one way at most. -/
theorem reads_inj {p q : Reading} {line : List Char} (hp : p.Reads line) (hq : q.Reads line) :
    p = q := by
  obtain ⟨hv, rfl⟩ := hp
  obtain ⟨hw, h⟩ := hq
  obtain ⟨hi, h⟩ := span_append_inj (blank_iff.2 hw.indent) (blank_iff.2 hv.indent)
    (by simp [isBlank]) (by simp [isBlank]) h
  obtain ⟨hg, h⟩ := span_append_inj (blank_iff.2 hw.gap) (blank_iff.2 hv.gap)
    (by simp [isBlank]) (by simp [isBlank]) (List.cons.inj h).2
  simp only [List.cons.injEq, true_and] at h
  have hn := (splitName?_colon_iff.2 ⟨hw.name, rfl⟩).symm.trans (splitName?_colon_iff.2 ⟨hv.name, h⟩)
  simp only [Option.some.injEq, Prod.mk.injEq, List.cons.injEq, true_and] at hn
  obtain ⟨hname, h⟩ := hn
  have hpp := isWord_iff.2 hv.path
  have hqp := isWord_iff.2 hw.path
  obtain ⟨hs, h⟩ := span_append_inj (blank_iff.2 hw.space.2) (blank_iff.2 hv.space.2)
    (head_methodText_append hw.methods hqp _) (head_methodText_append hv.methods hpp _) h
  obtain ⟨hm, hp, ht⟩ := body_inj hw.methods hv.methods hqp hpp (blank_iff.2 hw.trail)
    (blank_iff.2 hv.trail) h
  cases p; cases q; simp_all

/-- **The scanner and the grammar**: a line declares the route `r` exactly when it has a
reading that spells out `r`; it has at most one reading, and none exactly when the line
declares nothing. -/
theorem scan_eq_some_iff_reading (line : String) :
    (∀ r, scan line = some r ↔ ∃ p : Reading, p.Reads line.toList ∧ p.route = r) ∧
      {p : Reading | p.Reads line.toList}.Subsingleton ∧
      (scan line = none ↔ ¬ ∃ p : Reading, p.Reads line.toList) := by
  refine ⟨fun r => scanChars_eq_some_iff, fun p hp q hq => reads_inj hp hq, ?_⟩
  rw [Option.eq_none_iff_forall_ne_some]
  constructor
  · rintro h ⟨p, hp⟩
    exact h p.route (scanChars_eq_some_iff.2 ⟨p, hp, rfl⟩)
  · intro h r hr
    obtain ⟨p, hp, _⟩ := scanChars_eq_some_iff.1 hr
    exact h ⟨p, hp⟩

end RouteBook.Annotations
