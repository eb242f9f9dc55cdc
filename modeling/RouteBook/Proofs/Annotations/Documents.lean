import RouteBook.Proofs.Annotations.FrontEnds
import RouteBook.Proofs.Annotations.Routes

/-!
# Documents that declare routes

The routes that lines can declare are those whose path, name and methods can stand in an
annotation (`Route.Declarable`): `declaration` writes each of them on one line, and no line declares
another. A document (`Writes`) has such a line for each of its routes, indented in any way, and
between them lines of any other kind. Main statement: a document is scanned as the list of its
routes (`declarations_scanned`).
-/

namespace RouteBook

/-- A route that can be declared: its path is a word, its name and its methods are written in the
characters that names and methods have, and no text and no list of methods is empty. -/
structure Route.Declarable (r : Route) : Prop where
  path : r.path ≠ "" ∧ ∀ c ∈ r.path.toList, c ∉ Annotations.blanks
  name : ∀ n ∈ r.name, n ≠ "" ∧ ∀ c ∈ n.toList, Annotations.NameChar c
  methods : ∀ ms ∈ r.methods, ms ≠ [] ∧ ∀ m ∈ ms, m ≠ "" ∧ ∀ c ∈ m.toList, 'A' ≤ c ∧ c ≤ 'Z'

namespace Annotations
open Text

/-! ## The line of a route -/

/-- The word that lists methods. -/
def methodWord (methods : List String) : List Char :=
  List.intercalate ['|'] (methods.map String.toList)

/-- The name of a route in brackets, if it has one. -/
def bracketed : Option String → List Char
  | none => []
  | some name => '[' :: name.toList ++ [']']

/-- The plainest line that declares a route. -/
def declaration (r : Route) : List Char :=
  ['#', ' ', 'r', 'o', 'u', 't', 'e'] ++ bracketed r.name ++ [':', ' '] ++
    match r.methods with
    | none => r.path.toList
    | some methods => methodWord methods ++ ' ' :: r.path.toList

/-- How that line is read where it is indented. -/
def Reading.plain (indent : List Char) (r : Route) : Reading where
  indent := indent
  gap := [' ']
  name := r.name.map String.toList
  space := [' ']
  methods := r.methods.map fun methods => (methodWord methods, [' '])
  path := r.path.toList
  trail := []

theorem Reading.text_plain (indent : List Char) (r : Route) :
    (plain indent r).text = indent ++ declaration r := by
  obtain ⟨path, methods, name⟩ := r
  cases name with
  | none => cases methods <;> simp [plain, text, nameText, methodText, declaration, bracketed]
  | some n => cases methods <;> simp [plain, text, nameText, methodText, declaration, bracketed]

theorem toList_ne_nil {s : String} (h : s ≠ "") : s.toList ≠ [] := by
  simpa using h

/-- Nothing but bars is added to the methods. -/
theorem mem_methodWord {methods : List String} {c : Char} (h : c ∈ methodWord methods) :
    c = '|' ∨ ∃ m ∈ methods, c ∈ m.toList := by
  rcases mem_of_mem_intercalate h with hbar | ⟨piece, hpiece, hc⟩
  · exact Or.inl (by simpa using hbar)
  · obtain ⟨m, hm, rfl⟩ := List.mem_map.1 hpiece
    exact Or.inr ⟨m, hm, hc⟩

theorem methodWord_ne_nil {methods : List String} (hne : methods ≠ []) (h : ∀ m ∈ methods, m ≠ "") :
    methodWord methods ≠ [] := by
  obtain ⟨m, rest, rfl⟩ := List.exists_cons_of_ne_nil hne
  have hm := toList_ne_nil (h m (by simp))
  cases rest with
  | nil => simpa [methodWord, List.intercalate] using hm
  | cons m' rest => simp [methodWord, List.intercalate]

section
variable {r : Route}

theorem methodsOk_plain (h : r.Declarable) (indent : List Char) :
    Reading.MethodsOk (Reading.plain indent r).methods := by
  intro m hm
  obtain ⟨methods, hmethods, rfl⟩ := Option.map_eq_some_iff.1 hm
  obtain ⟨hne, hall⟩ := h.methods methods hmethods
  refine ⟨⟨?_, ?_⟩, by simp, by simp [AllBlank, blanks]⟩
  · exact methodWord_ne_nil hne fun m hm => (hall m hm).1
  · intro c hc
    rcases mem_methodWord hc with hbar | ⟨m, hm, hc⟩
    · exact Or.inr hbar
    · exact Or.inl ((hall m hm).2 c hc)

theorem valid_plain (h : r.Declarable) {indent : List Char} (hi : AllBlank indent) :
    (Reading.plain indent r).Valid := by
  refine ⟨hi, by simp [Reading.plain, AllBlank, blanks], ?_,
    by simp [Reading.plain, AllBlank, blanks], methodsOk_plain h indent,
    ⟨toList_ne_nil h.path.1, h.path.2⟩, by simp [Reading.plain, AllBlank]⟩
  intro n hn
  obtain ⟨name, hname, rfl⟩ := Option.map_eq_some_iff.1 hn
  exact ⟨toList_ne_nil (h.name name hname).1, (h.name name hname).2⟩

/-- The bars are found again, so that the methods are. -/
theorem listed_methodWord {methods : List String} (hne : methods ≠ [])
    (h : ∀ m ∈ methods, m ≠ "" ∧ ∀ c ∈ m.toList, 'A' ≤ c ∧ c ≤ 'Z') (w : List Char) :
    Reading.listed (some (methodWord methods, w)) = some methods := by
  have hbar : ∀ l ∈ methods.map String.toList, '|' ∉ l := by
    intro l hl hmem
    obtain ⟨m, hm, rfl⟩ := List.mem_map.1 hl
    exact absurd ((h m hm).2 '|' hmem).2 (by decide)
  have hfilter : (methods.map String.toList).filter (· ≠ []) = methods.map String.toList := by
    rw [List.filter_eq_self]
    intro l hl
    obtain ⟨m, hm, rfl⟩ := List.mem_map.1 hl
    simpa using (h m hm).1
  have hpieces : Reading.pieces (some (methodWord methods, w)) = methods.map String.toList := by
    rw [Reading.pieces, methodWord, List.splitOn_intercalate '|' hbar (by simpa using hne), hfilter]
  rw [Reading.listed, hpieces, if_neg (by simpa using hne), List.map_map]
  simp [Function.comp_def]

theorem route_plain (h : r.Declarable) (indent : List Char) : (Reading.plain indent r).route = r := by
  obtain ⟨path, methods, name⟩ := r
  have hmethods : Reading.listed (methods.map fun ms => (methodWord ms, [' '])) = methods := by
    cases methods with
    | none => rfl
    | some ms => exact listed_methodWord (h.methods ms rfl).1 (h.methods ms rfl).2 [' ']
  simp [Reading.route, Reading.plain, hmethods, Function.comp_def]

/-- A route is scanned from the line that declares it. -/
theorem scanChars_declaration (h : r.Declarable) {indent : List Char} (hi : AllBlank indent) :
    scanChars (indent ++ declaration r) = some r := by
  rw [← Reading.text_plain]
  exact scanChars_eq_some_iff.2 ⟨_, ⟨valid_plain h hi, rfl⟩, route_plain h indent⟩

end

/-! ## The routes that lines declare -/

/-- The pieces between bars are made of the other characters. -/
theorem mem_of_mem_splitOn {cs piece : List Char} (h : piece ∈ cs.splitOn '|') :
    ∀ c ∈ piece, c ∈ cs ∧ c ≠ '|' := by
  induction cs generalizing piece with
  | nil =>
    obtain rfl : piece = [] := by simpa using h
    simp
  | cons d cs ih =>
    have hmem : ∀ p ∈ cs.splitOn '|', ∀ c ∈ p, c ∈ d :: cs ∧ c ≠ '|' := by
      intro p hp c hc
      exact ⟨List.mem_cons_of_mem d (ih hp c hc).1, (ih hp c hc).2⟩
    rw [List.splitOn_cons_eq_if_modifyHead] at h
    split at h
    · rcases List.mem_cons.1 h with rfl | hp
      · simp
      · exact hmem piece hp
    · next hd =>
      cases hs : cs.splitOn '|' with
      | nil => exact absurd hs (List.splitOn_ne_nil _ _)
      | cons first rest =>
        rw [hs] at h hmem
        rcases List.mem_cons.1 h with rfl | hp
        · intro c hc
          rcases List.mem_cons.1 hc with rfl | hc
          · exact ⟨by simp, by simpa using hd⟩
          · exact hmem first (by simp) c hc
        · exact hmem piece (List.mem_cons_of_mem first hp)

theorem Reading.Valid.declarable {p : Reading} (h : p.Valid) : p.route.Declarable := by
  refine ⟨⟨by simpa [route] using h.path.1, by simpa [route] using h.path.2⟩, ?_, ?_⟩
  · intro n hn
    obtain ⟨cs, hcs, rfl⟩ := Option.map_eq_some_iff.1 hn
    obtain ⟨hne, hall⟩ := h.name cs hcs
    exact ⟨by simpa using hne, by simpa using hall⟩
  · intro methods hmethods
    change listed p.methods = some methods at hmethods
    unfold listed at hmethods
    split at hmethods
    · cases hmethods
    · next hne =>
      obtain rfl := Option.some.inj hmethods
      refine ⟨by simpa using hne, fun m hm => ?_⟩
      obtain ⟨piece, hpiece, rfl⟩ := List.mem_map.1 hm
      cases hp : p.methods with
      | none => simp [hp, pieces] at hpiece
      | some sv =>
        rw [hp, pieces, List.mem_filter] at hpiece
        refine ⟨by simpa using hpiece.2, fun c hc => ?_⟩
        obtain ⟨hcs, hbar⟩ := mem_of_mem_splitOn hpiece.1 c (by simpa using hc)
        exact ((h.methods sv hp).1.2 c hcs).resolve_right hbar

/-- A route is declared by some line exactly if it is declarable. -/
theorem exists_scan_iff {r : Route} : (∃ line : String, scan line = some r) ↔ r.Declarable := by
  constructor
  · rintro ⟨line, h⟩
    obtain ⟨p, hp, rfl⟩ := scanChars_eq_some_iff.1 h
    exact hp.1.declarable
  · intro h
    refine ⟨String.ofList (declaration r), ?_⟩
    rw [scan, String.toList_ofList]
    have hempty : AllBlank [] := by simp [AllBlank]
    exact scanChars_declaration h hempty

/-! ## Documents -/

/-- What can stand at the end of a line. -/
def lineEnds : List (List Char) := [['\n'], ['\r', '\n']]

/-- The text has a line that declares each of the routes, in order, and no other line of it declares
anything. -/
inductive Writes : List Route → List Char → Prop
  | done : Writes [] []
  | route {r : Route} {rs : List Route} {indent fin rest : List Char} (hblank : AllBlank indent)
      (hfeed : '\n' ∉ indent) (hfin : fin ∈ lineEnds) (hrest : Writes rs rest) :
      Writes (r :: rs) (indent ++ declaration r ++ fin ++ rest)
  | other {rs : List Route} {line fin rest : List Char} (hfeed : '\n' ∉ line)
      (hscan : scan (String.ofList line) = none) (hfin : fin ∈ lineEnds) (hrest : Writes rs rest) :
      Writes rs (line ++ fin ++ rest)

/-- The first line of a text declares what it declares alone. -/
theorem ofText_cons_line {line fin : List Char} (hline : '\n' ∉ line) (hfin : fin ∈ lineEnds)
    (rest : List Char) :
    ofText (String.ofList (line ++ fin ++ rest)) =
      (scanChars line).toList ++ ofText (String.ofList rest) := by
  obtain ⟨a, hfin', ha, hblank⟩ : ∃ a, fin = a ++ ['\n'] ∧ '\n' ∉ a ∧ Blank (a ++ ['\n']) := by
    simp only [lineEnds, List.mem_cons, List.not_mem_nil, or_false] at hfin
    rcases hfin with rfl | rfl
    · exact ⟨[], rfl, by simp, by simp [Blank, isBlank]⟩
    · exact ⟨['\r'], rfl, by simp, by simp [Blank, isBlank]⟩
  have hno : ∀ c ∈ line ++ a, decide (c = '\n') = false := by
    intro c hc
    have hne : c ≠ '\n' := by
      rintro rfl
      rcases List.mem_append.1 hc with h | h
      · exact hline h
      · exact ha h
    simpa using hne
  have htext : line ++ fin ++ rest = (line ++ a) ++ '\n' :: rest := by
    rw [hfin']
    simp
  have hend : line ++ a ++ ['\n'] = line ++ (a ++ ['\n']) := List.append_assoc _ _ _
  rw [ofText_eq, htext, Line.cut_append_cons hno (by simp), List.filterMap_cons, hend,
    scanChars_append_blank hblank, ← ofText_eq]
  cases scanChars line <;> rfl

/-- What is declared is declared on one line. -/
theorem feed_not_mem_declaration {r : Route} (h : r.Declarable) : '\n' ∉ declaration r := by
  have hpath : '\n' ∉ r.path.toList := fun hc => h.path.2 _ hc (by decide)
  have hname : '\n' ∉ bracketed r.name := by
    cases hn : r.name with
    | none => simp [bracketed]
    | some n =>
      have hn' : '\n' ∉ n.toList := fun hc => absurd ((h.name n hn).2 _ hc) (by simp [NameChar])
      simp [bracketed, hn']
  cases hm : r.methods with
  | none => simp [declaration, hm, hname, hpath]
  | some methods =>
    have hword : '\n' ∉ methodWord methods := by
      intro hc
      rcases mem_methodWord hc with hbar | ⟨m, hmem, hc⟩
      · exact absurd hbar (by decide)
      · exact absurd (((h.methods methods hm).2 m hmem).2 _ hc).1 (by decide)
    simp [declaration, hm, hname, hword, hpath]

theorem ofText_of_writes {rs : List Route} {text : List Char} (h : Writes rs text)
    (hrs : ∀ r ∈ rs, r.Declarable) : ofText (String.ofList text) = rs := by
  induction h with
  | done => rfl
  | @route r rs indent fin rest hblank hfeed hfin _ ih =>
    have hr := hrs r (by simp)
    have hline : '\n' ∉ indent ++ declaration r := by
      rw [List.mem_append, not_or]
      exact ⟨hfeed, feed_not_mem_declaration hr⟩
    rw [ofText_cons_line hline hfin, scanChars_declaration hr hblank,
      ih fun s hs => hrs s (List.mem_cons_of_mem r hs)]
    rfl
  | @other rs line fin rest hfeed hscan hfin _ ih =>
    rw [scan, String.toList_ofList] at hscan
    rw [ofText_cons_line hfeed hfin, hscan, ih hrs]
    rfl

theorem ofOctets_of_writes {rs : List Route} {text : List Char} (h : Writes rs text)
    (hrs : ∀ r ∈ rs, r.Declarable) : ofOctets (Utf8.encode text) = rs := by
  rw [ofOctets_eq_ofText, Utf8.decodeLossy_encode, ofText_of_writes h hrs]

theorem defects_ofText (text : String) : Route.defects (ofText text) = [] := by
  refine Route.defects_eq_nil_iff.2 fun r hr => ?_
  obtain ⟨line, _, h⟩ := List.mem_filterMap.1 hr
  exact wellFormed_of_scanChars h

/-- **Declarations**: the routes that lines declare are the declarable ones. A document that
declares such routes one line each, among lines that declare nothing, is scanned as exactly these
routes, be it as a text, as octets, or as octets in chunks. Whatever is scanned, none of the routes
found has a defect. -/
theorem declarations_scanned :
    {r : Route | ∃ line : String, scan line = some r} = {r : Route | r.Declarable} ∧
    (∀ (rs : List Route) (text : String), (∀ r ∈ rs, r.Declarable) → Writes rs text.toList →
      ofText text = rs ∧ ofOctets (Utf8.encode text.toList) = rs ∧
        ∀ chunks : List (List UInt8), chunks.flatten = Utf8.encode text.toList →
          ofChunks chunks = rs) ∧
    (∀ text : String, Route.defects (ofText text) = []) ∧
    ∀ octets : List UInt8, Route.defects (ofOctets octets) = [] := by
  refine ⟨Set.ext fun r => exists_scan_iff, ?_, defects_ofText, defects_ofOctets⟩
  intro rs text hrs h
  refine ⟨?_, ofOctets_of_writes h hrs, fun chunks hchunks => ?_⟩
  · rw [← ofText_of_writes h hrs, String.ofList_toList]
  · rw [ofChunks, Line.ofChunks_eq, hchunks]
    exact ofOctets_of_writes h hrs

/-- A path that could list methods, and one that begins as an annotation does. -/
def lookalikes : List Route :=
  [{ path := "GET|PUT" }, { path := "#:]", methods := some ["GET"], name := some "a_1" }]

/-- Both are declared, after a line that has no blank behind its colon. -/
theorem declarations_scanned_lookalikes :
    (∀ r ∈ lookalikes, r.Declarable) ∧
      Writes lookalikes
        "# route:/a\r\n\t# route: GET|PUT\n# route[a_1]: GET #:]\r\n".toList ∧
      ofText "# route:/a\r\n\t# route: GET|PUT\n# route[a_1]: GET #:]\r\n" = lookalikes := by
  have hdeclarable : ∀ r ∈ lookalikes, r.Declarable := by
    intro r hr
    simp only [lookalikes, List.mem_cons, List.not_mem_nil, or_false] at hr
    rcases hr with rfl | rfl
    · exact exists_scan_iff.1 ⟨"#route: GET|PUT", rfl⟩
    · exact exists_scan_iff.1 ⟨"#route[a_1]:\tGET||  #:]", rfl⟩
  have hempty : AllBlank [] := by simp [AllBlank]
  have htab : AllBlank ['\t'] := by simp [AllBlank, blanks]
  have hlast : Writes [lookalikes[1]] "# route[a_1]: GET #:]\r\n".toList :=
    @Writes.route _ _ [] ['\r', '\n'] _ hempty (by decide) (by decide) .done
  have htwo : Writes lookalikes "\t# route: GET|PUT\n# route[a_1]: GET #:]\r\n".toList :=
    @Writes.route _ _ ['\t'] ['\n'] _ htab (by decide) (by decide) hlast
  have hwrites : Writes lookalikes
      "# route:/a\r\n\t# route: GET|PUT\n# route[a_1]: GET #:]\r\n".toList :=
    @Writes.other _ "# route:/a".toList ['\r', '\n'] _ (by decide) (by rfl) (by decide) htwo
  exact ⟨hdeclarable, hwrites, (declarations_scanned.2.1 _ _ hdeclarable hwrites).1⟩

end Annotations

end RouteBook
