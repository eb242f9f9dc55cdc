import RouteBook.Proofs.Annotations.FrontEnds
import RouteBook.Annotations

/-!
# Lines and files are scanned apart

Octets that end with a line feed can be cut off in front: what follows is scanned as if nothing
had been there (`ofOctets_append`). A line feed at the end of octets, or one more, makes no
difference (`ofOctets_append_feed`), so that a line declares the same wherever it stands, and files
that are scanned one after the other are like one text in which a line feed follows each of them.
Main statement: `lines_and_files_apart`.
-/

namespace RouteBook

namespace Text.Line

/-- A text is empty, or its last line has its end mark. -/
def EndsLine {α : Type} (isEnd : α → Bool) (cs : List α) : Prop :=
  cs = [] ∨ ∃ c, cs.getLast? = some c ∧ isEnd c = true

section
variable {α : Type} {isEnd : α → Bool}

theorem EndsLine.of_append_cons {a b : List α} {c : α} (h : EndsLine isEnd (a ++ c :: b)) :
    EndsLine isEnd b := by
  rcases h with h | ⟨x, hx, hend⟩
  · simp at h
  · cases b with
    | nil => exact Or.inl rfl
    | cons y b =>
      refine Or.inr ⟨x, ?_, hend⟩
      rw [List.getLast?_append_of_ne_nil _ (List.cons_ne_nil _ _), List.getLast?_cons_cons] at hx
      exact hx

theorem EndsLine.eq_nil {a : List α} (h : EndsLine isEnd a) (ha : ∀ c ∈ a, isEnd c = false) :
    a = [] := by
  rcases h with h | ⟨c, hc, hend⟩
  · exact h
  · rw [ha c (List.mem_of_getLast? hc)] at hend
    cases hend

/-- **Cutting in two steps**: where a line ends, the lines before and after are cut apart. -/
theorem cut_append {a : List α} (h : EndsLine isEnd a) (b : List α) :
    cut isEnd (a ++ b) = cut isEnd a ++ cut isEnd b := by
  induction a using lines_induction isEnd with
  | last a ha =>
    obtain rfl := h.eq_nil ha
    rfl
  | more a c rest ha hc ih =>
    rw [List.append_assoc, List.cons_append, cut_append_cons ha hc, ih h.of_append_cons,
      cut_append_cons ha hc, List.cons_append]

end

end Text.Line

namespace Annotations
open Text

/-- Octets that are empty or end with a line feed. -/
abbrev EndsLine (bs : List UInt8) : Prop := Line.EndsLine (· = 0x0A) bs

theorem ofLines_append (a b : List (List UInt8)) : ofLines (a ++ b) = ofLines a ++ ofLines b :=
  List.filterMap_append

/-! ## One line -/

theorem scanChars_feed (line : List UInt8) :
    scanChars (Utf8.decodeLossy (line ++ [0x0A])) = scanChars (Utf8.decodeLossy line) := by
  have hblank : Blank ['\n'] := by simp [Blank, isBlank]
  rw [Utf8.decodeLossy_feed, Utf8.decodeLossy_eq_nil_iff.2 rfl, scanChars_append_blank hblank]

theorem scanChars_nil : scanChars [] = none := rfl

theorem ofOctets_nil : ofOctets [] = [] := rfl

theorem ofOctets_of_no_feed {line : List UInt8} (h : ∀ b ∈ line, decide (b = 0x0A) = false) :
    ofOctets line = (scanChars (Utf8.decodeLossy line)).toList := by
  rw [ofOctets, Line.ofOctets, Line.cut_of_no_end h]
  by_cases hnil : line = []
  · rw [if_pos hnil, hnil, Utf8.decodeLossy_eq_nil_iff.2 rfl, scanChars_nil]
    rfl
  · rw [if_neg hnil, ofLines, List.filterMap_cons, List.filterMap_nil]
    cases scanChars (Utf8.decodeLossy line) <;> rfl

/-- The first line declares what it declares alone, and the others what they declare without it. -/
theorem ofOctets_cons_line {line : List UInt8} (h : ∀ b ∈ line, decide (b = 0x0A) = false)
    (rest : List UInt8) :
    ofOctets (line ++ 0x0A :: rest) = (scanChars (Utf8.decodeLossy line)).toList ++ ofOctets rest := by
  rw [ofOctets, Line.ofOctets, Line.cut_append_cons h (by simp), ofLines, List.filterMap_cons,
    scanChars_feed]
  cases scanChars (Utf8.decodeLossy line) <;> rfl

/-! ## Lines before and after -/

theorem ofOctets_append {a : List UInt8} (h : EndsLine a) (b : List UInt8) :
    ofOctets (a ++ b) = ofOctets a ++ ofOctets b := by
  rw [ofOctets, Line.ofOctets, Line.cut_append h, ofLines_append]
  rfl

theorem ofOctets_append_feed (a : List UInt8) : ofOctets (a ++ [0x0A]) = ofOctets a := by
  induction a using Line.lines_induction (· = (0x0A : UInt8)) with
  | last a ha => rw [ofOctets_cons_line ha, ofOctets_of_no_feed ha, ofOctets_nil, List.append_nil]
  | more a c b ha hc ih =>
    obtain rfl : c = 0x0A := by simpa using hc
    rw [List.append_assoc, List.cons_append, ofOctets_cons_line ha, ih, ofOctets_cons_line ha]

theorem endsLine_append_feed (a : List UInt8) : EndsLine (a ++ [0x0A]) :=
  Or.inr ⟨0x0A, by simp, by simp⟩

/-- Whatever stands on the lines in between, the lines before and after do not see it. -/
theorem ofOctets_append_between {a : List UInt8} (h : EndsLine a) (between b : List UInt8) :
    ofOctets (a ++ (between ++ 0x0A :: b)) = ofOctets a ++ (ofOctets between ++ ofOctets b) := by
  have hsplit : between ++ 0x0A :: b = (between ++ [0x0A]) ++ b := by simp
  rw [ofOctets_append h, hsplit, ofOctets_append (endsLine_append_feed between),
    ofOctets_append_feed]

theorem ofOctets_flatMap_feed (parts : List (List UInt8)) :
    ofOctets (parts.flatMap (· ++ [0x0A])) = parts.flatMap ofOctets := by
  induction parts with
  | nil => rfl
  | cons part parts ih =>
    rw [List.flatMap_cons, List.flatMap_cons, ofOctets_append (endsLine_append_feed part),
      ofOctets_append_feed, ih]

/-- Every line declares a route or none by itself. -/
theorem ofOctets_lines {lines : List (List UInt8)} (h : ∀ line ∈ lines, 0x0A ∉ line) :
    ofOctets (lines.flatMap (· ++ [0x0A])) =
      lines.filterMap fun line => scanChars (Utf8.decodeLossy line) := by
  rw [ofOctets_flatMap_feed]
  induction lines with
  | nil => rfl
  | cons line lines ih =>
    have hline : ∀ b ∈ line, decide (b = 0x0A) = false := by
      intro b hb
      have hne : b ≠ 0x0A := fun e => h line (by simp) (e ▸ hb)
      simpa using hne
    rw [List.flatMap_cons, ofOctets_of_no_feed hline, ih fun l hl => h l (by simp [hl]),
      List.filterMap_cons]
    cases scanChars (Utf8.decodeLossy line) <;> rfl

end Annotations

/-! ## Files -/

namespace Source
open Annotations

section
variable {tree : FileTree}

/-- The contents of files, in the order in which they are named. -/
def Contents (tree : FileTree) (paths : List String) (contents : List (List UInt8)) : Prop :=
  List.Forall₂ (fun path content => tree.read path = .ok content) paths contents

/-- A file can be read. -/
def Readable (tree : FileTree) (path : String) : Prop :=
  ∃ content, tree.read path = .ok content

/-- The first of the paths that cannot be read, and why. -/
def FirstFault (tree : FileTree) (paths : List String) (fault : FileFault) : Prop :=
  ∃ before path after, paths = before ++ path :: after ∧ (∀ p ∈ before, Readable tree p) ∧
    tree.read path = .error fault

theorem scan_cons_of_read {path : String} {content : List UInt8} (h : tree.read path = .ok content)
    (paths : List String) :
    (scan tree (path :: paths)).1 = (scan tree paths).1.map (ofOctets content ++ ·) := by
  rw [scan, h]

theorem scan_cons_of_fault {path : String} {fault : FileFault} (h : tree.read path = .error fault)
    (paths : List String) : (scan tree (path :: paths)).1 = .error fault := by
  rw [scan, h]

theorem scan_of_contents {paths : List String} {contents : List (List UInt8)}
    (h : Contents tree paths contents) : (scan tree paths).1 = .ok (contents.flatMap ofOctets) := by
  induction h with
  | nil => rfl
  | cons hread _ ih =>
    rw [scan_cons_of_read hread, ih]
    rfl

theorem scan_of_firstFault {paths : List String} {fault : FileFault}
    (h : FirstFault tree paths fault) : (scan tree paths).1 = .error fault := by
  obtain ⟨before, path, after, rfl, hbefore, hfault⟩ := h
  induction before with
  | nil => exact scan_cons_of_fault hfault after
  | cons p before ih =>
    obtain ⟨content, hread⟩ := hbefore p (by simp)
    rw [List.cons_append, scan_cons_of_read hread, ih fun q hq => hbefore q (by simp [hq])]
    rfl

/-- All files can be read, or there is a first that cannot. -/
theorem contents_or_firstFault (tree : FileTree) (paths : List String) :
    (∃ contents, Contents tree paths contents) ∨ ∃ fault, FirstFault tree paths fault := by
  induction paths with
  | nil => exact Or.inl ⟨[], .nil⟩
  | cons path paths ih =>
    cases hread : tree.read path with
    | error fault => exact Or.inr ⟨fault, [], path, paths, rfl, by simp, hread⟩
    | ok content =>
      rcases ih with ⟨contents, h⟩ | ⟨fault, before, p, after, rfl, hbefore, hfault⟩
      · exact Or.inl ⟨content :: contents, .cons hread h⟩
      · refine Or.inr ⟨fault, path :: before, p, after, rfl, ?_, hfault⟩
        intro q hq
        rcases List.mem_cons.1 hq with rfl | hq
        · exact ⟨content, hread⟩
        · exact hbefore q hq

theorem scan_eq_ok_iff {paths : List String} {routes : List Route} :
    (scan tree paths).1 = .ok routes ↔
      ∃ contents, Contents tree paths contents ∧ routes = contents.flatMap ofOctets := by
  constructor
  · intro h
    rcases contents_or_firstFault tree paths with ⟨contents, hc⟩ | ⟨fault, hf⟩
    · rw [scan_of_contents hc] at h
      exact ⟨contents, hc, (Except.ok.inj h).symm⟩
    · rw [scan_of_firstFault hf] at h
      cases h
  · rintro ⟨contents, hc, rfl⟩
    exact scan_of_contents hc

theorem scan_eq_error_iff {paths : List String} {fault : FileFault} :
    (scan tree paths).1 = .error fault ↔ FirstFault tree paths fault := by
  constructor
  · intro h
    rcases contents_or_firstFault tree paths with ⟨contents, hc⟩ | ⟨fault', hf⟩
    · rw [scan_of_contents hc] at h
      cases h
    · rw [scan_of_firstFault hf] at h
      cases h
      exact hf
  · exact scan_of_firstFault

theorem exists_contents_iff {paths : List String} :
    (∃ contents, Contents tree paths contents) ↔ ∀ path ∈ paths, Readable tree path := by
  constructor
  · rintro ⟨contents, h⟩ path hpath
    induction h with
    | nil => simp at hpath
    | cons hread _ ih =>
      rcases List.mem_cons.1 hpath with rfl | hmem
      · exact ⟨_, hread⟩
      · exact ih hmem
  · intro h
    rcases contents_or_firstFault tree paths with hc | ⟨fault, before, path, after, rfl, _, hfault⟩
    · exact hc
    · obtain ⟨content, hread⟩ := h path (by simp)
      rw [hread] at hfault
      cases hfault

end

/-- **Locality**: octets that end with a line feed are scanned apart from those that follow, in
whatever chunks they arrive; what stands on a line has no effect but on what this line declares.
Files are scanned each by itself, and their routes joined in the order in which they are named, a
file that is named twice counting twice; a line feed at the end of a file makes no difference. The
first file that cannot be read decides, if there is one. -/
theorem lines_and_files_apart :
    (∀ a b, EndsLine a → ofOctets (a ++ b) = ofOctets a ++ ofOctets b ∧
      ∀ chunks : List (List UInt8), chunks.flatten = a ++ b →
        ofChunks chunks = ofOctets a ++ ofOctets b) ∧
    (∀ a between b, EndsLine a →
      ofOctets (a ++ (between ++ 0x0A :: b)) = ofOctets a ++ (ofOctets between ++ ofOctets b)) ∧
    (∀ lines : List (List UInt8), (∀ line ∈ lines, 0x0A ∉ line) →
      ofOctets (lines.flatMap (· ++ [0x0A])) =
        lines.filterMap fun line => scanChars (Text.Utf8.decodeLossy line)) ∧
    ∀ (tree : FileTree) (paths : List String),
      ((∃ routes, (scan tree paths).1 = .ok routes) ↔ ∀ path ∈ paths, Readable tree path) ∧
      (∀ contents, Contents tree paths contents →
        (scan tree paths).1 = .ok (contents.flatMap ofOctets) ∧
        (scan tree paths).1 = .ok (ofOctets (contents.flatMap (· ++ [0x0A])))) ∧
      ∀ fault, (scan tree paths).1 = .error fault ↔ FirstFault tree paths fault := by
  refine ⟨fun a b ha => ⟨ofOctets_append ha b, fun chunks hchunks => ?_⟩,
    fun a between b ha => ofOctets_append_between ha between b, fun lines => ofOctets_lines,
    fun tree paths => ⟨?_, fun contents hc => ?_, fun fault => scan_eq_error_iff⟩⟩
  · rw [← ofOctets_append ha, ← hchunks, ofChunks, Text.Line.ofChunks_eq]
    rfl
  · rw [← exists_contents_iff]
    constructor
    · rintro ⟨routes, h⟩
      obtain ⟨contents, hc, _⟩ := scan_eq_ok_iff.1 h
      exact ⟨contents, hc⟩
    · rintro ⟨contents, hc⟩
      exact ⟨_, scan_of_contents hc⟩
  · rw [ofOctets_flatMap_feed]
    exact ⟨scan_of_contents hc, scan_of_contents hc⟩

/-- A line that breaks off within a character. -/
def brokenOff : List UInt8 := [0x23, 0xE2, 0x82, 0x0A]

/-- Two files; the first has no line feed, and breaks off within a character. -/
def openEnded : FileTree :=
  { entries := [(["a"], .file (Text.Utf8.encode "# route: /a".toList ++ [0xE2])),
      (["b"], .file (Text.Utf8.encode "# route: /b".toList))] }

theorem lines_and_files_apart_brokenOff :
    EndsLine brokenOff ∧
      ofOctets (brokenOff ++ Text.Utf8.encode "# route: /b".toList) = [{ path := "/b" }] ∧
      (∀ path ∈ ["a", "b", "a"], Readable openEnded path) ∧
      (scan openEnded ["a", "b", "a"]).1 =
        .ok [{ path := "/a\uFFFD" }, { path := "/b" }, { path := "/a\uFFFD" }] ∧
      FirstFault openEnded ["a", "c", "d"] .notFound := by
  have hends : EndsLine brokenOff := Or.inr ⟨0x0A, rfl, rfl⟩
  obtain ⟨hlines, _, _, hfiles⟩ := lines_and_files_apart
  have hcontents : Contents openEnded ["a", "b", "a"] _ :=
    .cons rfl (.cons rfl (.cons rfl .nil))
  refine ⟨hends, ?_, ?_, (hfiles openEnded ["a", "b", "a"]).2.1 _ hcontents |>.1, ?_⟩
  · rw [(hlines brokenOff _ hends).1]
    rfl
  · exact (hfiles openEnded ["a", "b", "a"]).1.1 ⟨_, (hfiles _ _).2.1 _ hcontents |>.1⟩
  · exact ((hfiles openEnded ["a", "c", "d"]).2.2 .notFound).1 rfl

end Source

end RouteBook
