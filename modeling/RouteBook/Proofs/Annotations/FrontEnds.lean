import RouteBook.Proofs.Annotations.Grammar
import RouteBook.Proofs.Text.Line
import RouteBook.Proofs.Text.Lossy

/-!
# Octets and texts

The scanner has two ways in: octets, cut at 0x0A and decoded line by line, and a text, cut into
lines without their end marks. Two facts make them agree: lossy decoding commutes with cutting
(`map_decodeLossy_ofOctets`), also where a line feed breaks off a sequence, and the scanner does
not see blanks at the end of a line (`scanChars_append_blank`), so that the end marks that only
one of the ways keeps make no difference. Main statement: `ofChunks_eq_ofText_lossy`.
-/

namespace RouteBook.Annotations
open Text

/-! ## Blanks at the end of a line -/

/-- Where a text that ends with a word is followed by blanks, blanks cut off the end of the
whole are blanks that follow. -/
theorem exists_trail_of_append_blank {a p trail line w : List Char} (hp : IsWord p) (hw : Blank w)
    (h : a ++ p ++ trail = line ++ w) : ∃ t, trail = t ++ w ∧ line = a ++ p ++ t := by
  rcases List.append_eq_append_iff.1 h with ⟨t, hl, ht⟩ | ⟨v, hv, rfl⟩
  · exact ⟨t, ht, hl⟩
  · cases hvn : v with
    | nil => exact ⟨[], rfl, by simp [hv, hvn]⟩
    | cons c v' =>
      -- The cut would go through the word, whose last character is not blank.
      have hne : v ≠ [] := by simp [hvn]
      have hlast : (a ++ p).getLast? = (line ++ v).getLast? := congrArg _ hv
      rw [List.getLast?_append_of_ne_nil _ hp.1, List.getLast?_append_of_ne_nil _ hne,
        List.getLast?_eq_some_getLast hp.1, List.getLast?_eq_some_getLast hne] at hlast
      have hb := (blank_append.1 hw).1 _ (List.getLast_mem hne)
      rw [← Option.some.inj hlast, hp.2 _ (List.getLast_mem hp.1)] at hb
      cases hb

theorem scanChars_append_blank {w : List Char} (hw : Blank w) (line : List Char) :
    scanChars (line ++ w) = scanChars line := by
  refine Option.ext fun r => ?_
  rw [scanChars_eq_some_iff, scanChars_eq_some_iff]
  constructor
  · rintro ⟨p, ⟨hv, ht⟩, rfl⟩
    obtain ⟨a, ha⟩ : ∃ a, ∀ trail, { p with trail := trail }.text = a ++ p.path ++ trail :=
      ⟨p.indent ++ '#' :: (p.gap ++ 'r' :: 'o' :: 'u' :: 't' :: 'e' :: (Reading.nameText p.name ++
        ':' :: (p.space ++ Reading.methodText p.methods))), fun _ => by simp [Reading.text]⟩
    obtain ⟨t, htr, rfl⟩ := exists_trail_of_append_blank (isWord_iff.2 hv.path) hw
      ((ha p.trail).symm.trans ht)
    have htrail : AllBlank t := fun c hc => hv.trail c (by simp [htr, hc])
    exact ⟨{ p with trail := t }, ⟨{ hv with trail := htrail }, ha t⟩, rfl⟩
  · rintro ⟨p, ⟨hv, rfl⟩, rfl⟩
    have htrail : AllBlank (p.trail ++ w) :=
      blank_iff.1 (blank_append.2 ⟨blank_iff.2 hv.trail, hw⟩)
    exact ⟨{ p with trail := p.trail ++ w }, ⟨{ hv with trail := htrail }, by simp [Reading.text]⟩, rfl⟩

theorem scanChars_dropEnd (line : List Char) : scanChars (Line.dropEnd line) = scanChars line := by
  obtain ⟨w, hw, e⟩ := Line.exists_dropEnd_append line
  conv_rhs => rw [e]
  exact (scanChars_append_blank hw _).symm

/-! ## Decoding and cutting -/

/-- Octets without a line feed are read as characters without one. -/
theorem decodeLossy_no_end {bs : List UInt8} (h : ∀ b ∈ bs, decide (b = 0x0A) = false) :
    ∀ c ∈ Utf8.decodeLossy bs, decide (c = '\n') = false := by
  have hb : ∀ b ∈ bs, b ≠ 0x0A := fun b hb => by simpa using h b hb
  have hfeed := Utf8.feed_not_mem_decodeLossy hb
  intro c hc
  simpa using fun e : c = '\n' => hfeed (e ▸ hc)

/-- **Decoding and cutting commute**: the lines of octets, each decoded alone, are the lines of
the octets decoded together. -/
theorem map_decodeLossy_ofOctets (bs : List UInt8) :
    (Line.ofOctets bs).map Utf8.decodeLossy = Line.cut (· = '\n') (Utf8.decodeLossy bs) := by
  unfold Line.ofOctets
  induction bs using Line.lines_induction (· = (0x0A : UInt8)) with
  | last a ha =>
    have ha' := decodeLossy_no_end ha
    rw [Line.cut_of_no_end ha, Line.cut_of_no_end ha']
    by_cases h : a = []
    · simp [h, Utf8.decodeLossy_eq_nil_iff.2]
    · simp [h, Utf8.decodeLossy_eq_nil_iff]
  | more a c b ha hc ih =>
    obtain rfl : c = 0x0A := by simpa using hc
    have ha' := decodeLossy_no_end ha
    have hline : Utf8.decodeLossy (a ++ [0x0A]) = Utf8.decodeLossy a ++ ['\n'] := by
      rw [Utf8.decodeLossy_feed, Utf8.decodeLossy_eq_nil_iff.2 rfl]
    rw [Line.cut_append_cons ha hc, List.map_cons, ih, hline, Utf8.decodeLossy_feed,
      Line.cut_append_cons ha' (by simp)]

/-- The end marks that are cut off a text need not be. -/
theorem ofText_eq (cs : List Char) :
    ofText (String.ofList cs) = (Line.cut (· = '\n') cs).filterMap scanChars := by
  have hscan : scanChars ∘ Line.dropEnd = scanChars := funext scanChars_dropEnd
  rw [ofText, Line.ofText, List.filterMap_map, hscan, String.toList_ofList]

theorem ofOctets_eq_ofText (bs : List UInt8) :
    ofOctets bs = ofText (String.ofList (Utf8.decodeLossy bs)) := by
  calc ofOctets bs
      = ((Line.ofOctets bs).map Utf8.decodeLossy).filterMap scanChars := by
        rw [List.filterMap_map]; rfl
    _ = (Line.cut (· = '\n') (Utf8.decodeLossy bs)).filterMap scanChars := by
        rw [map_decodeLossy_ofOctets]
    _ = ofText (String.ofList (Utf8.decodeLossy bs)) := (ofText_eq _).symm

/-- **The two ways in agree**: octets, in whatever chunks they arrive, declare the routes of the
text that they are in lossy reading. Lossy reading is the only one of its kind, and reads the
octets of a text as that text. -/
theorem ofChunks_eq_ofText_lossy (chunks : List (List UInt8)) :
    ofChunks chunks = ofText (String.ofList (Utf8.decodeLossy chunks.flatten)) ∧
      ofChunks chunks = ofOctets chunks.flatten ∧
      (∀ text, Utf8.Lossy chunks.flatten text ↔ text = Utf8.decodeLossy chunks.flatten) ∧
      ∀ text : String, ofOctets (Utf8.encode text.toList) = ofText text := by
  have hchunks : ofChunks chunks = ofOctets chunks.flatten := by
    rw [ofChunks, Line.ofChunks_eq]; rfl
  refine ⟨hchunks.trans (ofOctets_eq_ofText _), hchunks, fun text => Utf8.lossy_iff, fun text => ?_⟩
  rw [ofOctets_eq_ofText, Utf8.decodeLossy_encode, String.ofList_toList]

end RouteBook.Annotations
