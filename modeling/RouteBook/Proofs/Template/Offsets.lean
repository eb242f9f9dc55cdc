import RouteBook.Proofs.Template.Parts
import RouteBook.Proofs.Text.Slice
import RouteBook.Proofs.Text.Utf8

/-!
# Templates by octet offset

The scan and the filling of a template once more, as loops over octet offsets: the scan goes on
octet by octet and jumps over a placeholder, the filling copies the slice between two placeholders.
A slice that would begin or end within a character makes them fail (`none`). They never do, and
they find and write what the parts of the template say (`scan_eq`, `substitute_eq`).
-/

namespace RouteBook.Template.Offsets
open Text.Utf8

/-! ## The scan -/

/-- The offset of the first `/` of a text. -/
def slash? (text : String) : Option Nat :=
  if '/' ∈ text.toList then some (size (text.toList.takeWhile (· ≠ '/'))) else none

/-- Where a placeholder ends whose colon is at octet `pos`: before the next `/` of the text that
follows the colon, or with the template, which has `total` octets. -/
def stopAfter (pos total : Nat) (rest : String) : Nat :=
  match slash? rest with
  | some i => pos + 1 + i
  | none => total

theorem lt_stopAfter {pos total : Nat} (h : pos < total) (rest : String) :
    pos < stopAfter pos total rest := by
  unfold stopAfter
  split
  · omega
  · exact h

/-- The placeholders that begin at octet `pos` or after it. -/
def scanFrom (t : String) (pos : Nat) : Option (List Placeholder) :=
  if h : pos < (encode t.toList).length then
    if (encode t.toList)[pos] ≠ 0x3A then scanFrom t (pos + 1)
    else do
      let rest ← slice? t (pos + 1) t.utf8ByteSize
      let stop := stopAfter pos (encode t.toList).length rest
      if stop = pos + 1 then scanFrom t (pos + 1)
      else do
        let token ← slice? t pos stop
        let key ← slice? token 1 token.utf8ByteSize
        let found ← scanFrom t stop
        some ({ start := pos, stop, token, key } :: found)
  else some []
termination_by (encode t.toList).length - pos
decreasing_by
  · omega
  · omega
  · have := lt_stopAfter h rest
    omega

/-- The placeholders of a template. -/
def scan (t : String) : Option (List Placeholder) := scanFrom t 0

/-- Beyond ASCII, a character has no octet below 0x80. -/
theorem octet_high {c : Char} (h : 0x80 ≤ c.toNat) : ∀ b ∈ String.utf8EncodeChar c, 0x80 ≤ b.toNat := by
  have hsize : UInt8.size = 256 := rfl
  have hv : c.toNat < 0xD800 ∨ 0xDFFF < c.toNat ∧ c.toNat < 0x110000 := c.valid
  intro b hb
  rcases Nat.lt_or_ge c.toNat 0x800 with h2 | h2
  · rw [encodeChar_two h h2] at hb
    simp only [List.mem_cons, List.not_mem_nil, or_false] at hb
    rcases hb with rfl | rfl <;> rw [UInt8.toNat_ofNat_of_lt' (by omega)] <;> omega
  rcases Nat.lt_or_ge c.toNat 0x10000 with h3 | h3
  · rw [encodeChar_three h2 h3] at hb
    simp only [List.mem_cons, List.not_mem_nil, or_false] at hb
    rcases hb with rfl | rfl | rfl <;> rw [UInt8.toNat_ofNat_of_lt' (by omega)] <;> omega
  · rw [encodeChar_four h3] at hb
    simp only [List.mem_cons, List.not_mem_nil, or_false] at hb
    rcases hb with rfl | rfl | rfl | rfl <;> rw [UInt8.toNat_ofNat_of_lt' (by omega)] <;> omega

/-- Only a colon has the octet of a colon. -/
theorem colon_not_mem_encodeChar {c : Char} (h : c ≠ ':') : 0x3A ∉ String.utf8EncodeChar c := by
  intro hm
  rcases Nat.lt_or_ge c.toNat 0x80 with h1 | h1
  · rw [encodeChar_one h1, List.mem_singleton] at hm
    have hn := congrArg UInt8.toNat hm
    rw [UInt8.toNat_ofNat_of_lt' (by have : UInt8.size = 256 := rfl; omega)] at hn
    exact h (Char.toNat_inj.1 hn.symm)
  · have := octet_high h1 _ hm
    have h3A : (0x3A : UInt8).toNat = 0x3A := rfl
    omega

variable {t : String}

theorem scanFrom_end {pos : Nat} (h : (encode t.toList).length ≤ pos) : scanFrom t pos = some [] := by
  rw [scanFrom, dif_neg (by omega)]

/-- Octets that are no colon are passed over. -/
theorem scanFrom_append {x y z : List UInt8} (h : encode t.toList = x ++ (y ++ z)) (hy : 0x3A ∉ y) :
    scanFrom t x.length = scanFrom t (x.length + y.length) := by
  induction y generalizing x with
  | nil => rfl
  | cons b y ih =>
    have hlt : x.length < (encode t.toList).length := by simp [h]
    have hb : (encode t.toList)[x.length] ≠ 0x3A := by
      rw [List.getElem_of_append h rfl]
      rintro rfl
      simp at hy
    have hrest := ih (x := x ++ [b]) (by simp [h]) (by intro hm; exact hy (by simp [hm]))
    rw [scanFrom, dif_pos hlt, if_pos hb]
    simp only [List.length_append, List.length_cons, List.length_nil] at hrest ⊢
    rw [hrest]
    congr 1
    omega

theorem scanFrom_char {a cs : List Char} {c : Char} (h : t.toList = a ++ c :: cs) (hc : c ≠ ':') :
    scanFrom t (size a) = scanFrom t (size (a ++ [c])) := by
  have henc : encode t.toList = encode a ++ (String.utf8EncodeChar c ++ encode cs) := by
    simp [h, encode]
  have := scanFrom_append henc (colon_not_mem_encodeChar hc)
  rw [size_append, show size [c] = (String.utf8EncodeChar c).length by simp [size, encode]]
  exact this

@[simp] theorem utf8Size_colon : ':'.utf8Size = 1 := rfl

theorem stopAfter_eq {a cs : List Char} (h : t.toList = a ++ ':' :: cs) :
    stopAfter (size a) (encode t.toList).length (String.ofList cs) = size a + (1 + size (keyOf cs)) := by
  have htotal : (encode t.toList).length = size a + (1 + size cs) := by
    rw [h]
    exact (size_append _ _).trans (by simp)
  unfold stopAfter slash?
  simp only [String.toList_ofList]
  by_cases hm : '/' ∈ cs
  · rw [if_pos hm]
    simp only [keyOf]
    omega
  · rw [if_neg hm, keyOf_eq_self hm]
    exact htotal

/-- At a colon, the scan finds a placeholder and jumps behind it, unless the colon is literal. -/
theorem scanFrom_colon {a cs : List Char} (h : t.toList = a ++ ':' :: cs) :
    scanFrom t (size a) =
      if keyOf cs = [] then scanFrom t (size (a ++ [':']))
      else (scanFrom t (size (a ++ ':' :: keyOf cs))).map
        ({ start := size a, stop := size (a ++ ':' :: keyOf cs), token := tokenOf (keyOf cs),
           key := String.ofList (keyOf cs) } :: ·) := by
  have hlt : size a < (encode t.toList).length := by
    rw [h]
    change size a < size (a ++ ':' :: cs)
    simp only [size_append, size_cons, utf8Size_colon]
    omega
  have hcolon : (encode t.toList)[size a] = 0x3A := by
    have henc : encode t.toList = encode a ++ 0x3A :: encode cs := by
      rw [h, encode, List.flatMap_append, List.flatMap_cons]
      rfl
    exact List.getElem_of_append henc rfl
  have hrest : slice? t (size a + 1) t.utf8ByteSize = some (String.ofList cs) := by
    have := slice?_of_append (t := t) (a := a ++ [':']) (m := cs) (b := []) (by simp [h])
    rw [← size_toList, h]
    simpa [Nat.add_assoc] using this
  have hcs := keyOf_append_dropWhile cs
  have htoken : slice? t (size a) (size (a ++ ':' :: keyOf cs)) = some (tokenOf (keyOf cs)) := by
    have := slice?_of_append (t := t) (a := a) (m := ':' :: keyOf cs) (b := cs.dropWhile (· ≠ '/'))
      (by rw [h, List.cons_append, hcs])
    rwa [size_append]
  have hkey : slice? (tokenOf (keyOf cs)) 1 (tokenOf (keyOf cs)).utf8ByteSize =
      some (String.ofList (keyOf cs)) := by
    have := slice?_of_append (t := tokenOf (keyOf cs)) (a := [':']) (m := keyOf cs) (b := [])
      (by simp [tokenOf])
    rw [← size_toList]
    simpa [tokenOf] using this
  rw [scanFrom, dif_pos hlt, if_neg (by simp [hcolon]), hrest]
  simp only [Option.bind_eq_bind, Option.bind_some, stopAfter_eq h]
  by_cases hnil : keyOf cs = []
  · rw [if_pos hnil, if_pos (by simp [hnil])]
    simp
  · have hpos := size_pos hnil
    have hstop : size a + (1 + size (keyOf cs)) = size (a ++ ':' :: keyOf cs) := by simp
    rw [if_neg hnil, if_neg (by omega), hstop, htoken]
    simp only [Option.bind_some, hkey]
    cases scanFrom t (size (a ++ ':' :: keyOf cs)) <;> rfl

/-- From a place between two characters on, the scan finds the placeholders among the parts. -/
theorem scanFrom_eq {a cs : List Char} (h : t.toList = a ++ cs) :
    scanFrom t (size a) = some (locate (size a) (parts cs)) := by
  fun_induction parts cs generalizing a with
  | case1 =>
    refine scanFrom_end ?_
    rw [h, List.append_nil]
    exact Nat.le_refl _
  | case2 c cs hc ih =>
    obtain ⟨rfl, hkey⟩ := hc
    have hrest : t.toList = (a ++ ':' :: keyOf cs) ++ cs.dropWhile (· ≠ '/') := by
      rw [h, List.append_assoc, List.cons_append, keyOf_append_dropWhile]
    rw [scanFrom_colon h, if_neg hkey, ih hrest, size_append]
    rfl
  | case3 c cs hc ih =>
    have hstep : scanFrom t (size a) = scanFrom t (size (a ++ [c])) := by
      by_cases hcolon : c = ':'
      · subst hcolon
        have hkey : keyOf cs = [] := by simpa using hc
        rw [scanFrom_colon h, if_pos hkey]
      · exact scanFrom_char h hcolon
    rw [hstep, ih (by simp [h]), size_append]
    rfl

/-- **The scan by octets** finds the placeholders, and no slice of it fails. -/
theorem scan_eq (t : String) : scan t = some (placeholders t) :=
  scanFrom_eq (a := []) rfl

/-! ## The gaps -/

/-- The slices of a template from octet `last` on: up to each of the placeholders `ps`, and from the
end of the last of them to the end of the template. -/
def gapsFrom (t : String) (last : Nat) : List Placeholder → Option (List String)
  | [] => do
    let gap ← slice? t last t.utf8ByteSize
    some [gap]
  | p :: ps => do
    let gap ← slice? t last p.start
    let later ← gapsFrom t p.stop ps
    some (gap :: later)

theorem modifyHead_nil_append (gs : List (List Char)) : gs.modifyHead ([] ++ ·) = gs := by
  cases gs <;> rfl

/-- Behind `a`, the gap that has begun with `g` goes on among the parts `ps`. -/
theorem gapsFrom_locate {a g : List Char} {ps : List Part}
    (h : t.toList = a ++ (g ++ ps.flatMap Part.text)) :
    gapsFrom t (size a) (locate (size a + size g) ps) =
      some (((gaps ps).modifyHead (g ++ ·)).map String.ofList) := by
  induction ps generalizing a g with
  | nil =>
    have hgap := slice?_of_append (t := t) (a := a) (m := g) (b := []) (by simpa using h)
    have hend : t.utf8ByteSize = size a + size g := by
      rw [← size_toList, h]
      simp
    rw [locate, gapsFrom, hend, hgap]
    simp [gaps]
  | cons p ps ih =>
    cases p with
    | literal c =>
      have hlater := ih (a := a) (g := g ++ [c]) (by simpa [Part.text] using h)
      rw [locate]
      simp only [Part.text]
      rw [Nat.add_assoc, ← size_append, hlater, gaps, List.modifyHead_modifyHead]
      simp [Function.comp_def]
    | hole key =>
      have hgap := slice?_of_append (t := t) (a := a) (m := g) (b := (':' :: key) ++ ps.flatMap Part.text)
        (by simpa [Part.text] using h)
      have hlater := ih (a := a ++ (g ++ ':' :: key)) (g := []) (by simpa [Part.text] using h)
      have hstop : size a + size g + size (':' :: key) = size (a ++ (g ++ ':' :: key)) := by
        simp only [size_append]
        omega
      rw [size_nil, Nat.add_zero, modifyHead_nil_append] at hlater
      rw [locate]
      simp only [Part.text, gapsFrom, hgap, hstop, hlater]
      simp [gaps]

/-- The gaps of a template. -/
def gapTexts (t : String) : List String := (gaps (parts t.toList)).map String.ofList

theorem join_alternate_gapTexts (t : String) (values : List String) :
    String.join (alternate (gapTexts t) values) =
      String.ofList (filled (parts t.toList) (values.map String.toList)) := by
  have hvalues : values = (values.map String.toList).map String.ofList := by simp
  conv_lhs => rw [hvalues, gapTexts, alternate_map, String.join_eq, List.map_map]
  simp [filled, Function.comp_def]

/-- With its own tokens between the gaps, a template is what it was. -/
theorem join_gapTexts_tokens (t : String) :
    String.join (alternate (gapTexts t) ((placeholders t).map Placeholder.token)) = t := by
  have htokens := filled_tokens (parts t.toList)
  rw [flatMap_text_parts] at htokens
  rw [join_alternate_gapTexts, placeholders, map_token_locate]
  simp [tokenOf, Function.comp_def, htokens]

theorem length_gapTexts (t : String) : (gapTexts t).length = (placeholders t).length + 1 := by
  rw [gapTexts, List.length_map, length_gaps, ← keys_placeholders, List.length_map]

theorem gapsFrom_placeholders (t : String) : gapsFrom t 0 (placeholders t) = some (gapTexts t) := by
  have h : gapsFrom t 0 (locate 0 (parts t.toList)) =
      some (((gaps (parts t.toList)).modifyHead ([] ++ ·)).map String.ofList) :=
    gapsFrom_locate (a := []) (g := []) (by simp [flatMap_text_parts])
  rwa [modifyHead_nil_append] at h

/-! ## The filling -/

section
variable {σ : Type}

/-- Goes on with the text `out`, which has been written for the template up to octet `last`: the
slice up to the next placeholder, then the value that `valueFor` gives for it. -/
def substituteFrom (t : String) (valueFor : σ → Placeholder → Except Refusal (String × σ))
    (out : String) (last : Nat) (s : σ) :
    List Placeholder → Option (Except Refusal (String × σ))
  | [] => do
    let gap ← slice? t last t.utf8ByteSize
    some (.ok (out ++ gap, s))
  | p :: ps => do
    let gap ← slice? t last p.start
    match valueFor s p with
    | .error e => some (.error e)
    | .ok (v, s') => substituteFrom t valueFor (out ++ gap ++ v) p.stop s' ps

/-- The template with each placeholder replaced by the value for it. -/
def substitute (t : String) (valueFor : σ → Placeholder → Except Refusal (String × σ)) (s : σ) :
    Option (Except Refusal (String × σ)) := do
  let ps ← scan t
  substituteFrom t valueFor "" 0 s ps

/-- The loop writes the gaps in turn with the values that are chosen. -/
theorem substituteFrom_eq (valueFor : σ → Placeholder → Except Refusal (String × σ)) (out : String)
    {last : Nat} (s : σ) {ps : List Placeholder} {gs : List String} (h : gapsFrom t last ps = some gs) :
    substituteFrom t valueFor out last s ps = some ((choose valueFor s ps).map fun (vs, rest) =>
      (out ++ String.join (alternate gs vs), rest)) := by
  induction ps generalizing out last s gs with
  | nil =>
    simp only [gapsFrom, Option.bind_eq_bind, Option.bind_eq_some_iff, Option.some.injEq] at h
    obtain ⟨gap, hgap, rfl⟩ := h
    simp [substituteFrom, hgap, choose, Except.map, alternate]
  | cons p ps ih =>
    simp only [gapsFrom, Option.bind_eq_bind, Option.bind_eq_some_iff, Option.some.injEq] at h
    obtain ⟨gap, hgap, later, hlater, rfl⟩ := h
    simp only [substituteFrom, hgap, Option.bind_eq_bind, Option.bind_some]
    cases hv : valueFor s p with
    | error e => rw [choose_cons_error hv]; rfl
    | ok result =>
      obtain ⟨v, s'⟩ := result
      simp only
      rw [ih (out ++ gap ++ v) s' hlater, choose_cons_ok hv]
      cases choose valueFor s' ps <;> simp [Except.map, alternate, String.append_assoc]

/-- **Filling by octets** puts the chosen values between the gaps, and no slice of it fails. -/
theorem substitute_eq (t : String) (valueFor : σ → Placeholder → Except Refusal (String × σ)) (s : σ) :
    substitute t valueFor s = some ((choose valueFor s (placeholders t)).map fun (vs, rest) =>
      (String.join (alternate (gapTexts t) vs), rest)) := by
  have h := substituteFrom_eq valueFor "" s (gapsFrom_placeholders t)
  simp only [String.empty_append] at h
  rw [substitute, scan_eq]
  exact h

end

/-! ## Filling the template of a route -/

/-- The value that pairs hold for a placeholder. -/
def keyedValue (name : String) (pairs : List (String × String)) (_ : Unit) (p : Placeholder) :
    Except Refusal (String × Unit) :=
  match lastValue? pairs p.key with
  | none => .error (.missingValue name p.token)
  | some v => .ok (v, ())

/-- The next of the values that are left. -/
def nextValue (name : String) (values : List String) (p : Placeholder) :
    Except Refusal (String × List String) :=
  match values with
  | [] => .error (.tooFewValues name p.token)
  | v :: rest => .ok (v, rest)

/-- Fills the template of the route `name`. Values left over are noticed after the last placeholder. -/
def fill (name t : String) : Option Values → Option (Except Refusal String)
  | none => some (.ok t)
  | some (.keyed pairs) => do
    let result ← substitute t (keyedValue name pairs) ()
    some (result.map Prod.fst)
  | some (.positional values) => do
    match ← substitute t (nextValue name) values with
    | .error e => some (.error e)
    | .ok (path, []) => some (.ok path)
    | .ok (_, _ :: _) => some (.error (.tooManyValues name))

theorem choose_keyedValue (name t : String) (pairs : List (String × String)) :
    choose (keyedValue name pairs) () (placeholders t) =
      (choose (byKey (lastValue? pairs)) () (keys (parts t.toList))).mapError
        fun key => .missingValue name (tokenOf key) := by
  rw [← keys_placeholders]
  refine choose_mapError ?_
  intro s p hp
  unfold keyedValue byKey
  rw [String.ofList_toList, token_of_mem_placeholders hp]
  cases lastValue? pairs p.key <;> rfl

theorem choose_nextValue (name t : String) (values : List String) :
    choose (nextValue name) values (placeholders t) =
      (choose inTurn values (keys (parts t.toList))).mapError
        fun key => .tooFewValues name (tokenOf key) := by
  rw [← keys_placeholders]
  refine choose_mapError ?_
  intro s p hp
  unfold nextValue inTurn
  rw [token_of_mem_placeholders hp]
  cases s <;> rfl

/-- **By octets and by parts**, a template is filled alike, and no slice fails. -/
theorem fill_eq (name t : String) (values : Option Values) :
    fill name t values = some (fillTemplate name t values) := by
  cases values with
  | none => rfl
  | some values =>
    cases values with
    | keyed pairs =>
      simp only [fill, fillTemplate, substitute_eq, choose_keyedValue, fillKeyed_eq_choose]
      cases choose (byKey (lastValue? pairs)) () (keys (parts t.toList)) <;>
        simp [Except.map, Except.mapError, join_alternate_gapTexts]
    | positional values =>
      simp only [fill, fillTemplate, substitute_eq, choose_nextValue, fillPositional_eq_choose]
      cases choose inTurn values (keys (parts t.toList)) with
      | error key => rfl
      | ok result =>
        obtain ⟨vs, rest⟩ := result
        cases rest <;> simp [Except.map, Except.mapError, join_alternate_gapTexts]

end RouteBook.Template.Offsets
