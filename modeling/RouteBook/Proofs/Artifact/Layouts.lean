import RouteBook.Proofs.Artifact.RoundTrip
import RouteBook.Proofs.Json.Zones

/-!
# The two layouts of an artifact

The indented artifact of routes is the compact one with line breaks and blanks between its lexemes, and
closing it up gives the compact one back (`closeUp_encode`). An artifact has no control character but
the line feeds of its layout (`visible_encode`), so that a compact one is a single line. Either layout
tells every list of routes from every other (`encode_inj`).
-/

namespace RouteBook.Artifact
open Json

/-! ## From one layout to the other -/

theorem closesUp_separated {items tights : List (List Char)}
    (h : List.Forall₂ (ClosesUp .outside) items tights) (level : Nat) :
    ClosesUp .outside (items.flatMap fun u => ',' :: (Layout.indented.newline level ++ u))
      (tights.flatMap fun u => ',' :: (Layout.compact.newline level ++ u)) := by
  have hcomma : ClosesUp .outside [','] [','] := closesUp_mark (by decide)
  induction h with
  | nil => exact closesUp_nil .outside
  | cons hitem _ ih =>
    rw [List.flatMap_cons, List.flatMap_cons]
    exact (hcomma.append ((closesUp_newline level).append hitem)).append ih

/-- A block is closed up to the compact block of the items closed up. -/
theorem closesUp_block {items tights : List (List Char)}
    (h : List.Forall₂ (ClosesUp .outside) items tights) {opening closing : Char}
    (ho : ClosesUp .outside [opening] [opening]) (hc : ClosesUp .outside [closing] [closing])
    (level : Nat) : ClosesUp .outside (Layout.indented.block level opening closing items)
      (Layout.compact.block level opening closing tights) := by
  cases h with
  | nil => exact ho.append hc
  | cons hitem hitems =>
    rw [block_cons, block_cons]
    apply ho.append
    apply (closesUp_newline (level + 1)).append
    apply hitem.append
    apply (closesUp_separated hitems (level + 1)).append
    exact (closesUp_newline level).append hc

theorem closesUp_member (key : String) {value tight : List Char} (h : ClosesUp .outside value tight) :
    ClosesUp .outside (Layout.indented.member key value) (Layout.compact.member key tight) := by
  have hcolon : ClosesUp .outside Layout.indented.colon Layout.compact.colon := ⟨rfl, rfl⟩
  exact ((closesUp_writeString key).append hcolon).append h

theorem closesUp_writeMethods (methods : List String) :
    ClosesUp .outside (writeMethods .indented methods) (writeMethods .compact methods) := by
  apply closesUp_block
  · rw [List.forall₂_map_left_iff, List.forall₂_map_right_iff, List.forall₂_same]
    intro s _
    exact closesUp_writeString s
  · exact closesUp_mark (by decide)
  · exact closesUp_mark (by decide)

theorem closesUp_writeMembers (r : Route) :
    List.Forall₂ (ClosesUp .outside) (writeMembers .indented r) (writeMembers .compact r) := by
  obtain ⟨path, methods, name⟩ := r
  have hpath := closesUp_member "path" (closesUp_writeString path)
  have hmethods := fun ms => closesUp_member "methods" (closesUp_writeMethods ms)
  have hname := fun n => closesUp_member "name" (closesUp_writeString n)
  cases methods with
  | none =>
    cases name with
    | none => exact .cons hpath .nil
    | some n => exact .cons hpath (.cons (hname n) .nil)
  | some ms =>
    cases name with
    | none => exact .cons hpath (.cons (hmethods ms) .nil)
    | some n => exact .cons hpath (.cons (hmethods ms) (.cons (hname n) .nil))

theorem closesUp_writeRoute (r : Route) :
    ClosesUp .outside (writeRoute .indented r) (writeRoute .compact r) := by
  apply closesUp_block
  · exact closesUp_writeMembers r
  · exact closesUp_mark (by decide)
  · exact closesUp_mark (by decide)

theorem closesUp_encodeChars (routes : List Route) :
    ClosesUp .outside (encodeChars .indented routes) (encodeChars .compact routes) := by
  apply closesUp_block
  · rw [List.forall₂_map_left_iff, List.forall₂_map_right_iff, List.forall₂_same]
    intro r _
    exact closesUp_writeRoute r
  · exact closesUp_mark (by decide)
  · exact closesUp_mark (by decide)

/-- **Closing up**: without the blanks and line feeds outside strings, the indented artifact is the
compact one. -/
theorem closeUp_encode (routes : List Route) :
    closeUp .outside (encode .indented routes).toList = (encode .compact routes).toList := by
  rw [encode, encode, String.toList_ofList, String.toList_ofList, (closesUp_encodeChars routes).closed]

/-! ## Control characters -/

/-- No control character, or the line feed of a text that is indented. -/
def Visible (layout : Layout) (c : Char) : Prop := 0x20 ≤ c.toNat ∨ (layout = .indented ∧ c = '\n')

section
variable {layout : Layout}

theorem visible_newline {level : Nat} {c : Char} (h : c ∈ layout.newline level) : Visible layout c := by
  cases layout with
  | compact => simp [Layout.newline] at h
  | indented =>
    simp only [Layout.newline, List.mem_cons, List.mem_replicate] at h
    rcases h with rfl | ⟨_, rfl⟩
    · exact Or.inr ⟨rfl, rfl⟩
    · exact Or.inl (by decide)

theorem visible_block {level : Nat} {opening closing : Char} {items : List (List Char)}
    (ho : 0x20 ≤ opening.toNat) (hc : 0x20 ≤ closing.toNat)
    (h : ∀ item ∈ items, ∀ c ∈ item, Visible layout c) :
    ∀ c ∈ layout.block level opening closing items, Visible layout c := by
  intro c hmem
  cases items with
  | nil =>
    simp only [Layout.block, List.isEmpty_nil, if_true, List.mem_cons, List.not_mem_nil, or_false] at hmem
    rcases hmem with rfl | rfl
    · exact Or.inl ho
    · exact Or.inl hc
  | cons t ts =>
    rw [block_cons] at hmem
    simp only [List.mem_cons, List.mem_append, List.mem_flatMap, List.not_mem_nil, or_false] at hmem
    rcases hmem with rfl | hnewline | ht | ⟨u, hu, rfl | hnewline | hcu⟩ | hnewline | rfl
    · exact Or.inl ho
    · exact visible_newline hnewline
    · exact h t (by simp) c ht
    · exact Or.inl (by decide)
    · exact visible_newline hnewline
    · exact h u (by simp [hu]) c hcu
    · exact visible_newline hnewline
    · exact Or.inl hc

theorem visible_writeString {s : String} {c : Char} (h : c ∈ writeString s) : Visible layout c :=
  Or.inl (le_of_mem_writeString h)

theorem visible_member {key : String} {value : List Char} (h : ∀ c ∈ value, Visible layout c) :
    ∀ c ∈ layout.member key value, Visible layout c := by
  intro c hmem
  simp only [Layout.member, List.mem_append] at hmem
  rcases hmem with (hkey | hcolon) | hvalue
  · exact visible_writeString hkey
  · cases layout <;> simp only [Layout.colon, List.mem_cons, List.not_mem_nil, or_false] at hcolon
    · rw [hcolon]
      exact Or.inl (by decide)
    · rcases hcolon with rfl | rfl <;> exact Or.inl (by decide)
  · exact h c hvalue

theorem visible_writeMethods (methods : List String) :
    ∀ c ∈ writeMethods layout methods, Visible layout c := by
  apply visible_block (by decide) (by decide)
  intro item hitem
  obtain ⟨s, _, rfl⟩ := List.mem_map.1 hitem
  intro c hc
  exact visible_writeString hc

theorem visible_writeMembers (r : Route) :
    ∀ member ∈ writeMembers layout r, ∀ c ∈ member, Visible layout c := by
  intro member hmember
  simp only [writeMembers, List.mem_cons, List.mem_append, Option.mem_toList,
    Option.map_eq_some_iff] at hmember
  rcases hmember with rfl | ⟨ms, _, rfl⟩ | ⟨n, _, rfl⟩
  · exact visible_member fun c hc => visible_writeString hc
  · exact visible_member (visible_writeMethods ms)
  · exact visible_member fun c hc => visible_writeString hc

theorem visible_writeRoute (r : Route) : ∀ c ∈ writeRoute layout r, Visible layout c :=
  visible_block (by decide) (by decide) (visible_writeMembers r)

/-- **Control characters**: an artifact has none, whatever the routes hold, but the line feeds of the
indented layout. -/
theorem visible_encode {routes : List Route} {c : Char} (h : c ∈ (encode layout routes).toList) :
    Visible layout c := by
  rw [encode, String.toList_ofList] at h
  refine visible_block (by decide) (by decide) ?_ c h
  intro item hitem
  obtain ⟨r, _, rfl⟩ := List.mem_map.1 hitem
  exact visible_writeRoute r

end

theorem le_of_mem_encode_compact {routes : List Route} {c : Char}
    (h : c ∈ (encode .compact routes).toList) : 0x20 ≤ c.toNat := by
  rcases visible_encode h with hc | ⟨hlayout, _⟩
  · exact hc
  · cases hlayout

/-! ## Different routes -/

/-- **Nothing is confused**: artifacts of different routes differ, in whichever layouts. -/
theorem encode_inj {layout layout' : Layout} {routes routes' : List Route}
    (h : encode layout routes = encode layout' routes') : routes = routes' := by
  have hread := readRoutes_encode layout routes
  rw [h, readRoutes_encode] at hread
  exact (Except.ok.inj hread).symm

end RouteBook.Artifact
