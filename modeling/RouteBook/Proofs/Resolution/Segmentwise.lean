import RouteBook.Proofs.Resolution.Filling
import RouteBook.Proofs.Template.Segments

/-!
# Resolving by segments

Keyed values fill a template segment by segment: what precedes the first colon of a segment is kept,
the value of its key follows, and a segment without placeholder is as it was (`fillSegment?`). The
scan of the whole template finds the same placeholders (`keys_parts`) and the filling gives the same
text (`fillKeyed_segments`). Main statement: `resolve_keyed_segmentwise`.
-/

namespace RouteBook
namespace Template

/-- The keys of the placeholders that segments have. -/
def holeKeys (segs : List (List Char)) : List String :=
  segs.filterMap fun seg => (hole? seg).map fun (_, key) => String.ofList key

/-- A segment with the value of its placeholder, if there is one for it. -/
def fillSegment? (value? : String → Option String) (seg : List Char) : Option (List Char) :=
  match hole? seg with
  | none => some seg
  | some (pre, key) => (value? (String.ofList key)).map fun v => pre ++ v.toList

section
variable {value? : String → Option String} {seg out : List Char} {segs outs : List (List Char)}

theorem holeKeys_cons (seg : List Char) (segs : List (List Char)) :
    holeKeys (seg :: segs) = holeKeys [seg] ++ holeKeys segs := by
  simp only [holeKeys, ← List.filterMap_append, List.singleton_append]

theorem fillSegment?_isSome_iff :
    (fillSegment? value? seg).isSome ↔ ∀ key ∈ holeKeys [seg], (value? key).isSome := by
  unfold fillSegment? holeKeys
  cases h : hole? seg <;> simp [h]

theorem holeKeys_subset {seg : List Char} (h : seg ∈ segs) : holeKeys [seg] ⊆ holeKeys segs := by
  intro key hkey
  simp only [holeKeys, List.mem_filterMap, List.mem_singleton] at hkey ⊢
  obtain ⟨_, rfl, hkey⟩ := hkey
  exact ⟨_, h, hkey⟩

/-! ## Segments one by one -/

theorem keys_segment (hs : '/' ∉ seg) : (keys (parts seg)).map String.ofList = holeKeys [seg] := by
  cases h : hole? seg with
  | none => simp [parts_of_no_hole h, keys_map_literal, holeKeys, h]
  | some hole =>
    obtain ⟨pre, key⟩ := hole
    simp [parts_of_hole h hs, keys_map_literal, holeKeys, h]

/-- The scan finds the placeholders of the segments, in their order. -/
theorem keys_parts (cs : List Char) :
    (keys (parts cs)).map String.ofList = holeKeys (cs.splitOn '/') := by
  induction cs using segments_induction with
  | last seg hs => rw [List.splitOn_eq_singleton hs, keys_segment hs]
  | more seg rest hs ih =>
    rw [List.splitOn_append_cons_self_of_not_mem hs, holeKeys_cons, parts_append_slash, keys_append,
      keys_literal, List.map_append, keys_segment hs, ih]

theorem fillKeyed_append (ps qs : List Part) :
    fillKeyed value? (ps ++ qs) =
      (fillKeyed value? ps).bind fun text => (fillKeyed value? qs).map (text ++ ·) := by
  induction ps with
  | nil => cases h : fillKeyed value? qs <;> simp [fillKeyed, Except.bind, Except.map, h]
  | cons p ps ih =>
    cases p with
    | literal c =>
      rw [List.cons_append, fillKeyed, fillKeyed, ih]
      cases fillKeyed value? ps <;> cases fillKeyed value? qs <;> rfl
    | hole key =>
      rw [List.cons_append, fillKeyed, fillKeyed, ih]
      cases value? (String.ofList key) with
      | none => rfl
      | some v =>
        cases fillKeyed value? ps <;> cases fillKeyed value? qs <;> simp [Except.bind, Except.map]

theorem fillKeyed_map_literal (cs : List Char) : fillKeyed value? (cs.map .literal) = .ok cs := by
  induction cs with
  | nil => rfl
  | cons c cs ih => rw [List.map_cons, fillKeyed, ih]; rfl

theorem fillKeyed_segment (h : fillSegment? value? seg = some out) (hs : '/' ∉ seg) :
    fillKeyed value? (parts seg) = .ok out := by
  unfold fillSegment? at h
  cases hh : hole? seg with
  | none =>
    rw [hh] at h
    rw [parts_of_no_hole hh, fillKeyed_map_literal, Option.some.inj h]
  | some hole =>
    obtain ⟨pre, key⟩ := hole
    simp only [hh, Option.map_eq_some_iff] at h
    obtain ⟨v, hv, rfl⟩ := h
    rw [parts_of_hole hh hs, fillKeyed_append, fillKeyed_map_literal, fillKeyed, hv]
    simp [fillKeyed, Except.bind, Except.map]

/-- A text is filled segment by segment, and the slashes between them are kept. -/
theorem fillKeyed_segments {cs : List Char}
    (h : (cs.splitOn '/').map (fillSegment? value?) = outs.map some) :
    fillKeyed value? (parts cs) = .ok (['/'].intercalate outs) := by
  induction cs using segments_induction generalizing outs with
  | last seg hs =>
    rw [List.splitOn_eq_singleton hs] at h
    cases outs with
    | nil => simp at h
    | cons out outs =>
      simp only [List.map_cons, List.map_nil, List.cons.injEq] at h
      obtain rfl : outs = [] := by simpa using h.2.symm
      rw [fillKeyed_segment h.1 hs, List.intercalate_singleton]
  | more seg rest hs ih =>
    rw [List.splitOn_append_cons_self_of_not_mem hs] at h
    cases outs with
    | nil => simp at h
    | cons out outs =>
      simp only [List.map_cons, List.cons.injEq] at h
      -- A slash always opens a further segment.
      have hne : outs ≠ [] := by
        rintro rfl
        simpa [List.splitOn_ne_nil] using h.2
      rw [parts_append_slash, fillKeyed_append, fillKeyed_segment h.1 hs, fillKeyed, ih h.2,
        List.intercalate_cons_of_ne_nil hne]
      simp [Except.bind, Except.map]

end

end Template

open Template

section
variable {name t : String} {pairs : List (String × String)}

theorem keys_placeholders_eq_holeKeys (t : String) :
    (placeholders t).map Placeholder.key = holeKeys (t.toList.splitOn '/') := by
  rw [← keys_parts]
  exact map_key_locate 0 _

theorem fillTemplate_segments
    (h : ∀ key ∈ holeKeys (t.toList.splitOn '/'), (keyedMap pairs key).isSome) :
    ∃ outs, (t.toList.splitOn '/').map (fillSegment? (keyedMap pairs)) = outs.map some ∧
      fillTemplate name t (some (.keyed pairs)) = .ok (String.ofList (['/'].intercalate outs)) := by
  rcases all_some_or_first_none (fillSegment? (keyedMap pairs)) (t.toList.splitOn '/') with
    ⟨outs, houts⟩ | ⟨before, seg, after, _, hsplit, _, hseg⟩
  · refine ⟨outs, houts, ?_⟩
    rw [fillTemplate, lastValue?_eq_keyedMap, fillKeyed_segments houts]
  · have hsome : (fillSegment? (keyedMap pairs) seg).isSome :=
      fillSegment?_isSome_iff.2 fun key hkey => h key (holeKeys_subset (by simp [hsplit]) hkey)
    simp [hseg] at hsome

theorem fillTemplate_first_missing
    (h : ¬ ∀ key ∈ holeKeys (t.toList.splitOn '/'), (keyedMap pairs key).isSome) :
    ∃ before p after, placeholders t = before ++ p :: after ∧
      (∀ q ∈ before, (keyedMap pairs q.key).isSome) ∧ keyedMap pairs p.key = none ∧
      fillTemplate name t (some (.keyed pairs)) = .error (.missingValue name p.token) := by
  rcases all_some_or_first_none (fun p => keyedMap pairs p.key) (placeholders t) with
    ⟨values, hvalues⟩ | ⟨before, p, after, values, hsplit, hvalues, hp⟩
  · refine absurd ?_ h
    rw [← keys_placeholders_eq_holeKeys]
    simpa using isSome_of_map_eq hvalues
  · have hbefore := isSome_of_map_eq hvalues
    exact ⟨before, p, after, hsplit, hbefore, hp, fillTemplate_keyed_missing hsplit hbefore hp⟩

/-- **By key, segment by segment**: a segment has a placeholder if it has a colon that is not its
last character, and then its key is what follows the first colon. If there are values for all keys,
the answer is the segments, joined by slashes, each with the value of its key in the place of the
colon and the key. Else the first placeholder without a value is reported. A name that no route has
is unknown. -/
theorem resolve_keyed_segmentwise (routes : List Route) (name : String) :
    (∀ t, (routesNamed routes name).getLast?.map Route.path = some t → ∀ pairs,
      (∀ seg ∈ t.toList.splitOn '/',
        ((hole? seg).isSome ↔ ':' ∈ seg ∧ seg.idxOf ':' + 1 ≠ seg.length) ∧
        ∀ pre key, hole? seg = some (pre, key) → seg = pre ++ ':' :: key ∧ ':' ∉ pre) ∧
      (placeholders t).map Placeholder.key = holeKeys (t.toList.splitOn '/') ∧
      ((∀ key ∈ holeKeys (t.toList.splitOn '/'), (keyedMap pairs key).isSome) →
        ∃ outs, (t.toList.splitOn '/').map (fillSegment? (keyedMap pairs)) = outs.map some ∧
          (Catalog.ofRoutes routes).resolve name (some (.keyed pairs)) =
            .ok (String.ofList (['/'].intercalate outs))) ∧
      ((¬ ∀ key ∈ holeKeys (t.toList.splitOn '/'), (keyedMap pairs key).isSome) →
        ∃ before p after, placeholders t = before ++ p :: after ∧
          (∀ q ∈ before, (keyedMap pairs q.key).isSome) ∧ keyedMap pairs p.key = none ∧
          (Catalog.ofRoutes routes).resolve name (some (.keyed pairs)) =
            .error (.missingValue name p.token)) ∧
      Offsets.fill name t (some (.keyed pairs)) =
        some ((Catalog.ofRoutes routes).resolve name (some (.keyed pairs)))) ∧
    ((∀ r ∈ routes, r.name ≠ some name) →
      ∀ values, (Catalog.ofRoutes routes).resolve name values = .error (.unknownRoute name)) := by
  refine ⟨?_, ?_⟩
  · intro t ht pairs
    rw [← pathOf?_ofRoutes] at ht
    simp only [resolve_eq_fillTemplate ht]
    refine ⟨?_, keys_placeholders_eq_holeKeys t, fillTemplate_segments, fillTemplate_first_missing,
      Offsets.fill_eq name t _⟩
    intro seg _
    refine ⟨hole?_isSome_iff, ?_⟩
    intro pre key h
    obtain ⟨hseg, hpre, _⟩ := hole?_eq_some_iff.1 h
    exact ⟨hseg, hpre⟩
  · intro h values
    have hnone : routesNamed routes name = [] := by
      simpa [routesNamed, List.filter_eq_nil_iff] using h
    rw [Catalog.resolve, pathOf?_ofRoutes, hnone]
    rfl

/-- Routes of which two have one name; the last of them has a template with colons of all kinds. -/
def twiceNamed : List Route :=
  [{ path := "/old/:id", name := some "show" }, { path := "/unnamed/:id" },
    { path := "/é/:id/a:id/b:/::x//", name := some "show" }]

theorem resolve_keyed_segmentwise_twiceNamed :
    (Catalog.ofRoutes twiceNamed).resolve "show"
      (some (.keyed [("id", "0"), (":x", ""), ("y", "1"), ("id", ":id/é")])) =
        .ok "/é/:id/é/a:id/é/b:///" ∧
    (Catalog.ofRoutes twiceNamed).resolve "show" (some (.keyed [("x", "0"), ("id", "1")])) =
      .error (.missingValue "show" "::x") ∧
    (Catalog.ofRoutes twiceNamed).resolve "old" none = .error (.unknownRoute "old") := by
  have ht : (routesNamed twiceNamed "show").getLast?.map Route.path = some "/é/:id/a:id/b:/::x//" := by
    decide
  have hkeys : holeKeys ("/é/:id/a:id/b:/::x//".toList.splitOn '/') = ["id", "id", ":x"] := by
    decide
  have hplaceholders : placeholders "/é/:id/a:id/b:/::x//" =
      [{ start := 4, stop := 7, token := ":id", key := "id" },
        { start := 9, stop := 12, token := ":id", key := "id" },
        { start := 16, stop := 19, token := "::x", key := ":x" }] := by
    cbv
  obtain ⟨hshow, _⟩ := resolve_keyed_segmentwise twiceNamed "show"
  obtain ⟨_, hunknown⟩ := resolve_keyed_segmentwise twiceNamed "old"
  obtain ⟨_, _, hfilled, _⟩ := hshow _ ht [("id", "0"), (":x", ""), ("y", "1"), ("id", ":id/é")]
  obtain ⟨_, _, _, hmissing, _⟩ := hshow _ ht [("x", "0"), ("id", "1")]
  rw [hkeys] at hfilled hmissing
  refine ⟨?_, ?_, hunknown (by decide) none⟩
  · obtain ⟨outs, houts, hok⟩ := hfilled (by decide)
    have hsegs : ("/é/:id/a:id/b:/::x//".toList.splitOn '/').map
        (fillSegment? (keyedMap [("id", "0"), (":x", ""), ("y", "1"), ("id", ":id/é")])) =
        ["".toList, "é".toList, ":id/é".toList, "a:id/é".toList, "b:".toList, [], [], []].map some := by
      cbv
    obtain rfl := List.map_injective_iff.2 (Option.some_injective _) (houts.symm.trans hsegs)
    exact hok
  · obtain ⟨before, p, after, hsplit, _, hp, herror⟩ := hmissing (by decide)
    have hmem : p ∈ placeholders "/é/:id/a:id/b:/::x//" := by simp [hsplit]
    rw [hplaceholders] at hmem
    simp only [List.mem_cons, List.not_mem_nil, or_false] at hmem
    rcases hmem with rfl | rfl | rfl
    · exact absurd hp (by decide)
    · exact absurd hp (by decide)
    · exact herror

end

end RouteBook
