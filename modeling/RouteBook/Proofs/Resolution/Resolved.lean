import RouteBook.Proofs.Resolution.Filling
import RouteBook.Proofs.Template.Filled

/-!
# What a resolved path tells

Resolving succeeds if every placeholder is given a value, and puts these values in (`inserted`,
`resolve_eq_ok_iff`). Values without a colon leave a path in which the scan finds no placeholder
(`resolved_complete`). Values without a slash can be read off the path, so that one path comes of one
choice of values only (`resolved_unambiguous`).
-/

namespace RouteBook
open Template

/-- The values that are put into the template `t`, in the order of its placeholders. -/
def inserted (t : String) : Values → List String
  | .keyed pairs => (placeholders t).filterMap fun p => keyedMap pairs p.key
  | .positional values => values

section
variable {catalog : Catalog} {name t path : String} {values others : Values}
  {pairs : List (String × String)}

/-! ## Successful resolving -/

theorem serves_map {vs : List String} (h : vs.length = (placeholders t).length) :
    Serves (vs.map String.toList) t.toList := by
  rw [Serves, List.length_map, h, length_keys]

theorem inserted_of_map_eq {vs : List String}
    (h : (placeholders t).map (fun p => keyedMap pairs p.key) = vs.map some) :
    inserted t (.keyed pairs) = vs := by
  have := congrArg (List.filterMap id) h
  simpa [inserted, List.filterMap_map] using this

theorem map_inserted_keyed (h : (inserted t (.keyed pairs)).length = (placeholders t).length) :
    (placeholders t).map (fun p => keyedMap pairs p.key) = (inserted t (.keyed pairs)).map some := by
  rcases all_some_or_first_none (fun p => keyedMap pairs p.key) (placeholders t) with
    ⟨vs, hvs⟩ | ⟨before, p, after, vs, hsplit, _, hp⟩
  · rw [inserted_of_map_eq hvs, hvs]
  · have hsome := List.filterMap_length_eq_length.1 h p (by simp [hsplit])
    rw [hp] at hsome
    cases hsome

/-- Resolving succeeds exactly if there is a value for each placeholder, and puts them in. -/
theorem fillTemplate_eq_ok_iff : fillTemplate name t (some values) = .ok path ↔
    (inserted t values).length = (placeholders t).length ∧
      path = String.join (alternate (Offsets.gapTexts t) (inserted t values)) := by
  cases values with
  | keyed pairs =>
    constructor
    · intro h
      rcases all_some_or_first_none (fun p => keyedMap pairs p.key) (placeholders t) with
        ⟨vs, hvs⟩ | ⟨before, p, after, vs, hsplit, hvs, hp⟩
      · rw [fillTemplate_keyed hvs] at h
        rw [inserted_of_map_eq hvs]
        exact ⟨length_of_map_eq hvs, (Except.ok.inj h).symm⟩
      · rw [fillTemplate_keyed_missing hsplit (isSome_of_map_eq hvs) hp] at h
        cases h
    · rintro ⟨hlen, rfl⟩
      exact fillTemplate_keyed (map_inserted_keyed hlen)
  | positional vs =>
    constructor
    · intro h
      rcases Nat.lt_trichotomy vs.length (placeholders t).length with hfew | heq | hmany
      · obtain ⟨before, after, hsplit, hlen⟩ :=
          exists_split_of_getElem? (List.getElem?_eq_getElem hfew)
        rw [fillTemplate_positional_few hsplit hlen.symm] at h
        cases h
      · rw [fillTemplate_positional heq] at h
        exact ⟨heq, (Except.ok.inj h).symm⟩
      · rw [fillTemplate_positional_many hmany] at h
        cases h
    · rintro ⟨hlen, rfl⟩
      exact fillTemplate_positional hlen

theorem resolve_eq_ok_iff_of_path (h : catalog.pathOf? name = some t) :
    catalog.resolve name (some values) = .ok path ↔
      (inserted t values).length = (placeholders t).length ∧
        path = String.join (alternate (Offsets.gapTexts t) (inserted t values)) := by
  rw [resolve_eq_fillTemplate h, fillTemplate_eq_ok_iff]

theorem resolve_eq_ok_iff : catalog.resolve name (some values) = .ok path ↔
    ∃ t, catalog.pathOf? name = some t ∧ (inserted t values).length = (placeholders t).length ∧
      path = String.join (alternate (Offsets.gapTexts t) (inserted t values)) := by
  cases h : catalog.pathOf? name with
  | none => simp [Catalog.resolve, h]
  | some t => simp [resolve_eq_ok_iff_of_path h]

theorem toList_of_filled {vs : List String} (h : path = String.join (alternate (Offsets.gapTexts t) vs)) :
    path.toList = filled (parts t.toList) (vs.map String.toList) := by
  rw [h, Offsets.join_alternate_gapTexts, String.toList_ofList]

/-! ## No placeholder is left -/

/-- **Complete**: a path that a name resolves to is the template of the name with the values in place
of its placeholders, and if no value has a colon, then the path has no placeholder: none of the template
is left, and none has come about where a value meets the text around it. -/
theorem resolved_complete (h : catalog.resolve name (some values) = .ok path) :
    ∃ t, catalog.pathOf? name = some t ∧
      path = String.join (alternate (Offsets.gapTexts t) (inserted t values)) ∧
      ((∀ v ∈ inserted t values, ':' ∉ v.toList) → placeholders path = []) := by
  obtain ⟨t, ht, hlen, hpath⟩ := resolve_eq_ok_iff.1 h
  refine ⟨t, ht, hpath, ?_⟩
  intro hcolon
  have hkeys : keys (parts path.toList) = [] := by
    rw [toList_of_filled hpath]
    exact keys_filled (serves_map hlen) (by simpa using hcolon)
  rw [← List.length_eq_zero_iff, ← length_keys, hkeys]
  rfl

/-- A route with a placeholder that fills its segment, one that does not, and colons that begin none. -/
def colonsCatalog : Catalog := Catalog.ofRoutes [{ path := "/a:/:x/b:c/:", name := some "colons" }]

/-- An empty value behind a colon, and a value with a slash after a letter. -/
theorem resolved_complete_colons :
    colonsCatalog.resolve "colons" (some (.keyed [("c", "1/2"), ("d", ":"), ("x", "")])) =
      .ok "/a://b1/2/:" ∧
    placeholders "/a://b1/2/:" = [] := by
  have hok : colonsCatalog.resolve "colons" (some (.keyed [("c", "1/2"), ("d", ":"), ("x", "")])) =
      .ok "/a://b1/2/:" := by
    cbv
  obtain ⟨t, ht, _, hcomplete⟩ := resolved_complete hok
  obtain rfl : "/a:/:x/b:c/:" = t := Option.some.inj ht
  have hinserted : inserted "/a:/:x/b:c/:" (.keyed [("c", "1/2"), ("d", ":"), ("x", "")]) =
      ["", "1/2"] := by
    cbv
  rw [hinserted] at hcomplete
  exact ⟨hok, hcomplete (by decide)⟩

/-! ## The values are found again -/

theorem inserted_eq (h : catalog.pathOf? name = some t)
    (hvalues : ∀ v ∈ inserted t values, '/' ∉ v.toList)
    (hothers : ∀ v ∈ inserted t others, '/' ∉ v.toList)
    (hpath : catalog.resolve name (some values) = .ok path)
    (hpath' : catalog.resolve name (some others) = .ok path) :
    inserted t values = inserted t others := by
  obtain ⟨hlen, hfilled⟩ := (resolve_eq_ok_iff_of_path h).1 hpath
  obtain ⟨hlen', hfilled'⟩ := (resolve_eq_ok_iff_of_path h).1 hpath'
  have heq := (toList_of_filled hfilled).symm.trans (toList_of_filled hfilled')
  have hlists := filled_injective (serves_map hlen) (serves_map hlen') (by simpa using hvalues)
    (by simpa using hothers) heq
  exact List.map_injective_iff.2 (fun _ _ h => String.toList_injective h) hlists

/-- **Unambiguous**: where no value has a slash, one path comes of one list of values by position, and
by key of maps that have one value for each key of the template. Such a path has as many slashes as the
template. -/
theorem resolved_unambiguous (h : catalog.pathOf? name = some t) :
    (∀ vs ws path, (∀ v ∈ vs, '/' ∉ v.toList) → (∀ w ∈ ws, '/' ∉ w.toList) →
      catalog.resolve name (some (.positional vs)) = .ok path →
      catalog.resolve name (some (.positional ws)) = .ok path → vs = ws) ∧
    (∀ pairs others path, (∀ v ∈ inserted t (.keyed pairs), '/' ∉ v.toList) →
      (∀ v ∈ inserted t (.keyed others), '/' ∉ v.toList) →
      catalog.resolve name (some (.keyed pairs)) = .ok path →
      catalog.resolve name (some (.keyed others)) = .ok path →
      ∀ p ∈ placeholders t, keyedMap pairs p.key = keyedMap others p.key) ∧
    ∀ values path, (∀ v ∈ inserted t values, '/' ∉ v.toList) →
      catalog.resolve name (some values) = .ok path → path.toList.count '/' = t.toList.count '/' := by
  refine ⟨?_, ?_, ?_⟩
  · intro vs ws path hvs hws hpath hpath'
    have heq : inserted t (.positional vs) = inserted t (.positional ws) :=
      inserted_eq h hvs hws hpath hpath'
    exact heq
  · intro pairs others path hpairs hothers hpath hpath'
    have heq := inserted_eq h hpairs hothers hpath hpath'
    obtain ⟨hlen, _⟩ := (resolve_eq_ok_iff_of_path h).1 hpath
    obtain ⟨hlen', _⟩ := (resolve_eq_ok_iff_of_path h).1 hpath'
    have hmaps := (map_inserted_keyed hlen).trans
      ((congrArg (List.map some) heq).trans (map_inserted_keyed hlen').symm)
    exact List.map_inj_left.1 hmaps
  · intro values path hvalues hpath
    obtain ⟨hlen, hfilled⟩ := (resolve_eq_ok_iff_of_path h).1 hpath
    rw [toList_of_filled hfilled]
    exact count_slash_filled (serves_map hlen) (by simpa using hvalues)

/-- Maps that differ in keys which the template lacks; one of the values is empty and one has a
colon. -/
theorem resolved_unambiguous_pair :
    pairCatalog.resolve "pair" (some (.keyed [("x", "1:"), (":y", "")])) = .ok "/é1:/b/" ∧
    pairCatalog.resolve "pair" (some (.keyed [("y", "/"), (":y", ""), ("x", "0"), ("x", "1:")])) =
      .ok "/é1:/b/" ∧
    (∀ p ∈ placeholders "/é:x/b/::y", keyedMap [("x", "1:"), (":y", "")] p.key =
      keyedMap [("y", "/"), (":y", ""), ("x", "0"), ("x", "1:")] p.key) ∧
    "/é1:/b/".toList.count '/' = "/é:x/b/::y".toList.count '/' := by
  have h : pairCatalog.pathOf? "pair" = some "/é:x/b/::y" := by rfl
  have hone : pairCatalog.resolve "pair" (some (.keyed [("x", "1:"), (":y", "")])) =
      .ok "/é1:/b/" := by
    cbv
  have hother : pairCatalog.resolve "pair"
      (some (.keyed [("y", "/"), (":y", ""), ("x", "0"), ("x", "1:")])) = .ok "/é1:/b/" := by
    cbv
  obtain ⟨_, hkeyed, hslashes⟩ := resolved_unambiguous h
  have hins : inserted "/é:x/b/::y" (.keyed [("x", "1:"), (":y", "")]) = ["1:", ""] := by
    cbv
  have hins' : inserted "/é:x/b/::y" (.keyed [("y", "/"), (":y", ""), ("x", "0"), ("x", "1:")]) =
      ["1:", ""] := by
    cbv
  exact ⟨hone, hother, hkeyed _ _ _ (by rw [hins]; decide) (by rw [hins']; decide) hone hother,
    hslashes _ _ (by rw [hins]; decide) hone⟩

end

end RouteBook
