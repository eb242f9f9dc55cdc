import RouteBook.Proofs.Catalog.Names
import RouteBook.Proofs.Template.Offsets

/-!
# Resolving with values

A route resolves to its template with a value in the place of each placeholder and all else as it
was. Positional values are taken in turn, and there must be exactly as many as placeholders
(`resolve_positional_exact`). Keyed values are taken from the map that the pairs make, and give what
the same values give by position, up to the first placeholder without a value
(`keyed_positional_agree`).
-/

namespace RouteBook
open Template

/-! ## Items and their values -/

theorem exists_split_of_getElem? {α : Type} {xs : List α} {i : Nat} {x : α} (h : xs[i]? = some x) :
    ∃ before after, xs = before ++ x :: after ∧ before.length = i := by
  obtain ⟨hi, rfl⟩ := List.getElem?_eq_some_iff.1 h
  refine ⟨xs.take i, xs.drop (i + 1), ?_, by rw [List.length_take]; omega⟩
  rw [← List.drop_eq_getElem_cons hi, List.take_append_drop]

theorem isSome_of_map_eq {α β : Type} {f : α → Option β} {xs : List α} {ys : List β}
    (h : xs.map f = ys.map some) : ∀ x ∈ xs, (f x).isSome := by
  intro x hx
  have hmem := List.mem_map_of_mem (f := f) hx
  rw [h] at hmem
  obtain ⟨y, _, hy⟩ := List.mem_map.1 hmem
  rw [← hy]
  rfl

theorem length_of_map_eq {α β : Type} {f : α → Option β} {xs : List α} {ys : List β}
    (h : xs.map f = ys.map some) : ys.length = xs.length := by
  simpa using (congrArg List.length h).symm

/-- Every item has a value, or a first one has none. -/
theorem all_some_or_first_none {α β : Type} (f : α → Option β) (xs : List α) :
    (∃ ys : List β, xs.map f = ys.map some) ∨
      ∃ before x after, ∃ ys : List β,
        xs = before ++ x :: after ∧ before.map f = ys.map some ∧ f x = none := by
  induction xs with
  | nil => exact Or.inl ⟨[], rfl⟩
  | cons x xs ih =>
    cases hx : f x with
    | none => exact Or.inr ⟨[], x, xs, [], rfl, rfl, hx⟩
    | some y =>
      rcases ih with ⟨ys, hys⟩ | ⟨before, z, after, ys, rfl, hys, hz⟩
      · exact Or.inl ⟨y :: ys, by simp [hx, hys]⟩
      · exact Or.inr ⟨x :: before, z, after, y :: ys, rfl, by simp [hx, hys], hz⟩

/-! ## The map of keyed values -/

/-- The map that pairs make, put in one after the other: of pairs with one key, the last counts. -/
def keyedMap (pairs : List (String × String)) : String → Option String :=
  pairs.foldl (fun map (key, value) => Function.update map key (some value)) fun _ => none

theorem keyedMap_append_singleton (pairs : List (String × String)) (key value : String) :
    keyedMap (pairs ++ [(key, value)]) = Function.update (keyedMap pairs) key (some value) := by
  rw [keyedMap, List.foldl_append]
  rfl

theorem lastValue?_eq_keyedMap (pairs : List (String × String)) : lastValue? pairs = keyedMap pairs := by
  funext key
  induction pairs using List.reverseRecOn with
  | nil => rfl
  | append_singleton pairs pair ih =>
    obtain ⟨k, v⟩ := pair
    rw [lastValue?] at ih ⊢
    rw [List.reverse_append, List.reverse_singleton, List.singleton_append, List.lookup_cons, ih,
      keyedMap_append_singleton]
    by_cases h : key = k
    · simp [h]
    · have hb : (key == k) = false := by simp [h]
      simp [h, hb]

/-! ## Filling a template -/

section
variable {name t : String} {pairs : List (String × String)} {values : List String}
  {before after : List Placeholder} {p : Placeholder}

theorem keys_of_split (h : placeholders t = before ++ p :: after) :
    keys (parts t.toList) = before.map (fun q => q.key.toList) ++
      p.key.toList :: after.map fun q => q.key.toList := by
  rw [← keys_placeholders, h, List.map_append, List.map_cons]

theorem token_of_split (h : placeholders t = before ++ p :: after) : tokenOf p.key.toList = p.token :=
  (token_of_mem_placeholders (by simp [h] : p ∈ placeholders t)).symm

theorem length_keys (t : String) : (keys (parts t.toList)).length = (placeholders t).length := by
  rw [← keys_placeholders, List.length_map]

theorem fillTemplate_keyed (h : (placeholders t).map (fun q => keyedMap pairs q.key) = values.map some) :
    fillTemplate name t (some (.keyed pairs)) =
      .ok (String.join (alternate (Offsets.gapTexts t) values)) := by
  have hkeys : (keys (parts t.toList)).map (fun key => lastValue? pairs (String.ofList key)) =
      values.map some := by
    rw [← keys_placeholders, ← h, lastValue?_eq_keyedMap]
    simp [Function.comp_def]
  rw [fillTemplate, fillKeyed_eq_choose, choose_byKey_of_values hkeys,
    Offsets.join_alternate_gapTexts]
  rfl

theorem fillTemplate_keyed_missing (h : placeholders t = before ++ p :: after)
    (hbefore : ∀ q ∈ before, (keyedMap pairs q.key).isSome) (hp : keyedMap pairs p.key = none) :
    fillTemplate name t (some (.keyed pairs)) = .error (.missingValue name p.token) := by
  have hchoose : choose (byKey (lastValue? pairs)) () (before.map (fun q => q.key.toList) ++
      p.key.toList :: after.map fun q => q.key.toList) = .error p.key.toList := by
    refine choose_byKey_of_missing ?_ ?_
    · simpa [lastValue?_eq_keyedMap] using hbefore
    · simpa [lastValue?_eq_keyedMap] using hp
  rw [fillTemplate, fillKeyed_eq_choose, keys_of_split h, hchoose, ← token_of_split h]
  rfl

theorem fillTemplate_positional (h : values.length = (placeholders t).length) :
    fillTemplate name t (some (.positional values)) =
      .ok (String.join (alternate (Offsets.gapTexts t) values)) := by
  have hchoose := choose_inTurn_append (h.trans (length_keys t).symm) []
  rw [List.append_nil] at hchoose
  rw [fillTemplate, fillPositional_eq_choose, hchoose, Offsets.join_alternate_gapTexts]
  rfl

theorem fillTemplate_positional_few (h : placeholders t = before ++ p :: after)
    (hlength : values.length = before.length) :
    fillTemplate name t (some (.positional values)) = .error (.tooFewValues name p.token) := by
  have hchoose : choose inTurn values (before.map (fun q => q.key.toList) ++
      p.key.toList :: after.map fun q => q.key.toList) = .error p.key.toList :=
    choose_inTurn_of_few (by simpa using hlength)
  rw [fillTemplate, fillPositional_eq_choose, keys_of_split h, hchoose, ← token_of_split h]
  rfl

theorem fillTemplate_positional_many (h : (placeholders t).length < values.length) :
    fillTemplate name t (some (.positional values)) = .error (.tooManyValues name) := by
  obtain ⟨v, rest, hrest⟩ : ∃ v rest, values.drop (placeholders t).length = v :: rest := by
    refine List.exists_cons_of_ne_nil ?_
    intro hnil
    rw [List.drop_eq_nil_iff] at hnil
    omega
  have hused : (values.take (placeholders t).length).length = (keys (parts t.toList)).length := by
    rw [length_keys, List.length_take]
    omega
  -- The values in front are used up before the one that is left over is noticed.
  have hchoose := choose_inTurn_append hused (v :: rest)
  rw [← hrest, List.take_append_drop, hrest] at hchoose
  rw [fillTemplate, fillPositional_eq_choose, hchoose]
  rfl

theorem resolve_eq_fillTemplate {catalog : Catalog} (h : catalog.pathOf? name = some t)
    (values : Option Values) : catalog.resolve name values = fillTemplate name t values := by
  rw [Catalog.resolve, h]

/-! ## By position and by key -/

/-- **By position**: a template `t` is its gaps `gs` in turn with the tokens of its placeholders. It
is filled if there are as many values as placeholders, and then is its gaps in turn with the values.
Else too few or too many values are reported, too few with the first placeholder that has none. Its
own tokens give the template, as no values do. The loop over octets does the same. -/
theorem resolve_positional_exact {catalog : Catalog} (h : catalog.pathOf? name = some t)
    (values : List String) :
    ∃ gs, Offsets.gapsFrom t 0 (placeholders t) = some gs ∧
      gs.length = (placeholders t).length + 1 ∧
      String.join (alternate gs ((placeholders t).map Placeholder.token)) = t ∧
      ((∃ path, catalog.resolve name (some (.positional values)) = .ok path) ↔
        values.length = (placeholders t).length) ∧
      (values.length = (placeholders t).length →
        catalog.resolve name (some (.positional values)) = .ok (String.join (alternate gs values))) ∧
      (∀ p, (placeholders t)[values.length]? = some p →
        catalog.resolve name (some (.positional values)) = .error (.tooFewValues name p.token)) ∧
      ((placeholders t).length < values.length →
        catalog.resolve name (some (.positional values)) = .error (.tooManyValues name)) ∧
      catalog.resolve name (some (.positional ((placeholders t).map Placeholder.token))) = .ok t ∧
      catalog.resolve name none = .ok t ∧
      Offsets.fill name t (some (.positional values)) =
        some (catalog.resolve name (some (.positional values))) := by
  have few : ∀ p, (placeholders t)[values.length]? = some p →
      fillTemplate name t (some (.positional values)) = .error (.tooFewValues name p.token) := by
    intro p hp
    obtain ⟨before, after, hsplit, hlength⟩ := exists_split_of_getElem? hp
    exact fillTemplate_positional_few hsplit hlength.symm
  have exact : (∃ path, fillTemplate name t (some (.positional values)) = .ok path) ↔
      values.length = (placeholders t).length := by
    constructor
    · rintro ⟨path, hpath⟩
      rcases Nat.lt_trichotomy values.length (placeholders t).length with hlt | heq | hgt
      · rw [few _ (List.getElem?_eq_getElem hlt)] at hpath
        cases hpath
      · exact heq
      · rw [fillTemplate_positional_many hgt] at hpath
        cases hpath
    · intro hlength
      exact ⟨_, fillTemplate_positional hlength⟩
  have htokens : fillTemplate name t (some (.positional ((placeholders t).map Placeholder.token))) =
      .ok t := by
    rw [fillTemplate_positional (List.length_map _), Offsets.join_gapTexts_tokens]
  simp only [resolve_eq_fillTemplate h]
  exact ⟨Offsets.gapTexts t, Offsets.gapsFrom_placeholders t, Offsets.length_gapTexts t,
    Offsets.join_gapTexts_tokens t, exact, fillTemplate_positional, few, fillTemplate_positional_many,
    htokens, rfl, Offsets.fill_eq name t _⟩

/-- The catalog of one route with two placeholders. -/
def pairCatalog : Catalog := Catalog.ofRoutes [{ path := "/é:x/b/::y", name := some "pair" }]

theorem placeholders_pair : placeholders "/é:x/b/::y" =
    [{ start := 3, stop := 5, token := ":x", key := "x" },
      { start := 8, stop := 11, token := "::y", key := ":y" }] := by
  cbv

theorem resolve_positional_exact_pair :
    pairCatalog.pathOf? "pair" = some "/é:x/b/::y" ∧
    pairCatalog.resolve "pair" (some (.positional ["1:", "/:x"])) = .ok "/é1:/b//:x" ∧
    pairCatalog.resolve "pair" (some (.positional ["1:"])) = .error (.tooFewValues "pair" "::y") ∧
    pairCatalog.resolve "pair" (some (.positional ["1:", "/:x", ""])) = .error (.tooManyValues "pair") ∧
    pairCatalog.resolve "pair" (some (.positional [":x", "::y"])) = .ok "/é:x/b/::y" := by
  have h : pairCatalog.pathOf? "pair" = some "/é:x/b/::y" := by rfl
  obtain ⟨gs, hgaps, _, _, _, hok, _, _, htokens, _⟩ := resolve_positional_exact h ["1:", "/:x"]
  obtain ⟨_, _, _, _, _, _, hfew, _⟩ := resolve_positional_exact h ["1:"]
  obtain ⟨_, _, _, _, _, _, _, hmany, _⟩ := resolve_positional_exact h ["1:", "/:x", ""]
  obtain rfl : gs = ["/é", "/b/", ""] := by
    rw [placeholders_pair] at hgaps
    exact Option.some.inj (hgaps.symm.trans (by cbv))
  rw [placeholders_pair] at hok hfew hmany htokens
  exact ⟨h, hok rfl, hfew _ rfl, hmany (by decide), htokens⟩

/-- **By key and by position**: values found by key for all placeholders give what they give by
position. If a placeholder is the first without a value, it is reported either way, by position when
the values found before it are given. Only the values of keys that occur in the template matter. -/
theorem keyed_positional_agree {catalog : Catalog} (h : catalog.pathOf? name = some t)
    (pairs : List (String × String)) :
    (∀ values, (placeholders t).map (fun p => keyedMap pairs p.key) = values.map some →
      catalog.resolve name (some (.keyed pairs)) = catalog.resolve name (some (.positional values)) ∧
      ∃ path, catalog.resolve name (some (.keyed pairs)) = .ok path) ∧
    (∀ before p after values, placeholders t = before ++ p :: after →
      before.map (fun q => keyedMap pairs q.key) = values.map some → keyedMap pairs p.key = none →
      catalog.resolve name (some (.keyed pairs)) = .error (.missingValue name p.token) ∧
      catalog.resolve name (some (.positional values)) = .error (.tooFewValues name p.token)) ∧
    ∀ others, (∀ p ∈ placeholders t, keyedMap others p.key = keyedMap pairs p.key) →
      catalog.resolve name (some (.keyed others)) = catalog.resolve name (some (.keyed pairs)) := by
  simp only [resolve_eq_fillTemplate h]
  refine ⟨?_, ?_, ?_⟩
  · intro values hvalues
    rw [fillTemplate_keyed hvalues, fillTemplate_positional (length_of_map_eq hvalues)]
    exact ⟨rfl, _, rfl⟩
  · intro before p after values hsplit hvalues hp
    rw [fillTemplate_keyed_missing hsplit (isSome_of_map_eq hvalues) hp,
      fillTemplate_positional_few hsplit (length_of_map_eq hvalues)]
    exact ⟨rfl, rfl⟩
  · intro others hagree
    have hmap : (placeholders t).map (fun p => keyedMap others p.key) =
        (placeholders t).map fun p => keyedMap pairs p.key := List.map_congr_left hagree
    rcases all_some_or_first_none (fun p => keyedMap pairs p.key) (placeholders t) with
      ⟨values, hvalues⟩ | ⟨before, p, after, values, hsplit, hvalues, hp⟩
    · rw [fillTemplate_keyed hvalues, fillTemplate_keyed (hmap.trans hvalues)]
    · -- The first placeholder without a value among `pairs` is the first without one among `others`.
      have hbefore : ∀ q ∈ before, (keyedMap others q.key).isSome := by
        intro q hq
        rw [hagree q (by simp [hsplit, hq])]
        exact isSome_of_map_eq hvalues q hq
      have hp' : keyedMap others p.key = none := (hagree p (by simp [hsplit])).trans hp
      rw [fillTemplate_keyed_missing hsplit (isSome_of_map_eq hvalues) hp,
        fillTemplate_keyed_missing hsplit hbefore hp']

theorem keyed_positional_agree_pair :
    pairCatalog.pathOf? "pair" = some "/é:x/b/::y" ∧
    pairCatalog.resolve "pair" (some (.keyed [("x", "0"), (":y", "/:x"), ("y", "2"), ("x", "1:")])) =
      pairCatalog.resolve "pair" (some (.positional ["1:", "/:x"])) ∧
    pairCatalog.resolve "pair" (some (.keyed [("y", "2"), ("x", "1:")])) =
      .error (.missingValue "pair" "::y") ∧
    pairCatalog.resolve "pair" (some (.positional ["1:"])) = .error (.tooFewValues "pair" "::y") ∧
    pairCatalog.resolve "pair" (some (.keyed [("x", "1:")])) =
      pairCatalog.resolve "pair" (some (.keyed [("y", "2"), ("x", "1:")])) := by
  have h : pairCatalog.pathOf? "pair" = some "/é:x/b/::y" := by rfl
  obtain ⟨hall, _, _⟩ :=
    keyed_positional_agree h [("x", "0"), (":y", "/:x"), ("y", "2"), ("x", "1:")]
  obtain ⟨_, hmissing, hothers⟩ := keyed_positional_agree h [("y", "2"), ("x", "1:")]
  rw [placeholders_pair] at hall hmissing hothers
  obtain ⟨hkeyed, hpositional⟩ := hmissing [_] _ [] ["1:"] rfl (by decide) (by decide)
  exact ⟨h, (hall ["1:", "/:x"] (by decide)).1, hkeyed, hpositional, hothers _ (by decide)⟩

end

end RouteBook
