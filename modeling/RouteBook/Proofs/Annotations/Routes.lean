import RouteBook.Proofs.Annotations.Grammar
import RouteBook.Route

/-!
# Scanned routes have no defects

A reading has a path with characters, and lists methods only if it has some. So no route that
is scanned has one of the defects for which an artifact is refused (`defects_ofOctets`).
-/

namespace RouteBook

/-- A route with a path, and with methods if it lists any. -/
structure Route.WellFormed (r : Route) : Prop where
  path : r.path ≠ ""
  methods : r.methods ≠ some []

namespace Route

theorem defectsAt_eq_nil_iff {i : Nat} {r : Route} : r.defectsAt i = [] ↔ r.WellFormed := by
  constructor
  · intro h
    obtain ⟨hpath, hmethods⟩ := List.append_eq_nil_iff.1 h
    exact ⟨fun e => by simp [e] at hpath, fun e => by simp [e] at hmethods⟩
  · rintro ⟨hpath, hmethods⟩
    simp [defectsAt, hpath, hmethods]

theorem defectsFrom_eq_nil_iff {i : Nat} {routes : List Route} :
    defectsFrom i routes = [] ↔ ∀ r ∈ routes, r.WellFormed := by
  induction routes generalizing i with
  | nil => simp [defectsFrom]
  | cons r rs ih => simp [defectsFrom, defectsAt_eq_nil_iff, ih]

theorem defects_eq_nil_iff {routes : List Route} :
    defects routes = [] ↔ ∀ r ∈ routes, r.WellFormed :=
  defectsFrom_eq_nil_iff

end Route

namespace Annotations

theorem Reading.Valid.wellFormed {p : Reading} (h : p.Valid) : p.route.WellFormed := by
  constructor
  · intro e
    exact h.path.1 (by simpa [Reading.route] using e)
  · intro e
    simp only [Reading.route, Reading.listed] at e
    split at e
    · cases e
    · next hne => exact hne (by simpa using e)

theorem wellFormed_of_scanChars {line : List Char} {r : Route} (h : scanChars line = some r) :
    r.WellFormed := by
  obtain ⟨p, hp, rfl⟩ := scanChars_eq_some_iff.1 h
  exact hp.1.wellFormed

/-- **No defects**: whatever the octets are, the routes that they declare have none. -/
theorem defects_ofOctets (bs : List UInt8) : Route.defects (ofOctets bs) = [] := by
  refine Route.defects_eq_nil_iff.2 fun r hr => ?_
  obtain ⟨line, _, h⟩ := List.mem_filterMap.1 hr
  exact wellFormed_of_scanChars h

end Annotations

end RouteBook
