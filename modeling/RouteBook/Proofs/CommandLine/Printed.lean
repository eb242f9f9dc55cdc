import RouteBook.Proofs.Artifact.Layouts
import RouteBook.Proofs.Artifact.Loading
import RouteBook.Proofs.CommandLine.AllOrNothing
import RouteBook.Proofs.Registry

/-!
# What programs print of an artifact

The list command prints the routes of the artifact that it loads (`Inspect.list_done_iff`), and the
scraper those of its sources (`Scrape.print_done_iff`). Whatever the routes hold, their compact artifact
has no line break in it, so that what is printed is one line. Main statement: `artifact_text_exact`.
-/

namespace RouteBook.CommandLine
open Artifact (encode Loads)
open Json (closeUp)
open Text

/-- A compact artifact with a line feed behind it is one line. -/
theorem ofText_encode_compact (routes : List Route) :
    Line.ofText (encode .compact routes ++ "\n").toList = [(encode .compact routes).toList] := by
  have hvisible : ∀ c, c.toNat < 0x20 → c ∉ (encode .compact routes).toList := by
    intro c hc hmem
    have := Artifact.le_of_mem_encode_compact hmem
    omega
  rw [String.toList_append]
  exact Line.ofText_append_feed (hvisible '\n' (by decide)) (hvisible '\r' (by decide))

namespace Inspect
variable {request : Inspect.Request} {tree : FileTree} {config : Config} {layout : Json.Layout}

/-- If the artifact can be loaded, a command is carried out on its catalog. -/
theorem run_of_loads (hconfig : request.configIn tree = .ok config) {routes : List Route}
    (h : Loads tree config.artifactPath config.strictNames routes) :
    ∃ registry : Registry, registry.catalog = Catalog.ofRoutes routes ∧
      registry.addScriptName = config.addScriptName ∧
      (request.run tree).result = (request.command.run registry config.artifactPath).1 := by
  have hopen := Registry.openWith_fst tree config
  rw [Artifact.loadCatalog_of_loads h] at hopen
  generalize ho : Registry.openWith tree config = opened at hopen
  obtain ⟨result, report⟩ := opened
  cases result with
  | error failure => cases hopen
  | ok registry =>
    have hregistry := Except.ok.inj hopen
    refine ⟨registry, ?_, ?_, ?_⟩
    · rw [hregistry]
    · rw [hregistry]
    · simp only [Request.run, hconfig, ho]

theorem run_list_of_loads (hcommand : request.command = .list layout)
    (hconfig : request.configIn tree = .ok config) {routes : List Route}
    (h : Loads tree config.artifactPath config.strictNames routes) :
    (request.run tree).result = .ended (.done (encode layout routes ++ "\n")) := by
  obtain ⟨registry, hcatalog, _, hrun⟩ := run_of_loads hconfig h
  rw [hrun, hcommand, Command.run, hcatalog]
  rfl

theorem run_of_refused (hconfig : request.configIn tree = .ok config) {failure : Artifact.Failure}
    (h : Artifact.Refused tree config.artifactPath config.strictNames failure) :
    (request.run tree).result = .ended (.failed failure.message) := by
  have hopen := Registry.openWith_fst tree config
  rw [Artifact.loadCatalog_of_refused h] at hopen
  cases ho : Registry.openWith tree config with
  | mk result report =>
    rw [ho] at hopen
    simp only [Except.map] at hopen
    simp [Request.run, hconfig, ho, hopen, Failure.message]

/-- A listing succeeds exactly if the artifact can be loaded, and prints it. -/
theorem list_done_iff (hcommand : request.command = .list layout) (tree : FileTree) (output : String) :
    (request.run tree).result = .ended (.done output) ↔
      ∃ config routes, request.configIn tree = .ok config ∧
        Loads tree config.artifactPath config.strictNames routes ∧ output = encode layout routes ++ "\n" := by
  constructor
  · intro hout
    cases hconfig : request.configIn tree with
    | error failure => simp [Request.run, hconfig] at hout
    | ok config =>
      rcases Artifact.loads_or_refused tree config.artifactPath config.strictNames with
        ⟨routes, hr⟩ | ⟨failure, hr⟩
      · rw [run_list_of_loads hcommand hconfig hr] at hout
        simp only [Result.ended.injEq, Ending.done.injEq] at hout
        exact ⟨config, routes, rfl, hr, hout.symm⟩
      · rw [run_of_refused hconfig hr] at hout
        cases hout
  · rintro ⟨config, routes, hconfig, hr, rfl⟩
    exact run_list_of_loads hcommand hconfig hr

end Inspect

/-- A scraping to standard output succeeds exactly if its sources can be read, and prints their routes. -/
theorem Scrape.print_done_iff {request : Scrape.Request} (h : request.file = "-") (tree : FileTree)
    (stdin : List UInt8) (output : String) :
    (request.run tree stdin).result = .ended (.done output) ↔
      ∃ routes, request.Finds tree stdin routes ∧ output = encode request.layout routes ++ "\n" := by
  constructor
  · intro hout
    obtain ⟨ending, hend, hleads⟩ := request.run_leads tree stdin
    obtain rfl := Result.ended.inj (hend.symm.trans hout)
    obtain ⟨routes, hfinds, hdelivered⟩ := hleads.delivered
    cases hdelivered with
    | printed _ _ => exact ⟨routes, hfinds, rfl⟩
    | written hfile _ _ _ => exact absurd h hfile
  · rintro ⟨routes, hfinds, rfl⟩
    rw [(Scrape.Request.run_of_routes (Scrape.Request.routes_eq_ok_iff.2 hfinds)).1,
      Scrape.Request.deliver, if_pos h]

/-- **The text of an artifact**: different routes have different artifacts, in whichever layouts. The
indented artifact is the compact one up to blanks and line feeds outside strings. There are no control
characters in an artifact, but line feeds where it is indented. So a listing and a scraping to standard
output, if they are not asked to indent, print one line if they succeed, and this is the artifact of the
routes that were loaded or found. -/
theorem artifact_text_exact :
    (∀ layout layout' routes routes', encode layout routes = encode layout' routes' → routes = routes') ∧
    (∀ routes, closeUp .outside (encode .indented routes).toList = (encode .compact routes).toList) ∧
    (∀ routes, ∀ c ∈ (encode .compact routes).toList, 0x20 ≤ c.toNat) ∧
    (∀ routes, ∀ c ∈ (encode .indented routes).toList, c = '\n' ∨ 0x20 ≤ c.toNat) ∧
    (∀ args request, Inspect.Request.ofArgs args = .ok request → request.command = .list .compact →
      ∀ tree output, (Inspect.run args tree).result = .ended (.done output) ↔
        ∃ config routes, request.configIn tree = .ok config ∧
          Loads tree config.artifactPath config.strictNames routes ∧
          output = encode .compact routes ++ "\n") ∧
    (∀ args request, Scrape.Request.ofArgs args = .ok request → request.file = "-" →
      request.layout = .compact →
      ∀ tree stdin output, (Scrape.run args tree stdin).result = .ended (.done output) ↔
        ∃ routes, request.Finds tree stdin routes ∧ output = encode .compact routes ++ "\n") ∧
    ∀ routes, Line.ofText (encode .compact routes ++ "\n").toList =
      [(encode .compact routes).toList] := by
  refine ⟨?_, Artifact.closeUp_encode, ?_, ?_, ?_, ?_, ofText_encode_compact⟩
  · intro layout layout' routes routes' h
    exact Artifact.encode_inj h
  · intro routes c hc
    exact Artifact.le_of_mem_encode_compact hc
  · intro routes c hc
    rcases Artifact.visible_encode hc with hle | ⟨_, hfeed⟩
    · exact Or.inr hle
    · exact Or.inl hfeed
  · intro args request hargs hcommand tree output
    rw [Inspect.run, hargs]
    exact Inspect.list_done_iff hcommand tree output
  · intro args request hargs hfile hlayout tree stdin output
    rw [Scrape.run_of_request hargs, ← hlayout]
    exact Scrape.print_done_iff hfile tree stdin output

/-- A working folder with an artifact in a layout of its own, of a path with a quote and a blank. -/
def quotedPath : FileTree :=
  { entries := [(["r.json"], .file (Text.Utf8.encode "[[\"/a\\\" b\"\n]]".toList))] }

/-- The artifact is listed in one line, as the scraper prints the route. Absent and empty methods are
written differently. -/
theorem artifact_text_exact_quoted :
    (Inspect.run ["-f", "r.json", "list"] quotedPath).result =
      .ended (.done (encode .compact [{ path := "/a\" b" }] ++ "\n")) ∧
    (Scrape.run ["-f", "-"] {} (Text.Utf8.encode "# route: A| /a\"".toList)).result =
      .ended (.done (encode .compact [{ path := "/a\"", methods := some ["A"] }] ++ "\n")) ∧
    encode .compact [{ path := "/a" }] ≠ encode .indented [{ path := "/a", methods := some [] }] := by
  obtain ⟨hinj, _, _, _, hlist, hprint, _⟩ := artifact_text_exact
  have hlistArgs : Inspect.Request.ofArgs ["-f", "r.json", "list"] =
      .ok { config := none, file := some "r.json", strict := false, command := .list .compact } := rfl
  have hprintArgs : Scrape.Request.ofArgs ["-f", "-"] =
      .ok { file := "-", layout := .compact, logLevel := "warn", inputs := [] } := rfl
  have hread : quotedPath.read "r.json" =
      .ok (Text.Utf8.encode "[[\"/a\\\" b\"\n]]".toList) := rfl
  have hloads : Loads quotedPath "r.json" false [{ path := "/a\" b" }] :=
    .intro hread (Text.Utf8.decode?_encode _) rfl rfl (by simp)
  have hroutes : Annotations.ofOctets (Text.Utf8.encode "# route: A| /a\"".toList) =
      [{ path := "/a\"", methods := some ["A"] }] := by
    decide +kernel
  refine ⟨?_, ?_, ?_⟩
  · exact (hlist _ _ hlistArgs rfl _ _).2 ⟨_, _, rfl, hloads, rfl⟩
  · exact (hprint _ _ hprintArgs rfl rfl _ _ _).2 ⟨_, Or.inl ⟨rfl, hroutes.symm⟩, rfl⟩
  · intro h
    have heq := hinj _ _ _ _ h
    simp at heq

end RouteBook.CommandLine
