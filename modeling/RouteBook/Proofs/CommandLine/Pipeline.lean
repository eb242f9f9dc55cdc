import RouteBook.Proofs.Annotations.Routes
import RouteBook.Proofs.Artifact.Saved
import RouteBook.Proofs.Catalog.Names
import RouteBook.Proofs.CommandLine.Requests

/-!
# From sources to the list of their routes

The scraper writes an artifact, and the inspector lists it. Whatever octets the source is made
of, this gives what the scraper prints of them: scanned routes have no defects, saving and
loading loses nothing, and nothing but a repeated name can stop a strict listing. Main statement:
`list_of_scraped`.
-/

namespace RouteBook.CommandLine

/-- The arguments of a scraper that writes to `out`. -/
def scrapeArgs (out : String) (pretty : Bool) (source : List String) : List String :=
  ["-f", out] ++ prettyFlag pretty ++ source

/-- The arguments of an inspector that lists `out`. -/
def listArgs (out : String) (strict pretty : Bool) : List String :=
  ["-f", out] ++ strictFlag strict ++ "list" :: prettyFlag pretty

/-- The octets that the scraper is given: those of standard input, or of a file that is named. -/
inductive Feeds (tree : FileTree) (stdin : List UInt8) : List String → List UInt8 → Prop
  | stdin : Feeds tree stdin [] stdin
  | file {path : String} {b : List UInt8} (hd : ¬ Dashed path) (h : tree.read path = .ok b) :
      Feeds tree stdin [path] b
  | afterDashes {path : String} {b : List UInt8} (h : tree.read path = .ok b) :
      Feeds tree stdin ["--", path] b

/-! ## Scraping -/

theorem ne_empty_of_read {tree : FileTree} {path : String} {b : List UInt8}
    (h : tree.read path = .ok b) : path ≠ "" := by
  rintro rfl
  simp [FileTree.read] at h

theorem scan_singleton {tree : FileTree} {path : String} {b : List UInt8}
    (h : tree.read path = .ok b) : (Source.scan tree [path]).1 = .ok (Annotations.ofOctets b) := by
  simp [Source.scan, h, Except.map]

/-- The sources of a call are its octets, and what they declare is found. -/
theorem Feeds.routes {tree : FileTree} {stdin : List UInt8} {source : List String} {b : List UInt8}
    (h : Feeds tree stdin source b) :
    ∃ inputs, SourceArgs source inputs ∧ ∀ out layout logLevel,
      (Scrape.Request.routes ⟨out, layout, logLevel, inputs⟩ tree stdin).1 =
        .ok (Annotations.ofOctets b) := by
  cases h with
  | stdin => exact ⟨[], .bare (by simp), fun _ _ _ => rfl⟩
  | file hd h =>
    exact ⟨_, .bare (by simp [hd, ne_empty_of_read h]), fun _ _ _ => scan_singleton h⟩
  | afterDashes h =>
    exact ⟨_, .afterDashes (by simp [ne_empty_of_read h]), fun _ _ _ => scan_singleton h⟩

/-- The scraper delivers the routes that the octets declare. -/
theorem scrape_eq {tree : FileTree} {stdin : List UInt8} {source : List String} {b : List UInt8}
    (h : Feeds tree stdin source b) {out : String} (hne : out ≠ "") (hout : Shape.of out = .plain)
    (pretty : Bool) :
    ∃ request : Scrape.Request, request.file = out ∧ request.layout = layoutOf pretty ∧
      (Scrape.run (scrapeArgs out pretty source) tree stdin).result =
        .ended (request.deliver tree (Annotations.ofOctets b)).1 ∧
      (Scrape.run (scrapeArgs out pretty source) tree stdin).tree =
        (request.deliver tree (Annotations.ofOctets b)).2.1 := by
  obtain ⟨inputs, hargs, hroutes⟩ := h.routes
  have hreq := scrape_request hne hout pretty hargs
  refine ⟨⟨out, layoutOf pretty, "warn", inputs⟩, rfl, rfl, ?_⟩
  rw [scrapeArgs, Scrape.run, hreq]
  exact Scrape.Request.run_of_routes (hroutes out (layoutOf pretty) "warn")

/-- To standard output, the artifact of the routes is printed. -/
theorem scrape_to_output {tree : FileTree} {stdin : List UInt8} {source : List String} {b : List UInt8}
    (h : Feeds tree stdin source b) (pretty : Bool) :
    (Scrape.run (scrapeArgs "-" pretty source) tree stdin).result =
      .ended (.done (Artifact.encode (layoutOf pretty) (Annotations.ofOctets b) ++ "\n")) := by
  have hne : "-" ≠ "" := by decide
  obtain ⟨request, hfile, hlayout, hresult, _⟩ := scrape_eq h hne rfl pretty
  rw [hresult, Scrape.Request.deliver, if_pos hfile, hlayout]

/-- To a file, the routes are saved so that they can be loaded. -/
theorem scrape_to_file {tree : FileTree} {stdin : List UInt8} {source : List String} {b : List UInt8}
    (h : Feeds tree stdin source b) {out : String} (hd : ¬ Dashed out) (hw : tree.Writable out)
    (pretty : Bool) :
    (Scrape.run (scrapeArgs out pretty source) tree stdin).result = .ended (.done "") ∧
      Artifact.load (Scrape.run (scrapeArgs out pretty source) tree stdin).tree out =
        .ok (Annotations.ofOctets b) := by
  obtain ⟨request, hfile, hlayout, hresult, htree⟩ :=
    scrape_eq h hw.ne_empty (shape_of_not_dashed hd) pretty
  have hdash : out ≠ "-" := by rintro rfl; exact hd rfl
  obtain ⟨tree', events, hs, hload⟩ :=
    Artifact.load_of_save hw (layoutOf pretty) (Annotations.defects_ofOctets b)
  have hdeliver : request.deliver tree (Annotations.ofOctets b) = (.done "", tree', events) := by
    rw [Scrape.Request.deliver, if_neg (hfile ▸ hdash), hfile, hlayout, hs]
  rw [hresult, htree, hdeliver]
  exact ⟨rfl, hload⟩

/-! ## Listing -/

/-- What a listing makes of the routes of its artifact. -/
theorem list_eq {tree : FileTree} {out : String} {routes : List Route} (hne : out ≠ "")
    (hd : ¬ Dashed out) (h : Artifact.load tree out = .ok routes) (strict pretty : Bool) :
    (Inspect.run (listArgs out strict pretty) tree).result =
      match Catalog.build strict routes with
      | .ok catalog => .ended (.done (Artifact.encode (layoutOf pretty) catalog.routes ++ "\n"))
      | .error names => .ended (.failed (Artifact.Failure.repeated names).message) := by
  have hreq := list_request hne (shape_of_not_dashed hd) strict pretty
  have hcat := Artifact.loadCatalog_of_load h strict
  rw [listArgs, Inspect.run, hreq]
  simp only [Inspect.Request.run, Inspect.Request.configIn, bind, Except.bind, Bool.false_or,
    Registry.openWith, Config.artifactPath, Catalog.load, hcat]
  cases Catalog.build strict routes with
  | error names => rfl
  | ok catalog => rfl

theorem build_strict (routes : List Route) :
    Catalog.build true routes =
      if repeatedNames routes = [] then .ok (Catalog.ofRoutes routes)
      else .error { names := repeatedNames routes } := by
  rw [Catalog.build, if_pos rfl, Catalog.ofDistinct]
  cases repeatedNames routes <;> rfl

/-- **From source to list**: whatever octets the source is made of, the scraper writes them to a
file that can be written, and the inspector then lists what the scraper prints of the same
source. The routes are loaded as they were scanned, and every name is resolved as before. A
strict listing fails exactly when two annotations share a name. -/
theorem list_of_scraped {tree : FileTree} {stdin : List UInt8} {source : List String} {b : List UInt8}
    (hb : Feeds tree stdin source b) {out : String} (hd : ¬ Dashed out) (hw : tree.Writable out)
    (p q : Bool) :
    ∃ tree' text,
      (Scrape.run (scrapeArgs out p source) tree stdin).tree = tree' ∧
      (Scrape.run (scrapeArgs out p source) tree stdin).result = .ended (.done "") ∧
      (Scrape.run (scrapeArgs "-" q source) tree stdin).result = .ended (.done text) ∧
      (Inspect.run (listArgs out false q) tree').result = .ended (.done text) ∧
      Artifact.load tree' out = .ok (Annotations.ofOctets b) ∧
      (∀ name values, (Artifact.loadCatalog tree' out false).map (·.resolve name values) =
        .ok ((Catalog.ofRoutes (Annotations.ofOctets b)).resolve name values)) ∧
      ((∃ names, (Inspect.run (listArgs out true q) tree').result =
          .ended (.failed (Artifact.Failure.repeated names).message)) ↔
        ShareName (Annotations.ofOctets b)) ∧
      (¬ ShareName (Annotations.ofOctets b) →
        (Inspect.run (listArgs out true q) tree').result = .ended (.done text)) := by
  obtain ⟨hresult, hload⟩ := scrape_to_file hb hd hw p
  have hlist := list_eq hw.ne_empty hd hload
  have hstrict := hlist true q
  rw [build_strict] at hstrict
  refine ⟨_, _, rfl, hresult, scrape_to_output hb q, ?_, hload, fun name values => ?_, ?_, ?_⟩
  · exact hlist false q
  · rw [Artifact.loadCatalog_of_load hload]; rfl
  · rw [← repeatedNames_ne_nil_iff]
    constructor
    · rintro ⟨names, hfail⟩ hnil
      rw [hstrict, if_pos hnil] at hfail
      cases hfail
    · intro hne
      rw [if_neg hne] at hstrict
      exact ⟨_, hstrict⟩
  · intro hshare
    have hnil : repeatedNames (Annotations.ofOctets b) = [] :=
      not_not.1 fun h => hshare ((repeatedNames_ne_nil_iff _).1 h)
    rw [hstrict, if_pos hnil]; rfl

/-- Two annotations with one name, and an octet that is no UTF-8 in the path of the second. -/
def sharedName : List UInt8 :=
  Text.Utf8.encode "#route[a]: /\n#route[a]: /b".toList ++ [0xFF]

/-- Read from standard input and saved in the working folder, they are listed as they are printed,
but not strictly. -/
theorem list_of_scraped_sharedName :
    ¬ Dashed "routes.json" ∧ ({} : FileTree).Writable "routes.json" ∧
      ∃ tree' text names,
        (Scrape.run (scrapeArgs "routes.json" true []) {} sharedName).tree = tree' ∧
        (Scrape.run (scrapeArgs "-" false []) {} sharedName).result = .ended (.done text) ∧
        (Inspect.run (listArgs "routes.json" false false) tree').result = .ended (.done text) ∧
        (Inspect.run (listArgs "routes.json" true false) tree').result =
          .ended (.failed (Artifact.Failure.repeated names).message) := by
  have hd : ¬ Dashed "routes.json" := by simp [Dashed]
  have hw : ({} : FileTree).Writable "routes.json" := ⟨[], _, rfl⟩
  have hshare : ShareName (Annotations.ofOctets sharedName) :=
    ⟨0, 1, _, _, "a", by decide, by rfl, by rfl, by rfl, by rfl⟩
  have hb : Feeds {} sharedName [] sharedName := .stdin
  obtain ⟨tree', text, htree, _, hprinted, hlisted, _, _, hstrict, _⟩ :=
    list_of_scraped hb hd hw true false
  obtain ⟨names, hfail⟩ := hstrict.2 hshare
  exact ⟨hd, hw, tree', text, names, htree, hprinted, hlisted, hfail⟩

end RouteBook.CommandLine
