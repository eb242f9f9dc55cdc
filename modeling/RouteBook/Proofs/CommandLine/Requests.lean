import RouteBook.CommandLine.Program
import RouteBook.Proofs.CommandLine.Spellings

/-!
# What arguments ask for

Both programs take the artifact after `-f`. A file name that begins with no dash is taken as it
is; one that does can be named as a source after `--`. The requests of the usual calls are
computed here once, so that no other proof looks at arguments.
-/

namespace RouteBook.CommandLine

/-- An argument that begins with a dash. -/
def Dashed (arg : String) : Prop := arg.toList.head? = some '-'

theorem shape_of_not_dashed {arg : String} (h : ¬ Dashed arg) : Shape.of arg = .plain := by
  unfold Dashed at h
  unfold Shape.of
  split
  · next e => simp [e] at h
  · next e => simp [e] at h
  · next e => simp [e] at h
  · next e => simp [e] at h
  · rfl

/-- The flag for an indented artifact, if one is wanted. -/
def prettyFlag (pretty : Bool) : List String := if pretty then ["-p"] else []

/-- The layout that is written with the flag, or without. -/
def layoutOf (pretty : Bool) : Json.Layout := if pretty then .indented else .compact

/-- Arguments at the end of a call that name source files. -/
inductive SourceArgs : List String → List String → Prop
  | bare {inputs : List String} (h : ∀ path ∈ inputs, path ≠ "" ∧ ¬ Dashed path) :
      SourceArgs inputs inputs
  | afterDashes {inputs : List String} (h : ∀ path ∈ inputs, path ≠ "") :
      SourceArgs ("--" :: inputs) inputs

/-! ## Requests -/

theorem SourceArgs.spells {grammar : Grammar} (hc : grammar.commands = false) {args inputs : List String}
    (h : SourceArgs args inputs) : Spells grammar (inputs.map .positional) args := by
  cases h with
  | afterDashes _ => exact .dashes hc inputs
  | bare h =>
    induction args with
    | nil => exact .nil
    | cons path args ih =>
      have hplain := shape_of_not_dashed (h path (by simp)).2
      exact .cons (.positional hc hplain) (ih fun q hq => h q (by simp [hq]))

theorem SourceArgs.ne_empty {args inputs : List String} (h : SourceArgs args inputs) :
    ∀ path ∈ inputs, path ≠ "" := by
  cases h with
  | bare h => exact fun path hp => (h path hp).1
  | afterDashes h => exact h

theorem positionals_map (given : List Given) (inputs : List String) :
    ({ given := given ++ inputs.map .positional } : Reading).positionals =
      ({ given } : Reading).positionals ++ inputs := by
  have h : ∀ inputs : List String, ({ given := inputs.map .positional } : Reading).positionals = inputs := by
    intro inputs
    induction inputs with
    | nil => rfl
    | cons path inputs ih =>
      unfold Reading.positionals at ih ⊢
      simp [ih]
  have := h inputs
  unfold Reading.positionals at this ⊢
  rw [List.filterMap_append, this]

theorem valuesOf_map (given : List Given) (inputs : List String) (long : String) :
    ({ given := given ++ inputs.map .positional } : Reading).valuesOf long =
      ({ given } : Reading).valuesOf long := by
  simp [Reading.valuesOf, List.filterMap_append, List.filterMap_map]

theorem has_map (given : List Given) (inputs : List String) (long : String) :
    ({ given := given ++ inputs.map .positional } : Reading).has long =
      ({ given } : Reading).has long := by
  simp [Reading.has]

theorem clear_scrape : Scrape.grammar.Clear where
  long := by decide
  short := by decide
  names := by decide
  letters := by decide

/-- What the scraper is given in front of its sources. -/
def scrapeGiven (out : String) (pretty : Bool) : List Given :=
  .value "file" out :: if pretty then [.flag "pretty"] else []

theorem spells_scrape {out : String} (hout : Shape.of out = .plain) (pretty : Bool)
    {args inputs : List String} (h : SourceArgs args inputs) :
    Spells Scrape.grammar (scrapeGiven out pretty ++ inputs.map .positional)
      (["-f", out] ++ prettyFlag pretty ++ args) := by
  have hfile : ({ long := "file", short := some 'f', value := some .path } : Switch) ∈
      Scrape.grammar.switches := by simp [Scrape.grammar]
  have hpretty : ({ long := "pretty", short := some 'p' } : Switch) ∈ Scrape.grammar.switches := by
    simp [Scrape.grammar]
  have hfront : ∀ {xs : List Given} {rest : List String}, Spells Scrape.grammar xs rest →
      Spells Scrape.grammar (.value "file" out :: xs) (["-f", out] ++ rest) :=
    fun hrest => .cons (.apart hfile rfl (.short rfl rfl) hout) hrest
  have hsources : Spells Scrape.grammar (inputs.map .positional) args := h.spells rfl
  rw [List.append_assoc]
  cases pretty with
  | false => exact hfront hsources
  | true => exact hfront (.cons (.flag hpretty rfl (.short rfl rfl)) hsources)

theorem sound_scrape {out : String} (hne : out ≠ "") (pretty : Bool) {inputs : List String}
    (h : ∀ path ∈ inputs, path ≠ "") :
    Scrape.grammar.Sound (scrapeGiven out pretty ++ inputs.map .positional) := by
  apply sound_of_once
  · intro x hx
    have hfile : Scrape.grammar.accepts (.value "file" out) = true := by
      simpa [Grammar.accepts, Grammar.switch?, Scrape.grammar, Kind.accepts] using hne
    rcases List.mem_append.1 hx with hx | hx
    · unfold scrapeGiven at hx
      rcases List.mem_cons.1 hx with rfl | hx
      · exact hfile
      · cases pretty with
        | false => simp at hx
        | true =>
          obtain rfl : x = .flag "pretty" := by simpa using hx
          rfl
    · obtain ⟨path, hp, rfl⟩ := List.mem_map.1 hx
      simpa [Grammar.accepts, Scrape.grammar, Kind.accepts] using h path hp
  · intro s hs
    simp only [Scrape.grammar, List.mem_cons, List.not_mem_nil, or_false] at hs
    right
    rcases hs with rfl | rfl | rfl <;> cases pretty <;>
      simp [scrapeGiven, Given.isFor, List.countP_map, Function.comp_def]

/-- The scraper is asked to write the routes of the sources to the file. -/
theorem scrape_request {out : String} (hne : out ≠ "") (hout : Shape.of out = .plain) (pretty : Bool)
    {args inputs : List String} (h : SourceArgs args inputs) :
    Scrape.Request.ofArgs (["-f", out] ++ prettyFlag pretty ++ args) =
      .ok { file := out, layout := layoutOf pretty, logLevel := "warn", inputs } := by
  have hread := (read_spells clear_scrape rfl (spells_scrape hout pretty h)).1
    (sound_scrape hne pretty h.ne_empty)
  simp only [Scrape.Request.ofArgs, hread, bind, Except.bind, Reading.value?, valuesOf_map, has_map,
    positionals_map]
  cases pretty <;> rfl

/-- A request whose sources can be read comes to the end of delivering their routes. -/
theorem Scrape.Request.run_of_routes {request : Scrape.Request} {tree : FileTree} {stdin : List UInt8}
    {routes : List Route} (h : (request.routes tree stdin).1 = .ok routes) :
    (request.run tree stdin).result = .ended (request.deliver tree routes).1 ∧
      (request.run tree stdin).tree = (request.deliver tree routes).2.1 := by
  cases hr : request.routes tree stdin with
  | mk result events =>
    obtain rfl : result = .ok routes := by rw [hr] at h; exact h
    simp only [run, hr, and_self]

/-- A request whose sources cannot be read fails, and leaves the files alone. -/
theorem Scrape.Request.run_of_fault {request : Scrape.Request} {tree : FileTree} {stdin : List UInt8}
    {fault : FileFault} (h : (request.routes tree stdin).1 = .error fault) :
    (request.run tree stdin).result = .ended (.failed fault.message) ∧
      (request.run tree stdin).tree = tree := by
  cases hr : request.routes tree stdin with
  | mk result events =>
    obtain rfl : result = .error fault := by rw [hr] at h; exact h
    simp only [run, hr, and_self]

/-- The flag for strictness about names, if it is wanted. -/
def strictFlag (strict : Bool) : List String := if strict then ["--strict"] else []

/-- The inspector is asked to list the routes of the file. -/
theorem list_request {out : String} (hne : out ≠ "") (hout : Shape.of out = .plain)
    (strict pretty : Bool) :
    Inspect.Request.ofArgs (["-f", out] ++ strictFlag strict ++ "list" :: prettyFlag pretty) =
      .ok { config := none, file := some out, strict, command := .list (layoutOf pretty) } := by
  have hf : Shape.of "-f" = .short ['f'] := rfl
  have hs : Shape.of "--strict" = .long "strict".toList none := rfl
  have hl : Shape.of "list" = .plain := rfl
  have hlist : Inspect.readList (prettyFlag pretty) = .ok (.list (layoutOf pretty)) := by
    cases pretty <;> rfl
  cases strict <;>
    simp [strictFlag, Inspect.Request.ofArgs, Inspect.readCommand, read, readFrom, hout, hf, hs, hl, hlist,
      settle, takeShort, takeLong, Inspect.grammar, addValue, addFlag, Switch.fits, Kind.accepts, hne,
      Reading.settled, Reading.value?, Reading.valuesOf, Reading.has, Given.isFor, bind, Except.bind]

end RouteBook.CommandLine
