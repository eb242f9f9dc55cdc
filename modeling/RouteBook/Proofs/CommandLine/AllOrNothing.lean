import RouteBook.Proofs.Annotations.Locality
import RouteBook.Proofs.CommandLine.Requests
import RouteBook.Proofs.FileTree.Frame

/-!
# Programs do all or nothing

A run of the scraper reads all of its sources before it prints or writes, and prints or writes as
its last step; `Scrape.Leads` has one case for each end that it can come to, and
`Scrape.Request.run_leads` says that there are no others. The inspector writes nothing at all. So a
run that fails has printed nothing and changed no file, and one that does not has printed or written
all of the artifact. Main statement: `all_or_nothing`.
-/

namespace RouteBook.CommandLine
open FileTree (SameFiles ChangesOnly)

/-! ## Ends of runs -/

/-- The run comes to an end with this exit code. -/
def Outcome.Exits (outcome : Outcome) (code : Nat) : Prop :=
  ∃ ending, outcome.result = .ended ending ∧ ending.code = code

/-- The run has printed nothing, and has left all files as they were. -/
structure Outcome.Nothing (outcome : Outcome) (tree : FileTree) : Prop where
  printed : ∀ ending, outcome.result = .ended ending → ending.output = ""
  files : SameFiles tree outcome.tree

/-- The arguments are wrong for the program. -/
def Program.Misused (program : Program) (args : List String) : Prop :=
  match program with
  | .scraper => Scrape.Request.ofArgs args = .error .misused
  | .inspector => Inspect.Request.ofArgs args = .error .misused

theorem Ending.output_of_code {ending : Ending} (h : ending.code ≠ 0) : ending.output = "" := by
  cases ending with
  | done output => exact absurd rfl h
  | failed message | misused | help => rfl

theorem Ending.code_eq_two_iff {ending : Ending} : ending.code = 2 ↔ ending = .misused := by
  cases ending <;> simp [code]

namespace Outcome
variable {outcome : Outcome}

theorem Exits.printed {code : Nat} (h : outcome.Exits code) (hc : code ≠ 0) (ending : Ending)
    (he : outcome.result = .ended ending) : ending.output = "" := by
  obtain ⟨ending', hr, rfl⟩ := h
  obtain rfl := Result.ended.inj (hr.symm.trans he)
  exact Ending.output_of_code hc

theorem exits_of_result {ending : Ending} (h : outcome.result = .ended ending) {code : Nat} :
    outcome.Exits code ↔ ending.code = code := by
  constructor
  · rintro ⟨ending', hr, hc⟩
    obtain rfl := Result.ended.inj (hr.symm.trans h)
    exact hc
  · intro hc
    exact ⟨ending, h, hc⟩

end Outcome

/-! ## The scraper -/

namespace Scrape

/-- The octets of the artifact that a request makes of routes. -/
def Request.octets (request : Request) (routes : List Route) : List UInt8 :=
  Text.Utf8.encode (Artifact.encode request.layout routes).toList

/-- The routes that the sources of a request declare: standard input, or all of its files. -/
def Request.Finds (request : Request) (tree : FileTree) (stdin : List UInt8) (routes : List Route) :
    Prop :=
  (request.inputs = [] ∧ routes = Annotations.ofOctets stdin) ∨
    (request.inputs ≠ [] ∧ ∃ contents, Source.Contents tree request.inputs contents ∧
      routes = contents.flatMap Annotations.ofOctets)

/-- The ends to which a request can lead, each with the files after it. -/
inductive Leads (request : Request) (tree : FileTree) (stdin : List UInt8) : Ending → FileTree → Prop
  /-- A source cannot be read. -/
  | unread {fault : FileFault} (h : Source.FirstFault tree request.inputs fault) :
      Leads request tree stdin (.failed fault.message) tree
  | printed {routes : List Route} (hfinds : request.Finds tree stdin routes)
      (hfile : request.file = "-") :
      Leads request tree stdin (.done (Artifact.encode request.layout routes ++ "\n")) tree
  | saved {routes : List Route} {tree' : FileTree} (hfinds : request.Finds tree stdin routes)
      (hfile : request.file ≠ "-")
      (hsave : tree.save request.file (request.octets routes) = (tree', .ok ())) :
      Leads request tree stdin (.done "") tree'
  /-- The artifact cannot be written. -/
  | unsaved {routes : List Route} {tree' : FileTree} {fault : FileFault}
      (hfinds : request.Finds tree stdin routes) (hfile : request.file ≠ "-")
      (hsave : tree.save request.file (request.octets routes) = (tree', .error fault)) :
      Leads request tree stdin (.failed (Artifact.Failure.file fault).message) tree'

section
variable {request : Request} {tree : FileTree} {stdin : List UInt8}

theorem Request.routes_eq_ok_iff {routes : List Route} :
    (request.routes tree stdin).1 = .ok routes ↔ request.Finds tree stdin routes := by
  unfold Request.routes Request.Finds
  by_cases h : request.inputs = []
  · simp [h, eq_comm]
  · simp [h, Source.scan_eq_ok_iff]

theorem Request.routes_eq_error {fault : FileFault} (h : (request.routes tree stdin).1 = .error fault) :
    Source.FirstFault tree request.inputs fault := by
  unfold Request.routes at h
  split at h
  · cases h
  · exact Source.scan_eq_error_iff.1 h

theorem Request.octets_eq (request : Request) (routes : List Route) :
    request.octets routes = Text.Utf8.encode (Artifact.encodeChars request.layout routes) := by
  rw [octets, Artifact.encode, String.toList_ofList]

/-- What was found is delivered in one of three ways. -/
theorem Request.deliver_leads {routes : List Route} (hfinds : request.Finds tree stdin routes) :
    Leads request tree stdin (request.deliver tree routes).1 (request.deliver tree routes).2.1 := by
  unfold Request.deliver
  split
  · next hfile => exact .printed hfinds hfile
  · next hfile =>
    cases hs : tree.save request.file (request.octets routes) with
    | mk tree' result =>
      have hs' := hs
      rw [Request.octets_eq] at hs'
      cases result with
      | ok _ =>
        simp only [Artifact.save, hs']
        exact .saved hfinds hfile hs
      | error fault =>
        simp only [Artifact.save, hs']
        exact .unsaved hfinds hfile hs

/-- **Ends**: every request leads to one of its ends. -/
theorem Request.run_leads (request : Request) (tree : FileTree) (stdin : List UInt8) :
    ∃ ending, (request.run tree stdin).result = .ended ending ∧
      Leads request tree stdin ending (request.run tree stdin).tree := by
  cases hr : (request.routes tree stdin).1 with
  | error fault =>
    obtain ⟨hresult, htree⟩ := Request.run_of_fault hr
    refine ⟨_, hresult, ?_⟩
    rw [htree]
    exact .unread (Request.routes_eq_error hr)
  | ok routes =>
    obtain ⟨hresult, htree⟩ := Request.run_of_routes hr
    refine ⟨_, hresult, ?_⟩
    rw [htree]
    exact Request.deliver_leads (Request.routes_eq_ok_iff.1 hr)

theorem Leads.code_ne_two {ending : Ending} {after : FileTree}
    (h : Leads request tree stdin ending after) : ending.code ≠ 2 := by
  cases h <;> simp [Ending.code]

/-- An end that is a failure leaves all files as they were. -/
theorem Leads.sameFiles {message : String} {after : FileTree}
    (h : Leads request tree stdin (.failed message) after) : SameFiles tree after := by
  cases h with
  | unread _ => exact SameFiles.refl tree
  | unsaved _ _ hsave => exact FileTree.save_sameFiles hsave

/-- What a run that succeeds has printed, or written to the one file. -/
inductive Delivered (request : Request) (routes : List Route) (before after : FileTree) : String → Prop
  | printed (hfile : request.file = "-") (hafter : after = before) :
      Delivered request routes before after (Artifact.encode request.layout routes ++ "\n")
  | written {place : Place} (hfile : request.file ≠ "-")
      (hplace : after.placeOf (Path.ofString request.file) = .ok place)
      (hchanges : ChangesOnly before after place (request.octets routes))
      (hread : after.read request.file = .ok (request.octets routes)) :
      Delivered request routes before after ""

theorem Leads.delivered {output : String} {after : FileTree}
    (h : Leads request tree stdin (.done output) after) :
    ∃ routes, request.Finds tree stdin routes ∧ Delivered request routes tree after output := by
  cases h with
  | printed hfinds hfile => exact ⟨_, hfinds, .printed hfile rfl⟩
  | saved hfinds hfile hsave =>
    obtain ⟨place, hplace, hchanges⟩ := FileTree.save_changesOnly hsave
    exact ⟨_, hfinds, .written hfile hplace hchanges (FileTree.read_of_save hsave)⟩

theorem Request.Finds.readable {routes : List Route} (h : request.Finds tree stdin routes) :
    ∀ path ∈ request.inputs, Source.Readable tree path := by
  rcases h with ⟨hnil, _⟩ | ⟨_, contents, hc, _⟩
  · simp [hnil]
  · exact Source.exists_contents_iff.1 ⟨contents, hc⟩

/-- A run succeeds if its sources can be read and its artifact can be written. -/
theorem Leads.succeeds_iff {ending : Ending} {after : FileTree}
    (h : Leads request tree stdin ending after) :
    ending.code = 0 ↔ (∀ path ∈ request.inputs, Source.Readable tree path) ∧
      (request.file = "-" ∨ tree.Writable request.file) := by
  cases h with
  | unread hfault =>
    obtain ⟨before, path, rest, hinputs, _, hread⟩ := hfault
    constructor
    · intro hc
      cases hc
    · rintro ⟨hall, _⟩
      obtain ⟨content, hok⟩ := hall path (by simp [hinputs])
      rw [hread] at hok
      cases hok
  | printed hfinds hfile => exact ⟨fun _ => ⟨hfinds.readable, Or.inl hfile⟩, fun _ => rfl⟩
  | saved hfinds hfile hsave =>
    exact ⟨fun _ => ⟨hfinds.readable, Or.inr ⟨_, _, hsave⟩⟩, fun _ => rfl⟩
  | unsaved hfinds hfile hsave =>
    constructor
    · intro hc
      cases hc
    · rintro ⟨_, hdash | hw⟩
      · exact absurd hdash hfile
      · obtain ⟨tree', hok, _⟩ := hw.save (request.octets _)
        rw [hsave] at hok
        cases hok

end

theorem run_of_request {args : List String} {request : Request}
    (h : Request.ofArgs args = .ok request) (tree : FileTree) (stdin : List UInt8) :
    Scrape.run args tree stdin = request.run tree stdin := by
  rw [Scrape.run, h]

end Scrape

/-! ## The inspector -/

namespace Inspect

theorem Command.run_not_misused (command : Command) (registry : Registry) (artifact : String) :
    (command.run registry artifact).1 ≠ .ended .misused := by
  cases command with
  | list layout => simp [Command.run]
  | watch => simp [Command.run]
  | resolve scriptName name values =>
    simp only [Command.run]
    split
    · simp
    · simp

theorem Request.run_not_misused (request : Request) (tree : FileTree) :
    (request.run tree).result ≠ .ended .misused := by
  unfold Request.run
  split
  · simp
  · split
    · simp
    · exact Command.run_not_misused _ _ _

/-- The inspector leaves the files alone, whatever it is asked to do. -/
theorem run_tree (args : List String) (tree : FileTree) : (Inspect.run args tree).tree = tree := by
  unfold Inspect.run
  split
  · rfl
  · rfl
  · unfold Request.run
    split
    · rfl
    · split <;> rfl

end Inspect

/-! ## Both programs -/

theorem exits_two_iff (program : Program) (args : List String) (tree : FileTree) (stdin : List UInt8) :
    (program.run args tree stdin).Exits 2 ↔ program.Misused args := by
  cases program with
  | scraper =>
    change (Scrape.run args tree stdin).Exits 2 ↔ Scrape.Request.ofArgs args = .error .misused
    cases hr : Scrape.Request.ofArgs args with
    | error refused => cases refused <;> simp [Scrape.run, hr, Outcome.Exits, Ending.code]
    | ok request =>
      obtain ⟨ending, hend, hleads⟩ := request.run_leads tree stdin
      rw [Scrape.run_of_request hr, Outcome.exits_of_result hend]
      simpa using hleads.code_ne_two
  | inspector =>
    change (Inspect.run args tree).Exits 2 ↔ Inspect.Request.ofArgs args = .error .misused
    cases hr : Inspect.Request.ofArgs args with
    | error refused => cases refused <;> simp [Inspect.run, hr, Outcome.Exits, Ending.code]
    | ok request =>
      have hnot := request.run_not_misused tree
      simp only [Inspect.run, hr, Outcome.Exits, Ending.code_eq_two_iff, exists_eq_right, hnot]
      simp

/-- The scraper leaves the files alone unless it succeeds. -/
theorem scrape_sameFiles {args : List String} {tree : FileTree} {stdin : List UInt8} {code : Nat}
    (h : (Scrape.run args tree stdin).Exits code) (hc : code ≠ 0) :
    SameFiles tree (Scrape.run args tree stdin).tree := by
  cases hr : Scrape.Request.ofArgs args with
  | error refused =>
    cases refused <;> simp only [Scrape.run, hr] <;> exact SameFiles.refl tree
  | ok request =>
    obtain ⟨ending, hend, hleads⟩ := request.run_leads tree stdin
    rw [Scrape.run_of_request hr] at h ⊢
    obtain rfl := (Outcome.exits_of_result hend).1 h
    cases ending with
    | failed message => exact hleads.sameFiles
    | done output => exact absurd rfl hc
    | misused => exact absurd rfl hleads.code_ne_two
    | help => exact absurd rfl hc

theorem nothing_of_exits {program : Program} {args : List String} {tree : FileTree} {stdin : List UInt8}
    {code : Nat} (h : (program.run args tree stdin).Exits code) (hc : code ≠ 0) :
    (program.run args tree stdin).Nothing tree := by
  refine ⟨h.printed hc, ?_⟩
  cases program with
  | scraper => exact scrape_sameFiles h hc
  | inspector =>
    change SameFiles tree (Inspect.run args tree).tree
    rw [Inspect.run_tree]
    exact SameFiles.refl tree

/-- **All or nothing**: whatever the arguments, the files and standard input are, a run that exits
with 1 or 2 has printed nothing and changed no file, and it exits with 2 exactly if its arguments are
wrong. The inspector never changes a file. A run of the scraper that succeeds has either printed the
artifact of the routes that its sources declared before the run, and changed no file, or written this
artifact to its output and changed no other file, also where the output is one of the sources. It
succeeds exactly if the sources can be read and the artifact can be written. -/
theorem all_or_nothing (args : List String) (tree : FileTree) (stdin : List UInt8) :
    (∀ program : Program,
      (program.run args tree stdin).Exits 1 ∨ (program.run args tree stdin).Exits 2 →
        (program.run args tree stdin).Nothing tree) ∧
    (∀ program : Program, (program.run args tree stdin).Exits 2 ↔ program.Misused args) ∧
    (Program.inspector.run args tree stdin).tree = tree ∧
    (∀ output, (Program.scraper.run args tree stdin).result = .ended (.done output) →
      ∃ request routes, Scrape.Request.ofArgs args = .ok request ∧
        request.Finds tree stdin routes ∧
        Scrape.Delivered request routes tree (Program.scraper.run args tree stdin).tree output) ∧
    ∀ request, Scrape.Request.ofArgs args = .ok request →
      ((Program.scraper.run args tree stdin).Exits 0 ↔
        (∀ path ∈ request.inputs, Source.Readable tree path) ∧
          (request.file = "-" ∨ tree.Writable request.file)) := by
  refine ⟨fun program h => ?_, fun program => exits_two_iff program args tree stdin,
    Inspect.run_tree args tree, fun output h => ?_, fun request hr => ?_⟩
  · rcases h with h | h
    · exact nothing_of_exits h (by decide)
    · exact nothing_of_exits h (by decide)
  · change (Scrape.run args tree stdin).result = .ended (.done output) at h
    change ∃ request routes, Scrape.Request.ofArgs args = .ok request ∧
      request.Finds tree stdin routes ∧
      Scrape.Delivered request routes tree (Scrape.run args tree stdin).tree output
    cases hr : Scrape.Request.ofArgs args with
    | error refused => cases refused <;> simp [Scrape.run, hr] at h
    | ok request =>
      obtain ⟨ending, hend, hleads⟩ := request.run_leads tree stdin
      rw [Scrape.run_of_request hr] at h ⊢
      obtain rfl := Result.ended.inj (hend.symm.trans h)
      obtain ⟨routes, hfinds, hdelivered⟩ := hleads.delivered
      exact ⟨request, routes, rfl, hfinds, hdelivered⟩
  · change (Scrape.run args tree stdin).Exits 0 ↔ _
    obtain ⟨ending, hend, hleads⟩ := request.run_leads tree stdin
    rw [Scrape.run_of_request hr, Outcome.exits_of_result hend]
    exact hleads.succeeds_iff

/-- A working folder with one source. -/
def oneSource : FileTree :=
  { entries := [(["a.rb"], .file (Text.Utf8.encode "# route: /a".toList))] }

/-- The source is replaced by the artifact of what it declared; with a source that is missing, it
stays as it is. -/
theorem all_or_nothing_ontoItself :
    (Program.scraper.run ["-f", "a.rb", "a.rb"] oneSource []).Exits 0 ∧
      (Program.scraper.run ["-f", "a.rb", "a.rb"] oneSource []).tree.content? ["a.rb"] =
        some (Text.Utf8.encode "[\x7b\"path\":\"/a\"\x7d]".toList) ∧
      (Program.scraper.run ["-f", "a.rb", "a.rb", "b.rb"] oneSource []).Nothing oneSource ∧
      (Program.scraper.run ["-f"] oneSource []).Exits 2 := by
  have hrequest : Scrape.Request.ofArgs ["-f", "a.rb", "a.rb"] =
      .ok { file := "a.rb", layout := .compact, logLevel := "warn", inputs := ["a.rb"] } := rfl
  have hreadable : Source.Readable oneSource "a.rb" := ⟨_, rfl⟩
  have hwritable : oneSource.Writable "a.rb" := ⟨[], _, rfl⟩
  have hfails : (Program.scraper.run ["-f", "a.rb", "a.rb", "b.rb"] oneSource []).Exits 1 :=
    ⟨_, rfl, rfl⟩
  obtain ⟨_, _, _, _, hsucceeds⟩ := all_or_nothing ["-f", "a.rb", "a.rb"] oneSource []
  obtain ⟨hnothing, _⟩ := all_or_nothing ["-f", "a.rb", "a.rb", "b.rb"] oneSource []
  obtain ⟨_, hmisused, _⟩ := all_or_nothing ["-f"] oneSource []
  refine ⟨(hsucceeds _ hrequest).2 ⟨?_, Or.inr hwritable⟩, by rfl, hnothing _ (Or.inl hfails),
    (hmisused .scraper).2 rfl⟩
  simpa using hreadable

end RouteBook.CommandLine
