import RouteBook.Proofs.CommandLine.Printed
import RouteBook.Proofs.CommandLine.Spellings
import RouteBook.Proofs.Pairs
import RouteBook.Proofs.Resolution.Filling

/-!
# Resolving from the command line

A call of `resolve` gives a name and values, keyed or positional (`Call`), behind what is said about the
registry (`Front`). Whatever they are, they can be written (`Front.exists_writtenAs`,
`Call.exists_writtenAs`). However all of it is spelled, the call is misused exactly if it mixes the two
kinds of values or a keyed value has no equals sign (`readResolve_of_misused`, `readResolve_of_split`).
Else the values reach the catalog, keyed ones as the map that they make. Main statement:
`resolve_run_exact`.
-/

namespace RouteBook

/-! ## The map of keyed values as pairs -/

/-- Pairs put together one after the other: of pairs with one key, the last counts. -/
def collected (pairs : List (String × String)) : List (String × String) :=
  pairs.foldl (fun all pair => Pairs.put all pair.1 pair.2) []

theorem collected_append_singleton (pairs : List (String × String)) (key value : String) :
    collected (pairs ++ [(key, value)]) = Pairs.put (collected pairs) key value := by
  simp [collected]

theorem nodup_keys_collected (pairs : List (String × String)) :
    ((collected pairs).map Prod.fst).Nodup := by
  induction pairs using List.reverseRecOn with
  | nil => simp [collected]
  | append_singleton pairs pair ih =>
    rw [collected_append_singleton]
    exact Pairs.nodup_keys_put ih pair.1 pair.2

theorem lookup_collected (pairs : List (String × String)) :
    (fun key => (collected pairs).lookup key) = keyedMap pairs := by
  induction pairs using List.reverseRecOn with
  | nil => rfl
  | append_singleton pairs pair ih =>
    obtain ⟨k, v⟩ := pair
    rw [collected_append_singleton, keyedMap_append_singleton, ← ih]
    funext key
    rw [Pairs.lookup_put, Function.update_apply]

/-- Only the map that pairs make counts for a template. -/
theorem resolve_collected (catalog : Catalog) (name : String) (pairs : List (String × String)) :
    catalog.resolve name (some (.keyed (collected pairs))) =
      catalog.resolve name (some (.keyed pairs)) := by
  have hvalues : Template.lastValue? (collected pairs) = Template.lastValue? pairs := by
    rw [lastValue?_eq_keyedMap pairs, ← lookup_collected]
    funext key
    exact Pairs.lookup_reverse (nodup_keys_collected pairs) key
  simp only [Catalog.resolve, fillTemplate, hvalues]

namespace CommandLine
open Artifact (Loads)

/-! ## Calls -/

/-- The text is a key and a value with an equals sign between them, the first of the text. -/
def SplitsAt (text : String) (pair : String × String) : Prop :=
  text.toList = pair.1.toList ++ '=' :: pair.2.toList ∧ '=' ∉ pair.1.toList

/-- What is said about the registry. -/
structure Front where
  config : Option String := none
  file : Option String := none
  strict : Bool := false
deriving DecidableEq, Repr

/-- The request for a command. -/
def Front.request (front : Front) (command : Inspect.Command) : Inspect.Request where
  config := front.config
  file := front.file
  strict := front.strict
  command := command

/-- The configuration, for which the command does not matter. -/
def Front.configIn (front : Front) (tree : FileTree) : Except Inspect.Failure Config :=
  (front.request .watch).configIn tree

/-- The arguments say this about the registry, in any spelling and order. -/
def Front.WrittenAs (front : Front) (args : List String) : Prop :=
  front.config ≠ some "" ∧ front.file ≠ some "" ∧
    ∃ r : Reading, Spells Inspect.grammar r.given args ∧
      r.valuesOf "config" = front.config.toList ∧ r.valuesOf "file" = front.file.toList ∧
      r.given.count (.flag "strict") = front.strict.toNat

/-- What is given to `resolve`. -/
structure Call where
  name : String
  /-- The keyed values, each as one text. -/
  keyed : List String := []
  values : List String := []
  /-- Values are positional even if there are none. -/
  positional : Bool := false
  scriptName : Option String := none
deriving DecidableEq, Repr

namespace Call

/-- The arguments give this to `resolve`, in any spelling and order. -/
def WrittenAs (call : Call) (args : List String) : Prop :=
  ∃ r : Reading, Spells Inspect.resolveGrammar r.given args ∧
    r.positionals = call.name :: call.values ∧ r.valuesOf "arg" = call.keyed ∧
    r.valuesOf "script-name" = call.scriptName.toList ∧
    r.given.count (.flag "positional") = call.positional.toNat

/-- Keyed values stand together with positional ones. -/
def Clashes (call : Call) : Prop :=
  call.keyed ≠ [] ∧ (call.values ≠ [] ∨ call.positional = true)

/-- The values for the catalog, if the keyed ones are these pairs. -/
def arguments (call : Call) (pairs : List (String × String)) : Option Values :=
  if call.keyed ≠ [] then some (.keyed pairs)
  else if call.values ≠ [] ∨ call.positional = true then some (.positional call.values)
  else none

/-- What is printed of a path. -/
def printed (call : Call) (config : Config) (path : String) : String :=
  (if config.addScriptName then call.scriptName.getD "" else "") ++ path ++ "\n"

/-- The end to which the answer of the catalog leads. -/
def ending (call : Call) (config : Config) : Except Refusal String → Ending
  | .ok path => .done (call.printed config path)
  | .error refusal => .failed refusal.message

end Call

/-! ## Writing calls -/

/-- The options for what is said about the registry. -/
def Front.options (front : Front) : List Given :=
  front.config.toList.map (.value "config") ++ front.file.toList.map (.value "file") ++
    List.replicate front.strict.toNat (.flag "strict")

/-- The options of a call, without its name and positional values. -/
def Call.options (call : Call) : List Given :=
  call.keyed.map (.value "arg") ++ call.scriptName.toList.map (.value "script-name") ++
    List.replicate call.positional.toNat (.flag "positional")

/-- Whatever is said about the registry can be written, if no path is empty. -/
theorem Front.exists_writtenAs {front : Front} (hc : front.config ≠ some "")
    (hf : front.file ≠ some "") : ∃ args, front.WrittenAs args := by
  have hall : ∀ x ∈ front.options, ∃ args, Spelled Inspect.grammar x args := by
    simp only [options, List.mem_append, List.mem_map, List.mem_replicate]
    rintro x ((⟨path, _, rfl⟩ | ⟨path, _, rfl⟩) | ⟨_, rfl⟩)
    · let s : Switch := { long := "config", short := some 'c', value := some .path }
      exact exists_spelled_value (s := s) (by simp [s, Inspect.grammar]) rfl path
    · let s : Switch := { long := "file", short := some 'f', value := some .path }
      exact exists_spelled_value (s := s) (by simp [s, Inspect.grammar]) rfl path
    · let s : Switch := { long := "strict" }
      exact exists_spelled_flag (s := s) (by simp [s, Inspect.grammar]) rfl
  obtain ⟨args, hspells⟩ := exists_spells_append hall .nil
  rw [List.append_nil] at hspells
  refine ⟨args, hc, hf, { given := front.options }, hspells, ?_, ?_, ?_⟩
  · cases hs : front.strict <;> simp [options, Reading.valuesOf, List.filterMap_map, hs]
  · cases hs : front.strict <;> simp [options, Reading.valuesOf, List.filterMap_map, hs]
  · simp [options, count_flag_map]

/-- Every call can be written: what could be taken for an option stands after two dashes. -/
theorem Call.exists_writtenAs (call : Call) : ∃ args, call.WrittenAs args := by
  have hall : ∀ x ∈ call.options, ∃ args, Spelled Inspect.resolveGrammar x args := by
    simp only [options, List.mem_append, List.mem_map, List.mem_replicate]
    rintro x ((⟨text, _, rfl⟩ | ⟨script, _, rfl⟩) | ⟨_, rfl⟩)
    · let s : Switch := { long := "arg", short := some 'a', value := some .pair, repeats := true }
      exact exists_spelled_value (s := s) (by simp [s, Inspect.resolveGrammar]) rfl text
    · let s : Switch := { long := "script-name", value := some .text }
      exact exists_spelled_value (s := s) (by simp [s, Inspect.resolveGrammar]) rfl script
    · let s : Switch := { long := "positional" }
      exact exists_spelled_flag (s := s) (by simp [s, Inspect.resolveGrammar]) rfl
  obtain ⟨args, hspells⟩ := exists_spells_append hall (.dashes rfl (call.name :: call.values))
  refine ⟨args, { given := call.options ++ (call.name :: call.values).map .positional }, hspells,
    ?_, ?_, ?_, ?_⟩
  · cases hp : call.positional <;> simp [options, Reading.positionals, List.filterMap_map, hp]
  · cases hp : call.positional <;> simp [options, Reading.valuesOf, List.filterMap_map, hp]
  · cases hp : call.positional <;> simp [options, Reading.valuesOf, List.filterMap_map, hp]
  · simp [options, count_flag_map]

/-! ## Keyed values -/

namespace Inspect

theorem keyedValue?_eq_some_iff {text : String} {pair : String × String} :
    keyedValue? text = some pair ↔ SplitsAt text pair := by
  obtain ⟨key, value⟩ := pair
  unfold keyedValue? SplitsAt
  have hspan := List.takeWhile_append_dropWhile (p := (· ≠ '=')) (l := text.toList)
  have htake : '=' ∉ text.toList.takeWhile (· ≠ '=') := by
    intro h
    simpa using List.mem_takeWhile_imp h
  constructor
  · intro h
    split at h
    · cases h
    · next c rest hdrop =>
      have hc : c = '=' := by
        have hhead := List.head?_dropWhile_not (· ≠ '=') text.toList
        rw [hdrop] at hhead
        simpa using hhead
      rw [hdrop] at hspan
      subst hc
      cases h
      simp only [String.toList_ofList]
      exact ⟨hspan.symm, htake⟩
  · rintro ⟨htext, hkey⟩
    rw [htext, Text.dropWhile_ne_append hkey, Text.takeWhile_ne_append hkey]
    simp

theorem exists_splitsAt_iff {text : String} : (∃ pair, SplitsAt text pair) ↔ '=' ∈ text.toList := by
  constructor
  · rintro ⟨pair, h, _⟩
    simp [h]
  · intro h
    obtain ⟨before, after, htext, hbefore⟩ := List.eq_append_cons_of_mem h
    exact ⟨(String.ofList before, String.ofList after), by simpa using htext, by simpa using hbefore⟩

theorem mapM_keyedValue? {texts : List String} {pairs : List (String × String)}
    (h : List.Forall₂ SplitsAt texts pairs) : texts.mapM keyedValue? = some pairs := by
  induction h with
  | nil => rfl
  | cons h _ ih => simp [List.mapM_cons, keyedValue?_eq_some_iff.2 h, ih]

/-- Texts can all be split if each has an equals sign. -/
theorem exists_pairs_iff {texts : List String} :
    (∃ pairs, List.Forall₂ SplitsAt texts pairs) ↔ ∀ text ∈ texts, '=' ∈ text.toList := by
  induction texts with
  | nil => simp
  | cons text texts ih =>
    rw [List.forall_mem_cons, ← ih, ← exists_splitsAt_iff]
    constructor
    · rintro ⟨_, h⟩
      cases h with
      | cons hpair hpairs => exact ⟨⟨_, hpair⟩, _, hpairs⟩
    · rintro ⟨⟨pair, hpair⟩, pairs, hpairs⟩
      exact ⟨pair :: pairs, .cons hpair hpairs⟩

/-! ## Reading a call -/

theorem clear_grammar : grammar.Clear where
  long := by decide
  short := by decide
  names := by decide
  letters := by decide

theorem clear_resolveGrammar : resolveGrammar.Clear where
  long := by decide
  short := by decide
  names := by decide
  letters := by decide

/-- Options in front of the command are in order if no path is empty. -/
theorem sound_front {front : Front} {r : Reading} {args : List String}
    (h : Spells grammar r.given args) (hconfig : r.valuesOf "config" = front.config.toList)
    (hfile : r.valuesOf "file" = front.file.toList)
    (hstrict : r.given.count (.flag "strict") = front.strict.toNat) (hc : front.config ≠ some "")
    (hf : front.file ≠ some "") : grammar.Sound r.given := by
  have hpath : ∀ {long : String} {path : Option String}, r.valuesOf long = path.toList →
      path ≠ some "" → ∀ value, .value long value ∈ r.given → value ≠ "" := by
    rintro long path hvalues hne _ hmem rfl
    rw [← mem_valuesOf, hvalues, Option.mem_toList] at hmem
    exact hne hmem
  apply sound_of_once
  · intro x hx
    cases h.has x hx with
    | positional hc value => simp [grammar] at hc
    | flag hs hv => exact clear_grammar.accepts_flag hs
    | @value s hs hv value =>
      rw [clear_grammar.accepts_value hs]
      simp only [grammar, List.mem_cons, List.not_mem_nil, or_false] at hs
      rcases hs with rfl | rfl | rfl
      · simpa [Kind.accepts] using hpath hconfig hc value hx
      · simpa [Kind.accepts] using hpath hfile hf value hx
      · simp at hv
  · intro s hs
    have hs' := hs
    simp only [grammar, List.mem_cons, List.not_mem_nil, or_false] at hs
    rcases hs with rfl | rfl | rfl
    · exact Or.inr (once_of_option clear_grammar h.has hs' rfl hconfig)
    · exact Or.inr (once_of_option clear_grammar h.has hs' rfl hfile)
    · exact Or.inr (once_of_flag clear_grammar h.has hs' rfl hstrict)

/-- What is given to `resolve` is in order exactly if all keyed values have an equals sign. -/
theorem sound_resolve_iff {call : Call} {r : Reading} {args : List String}
    (h : Spells resolveGrammar r.given args) (hkeyed : r.valuesOf "arg" = call.keyed)
    (hscript : r.valuesOf "script-name" = call.scriptName.toList)
    (hflag : r.given.count (.flag "positional") = call.positional.toNat) :
    resolveGrammar.Sound r.given ↔ ∀ text ∈ call.keyed, '=' ∈ text.toList := by
  constructor
  · intro hsound text htext
    rw [← hkeyed, mem_valuesOf] at htext
    by_contra hnone
    refine not_sound_of_mem htext ?_ hsound
    simpa [resolveGrammar, Grammar.accepts, Grammar.switch?, Kind.accepts] using hnone
  · intro hall
    apply sound_of_once
    · intro x hx
      cases h.has x hx with
      | positional _ value => rfl
      | flag hs hv => exact clear_resolveGrammar.accepts_flag hs
      | @value s hs hv value =>
        rw [clear_resolveGrammar.accepts_value hs]
        simp only [resolveGrammar, List.mem_cons, List.not_mem_nil, or_false] at hs
        rcases hs with rfl | rfl | rfl
        · have htext : value ∈ call.keyed := hkeyed ▸ mem_valuesOf.2 hx
          simpa [Kind.accepts] using hall value htext
        · simp at hv
        · rfl
    · intro s hs
      have hs' := hs
      simp only [resolveGrammar, List.mem_cons, List.not_mem_nil, or_false] at hs
      rcases hs with rfl | rfl | rfl
      · exact Or.inl rfl
      · exact Or.inr (once_of_flag clear_resolveGrammar h.has hs' rfl hflag)
      · exact Or.inr (once_of_option clear_resolveGrammar h.has hs' rfl hscript)

theorem valuesOf_of_clashes {call : Call} {pairs : List (String × String)} (hne : pairs ≠ [])
    (h : call.values ≠ [] ∨ call.positional = true) :
    valuesOf pairs call.positional call.values = .error .misused := by
  have hempty : pairs.isEmpty = false := by simpa using hne
  unfold valuesOf
  rcases h with h | h
  · simp [hempty, h]
  · simp [hempty, h]

theorem valuesOf_of_not_clashes {call : Call} {pairs : List (String × String)}
    (hnil : call.keyed = [] ↔ pairs = []) (h : ¬ call.Clashes) :
    valuesOf pairs call.positional call.values = .ok (call.arguments pairs) := by
  unfold valuesOf Call.arguments
  by_cases hkeyed : call.keyed = []
  · by_cases hvalues : call.values ≠ [] ∨ call.positional = true
    · have hvalues' : call.positional = true ∨ call.values ≠ [] := hvalues.symm
      simp [hkeyed, hnil.1 hkeyed, hvalues, hvalues']
    · have hvalues' : ¬ (call.positional = true ∨ call.values ≠ []) := fun e => hvalues e.symm
      simp [hkeyed, hnil.1 hkeyed, hvalues, hvalues']
  · have hpairs : pairs ≠ [] := fun e => hkeyed (hnil.2 e)
    have hnone : ¬ (call.positional = true ∨ call.values ≠ []) := fun e => h ⟨hkeyed, e.symm⟩
    simp [hkeyed, hpairs, hnone]

/-- If all keyed values have an equals sign, it is left to see whether values are mixed. -/
theorem readResolve_of_split {call : Call} {args : List String} (h : call.WrittenAs args)
    {pairs : List (String × String)} (hpairs : List.Forall₂ SplitsAt call.keyed pairs) :
    readResolve args = (valuesOf pairs call.positional call.values).map fun values =>
      .resolve (call.scriptName.getD "") call.name values := by
  obtain ⟨r, hspells, hpositionals, hkeyed, hscript, hflag⟩ := h
  have hall := exists_pairs_iff.1 ⟨pairs, hpairs⟩
  have hsound := (sound_resolve_iff hspells hkeyed hscript hflag).2 hall
  have hread := (read_spells clear_resolveGrammar rfl hspells).1 hsound
  -- What was read has the same things given, and nothing else is looked at.
  have hpositionals' : ({ given := r.given } : Reading).positionals = call.name :: call.values :=
    hpositionals
  have hkeyed' : ({ given := r.given } : Reading).valuesOf "arg" = call.keyed := hkeyed
  have hscript' : ({ given := r.given } : Reading).value? "script-name" = call.scriptName :=
    value?_of hscript
  have hflag' : ({ given := r.given } : Reading).has "positional" = call.positional := has_of hflag
  rw [readResolve, hread]
  simp only [bind, Except.bind, hpositionals', hkeyed', mapM_keyedValue? hpairs, hscript', hflag']
  cases valuesOf pairs call.positional call.values <;> rfl

/-- A call that mixes values, or has a keyed one without an equals sign, is misused. -/
theorem readResolve_of_misused {call : Call} {args : List String} (h : call.WrittenAs args)
    (hbad : call.Clashes ∨ ∃ text ∈ call.keyed, '=' ∉ text.toList) :
    readResolve args = .error .misused := by
  by_cases hall : ∀ text ∈ call.keyed, '=' ∈ text.toList
  · have hclash : call.Clashes := by
      rcases hbad with hclash | ⟨text, htext, hnone⟩
      · exact hclash
      · exact absurd (hall text htext) hnone
    obtain ⟨pairs, hpairs⟩ := exists_pairs_iff.2 hall
    have hne : pairs ≠ [] := by
      rintro rfl
      exact hclash.1 (List.forall₂_nil_right_iff.1 hpairs)
    rw [readResolve_of_split h hpairs, valuesOf_of_clashes hne hclash.2]
    rfl
  · obtain ⟨r, hspells, hpositionals, hkeyed, hscript, hflag⟩ := h
    have hsound : ¬ resolveGrammar.Sound r.given :=
      fun hsound => hall ((sound_resolve_iff hspells hkeyed hscript hflag).1 hsound)
    rw [readResolve, (read_spells clear_resolveGrammar rfl hspells).2 hsound]
    rfl

/-- The request that a front and a call make: the front is settled when the call is in order. -/
theorem ofArgs_resolve {front : Front} {before : List String} (hfront : front.WrittenAs before)
    (args : List String) :
    Request.ofArgs (before ++ "resolve" :: args) = (readResolve args).map front.request := by
  obtain ⟨hc, hf, r, hspells, hconfig, hfile, hstrict⟩ := hfront
  have hsound := sound_front hspells hconfig hfile hstrict hc hf
  have hplain : Shape.of "resolve" = .plain := rfl
  have hnothing : settle [] .nothing = .ok [] := rfl
  obtain ⟨given, pending, hread, hsettle⟩ := readFrom_command clear_grammar rfl (by simp) hspells
    hnothing (foldlM_add_of_sound hsound) hplain args
  have hconfig' : ({ given := r.given, command := some ("resolve", args) } : Reading).value? "config" =
      front.config := value?_of hconfig
  have hfile' : ({ given := r.given, command := some ("resolve", args) } : Reading).value? "file" =
      front.file := value?_of hfile
  have hstrict' : ({ given := r.given, command := some ("resolve", args) } : Reading).has "strict" =
      front.strict := has_of hstrict
  rw [Request.ofArgs, read, hread]
  simp only [bind, Except.bind, readCommand, Reading.settled, hsettle]
  cases readResolve args with
  | error refused => rfl
  | ok command =>
    simp only [hconfig', hfile', hstrict', Except.map]
    rfl

theorem run_of_misused {front : Front} {call : Call} {before args : List String}
    (hfront : front.WrittenAs before) (hcall : call.WrittenAs args)
    (hbad : call.Clashes ∨ ∃ text ∈ call.keyed, '=' ∉ text.toList) (tree : FileTree) :
    (Inspect.run (before ++ "resolve" :: args) tree).result = .ended .misused := by
  rw [Inspect.run, ofArgs_resolve hfront, readResolve_of_misused hcall hbad]
  rfl

/-- A call whose values can be used is a request to resolve the name with them. -/
theorem run_of_split {front : Front} {call : Call} {before args : List String}
    (hfront : front.WrittenAs before) (hcall : call.WrittenAs args)
    {pairs : List (String × String)} (hpairs : List.Forall₂ SplitsAt call.keyed pairs)
    (hclash : ¬ call.Clashes) (tree : FileTree) :
    Inspect.run (before ++ "resolve" :: args) tree =
      (front.request (.resolve (call.scriptName.getD "") call.name (call.arguments pairs))).run tree := by
  have hnil : call.keyed = [] ↔ pairs = [] := by
    constructor
    · intro h
      exact List.forall₂_nil_left_iff.1 (h ▸ hpairs)
    · intro h
      exact List.forall₂_nil_right_iff.1 (h ▸ hpairs)
  rw [Inspect.run, ofArgs_resolve hfront, readResolve_of_split hcall hpairs,
    valuesOf_of_not_clashes hnil hclash]
  rfl

theorem resolve_arguments (catalog : Catalog) (call : Call) (pairs : List (String × String)) :
    catalog.resolve call.name (call.arguments (collected pairs)) =
      catalog.resolve call.name (call.arguments pairs) := by
  unfold Call.arguments
  by_cases h : call.keyed ≠ []
  · rw [if_pos h, if_pos h, resolve_collected]
  · rw [if_neg h, if_neg h]

/-- The end of a request to resolve, from what the catalog answers. -/
theorem run_resolve_of_loads {front : Front} {tree : FileTree} {config : Config} {routes : List Route}
    (call : Call) (hconfig : front.configIn tree = .ok config)
    (hloads : Loads tree config.artifactPath config.strictNames routes) (values : Option Values) :
    ((front.request (.resolve (call.scriptName.getD "") call.name values)).run tree).result =
      .ended (call.ending config ((Catalog.ofRoutes routes).resolve call.name values)) := by
  have hconfig' : (front.request (.resolve (call.scriptName.getD "") call.name values)).configIn tree =
      .ok config := hconfig
  obtain ⟨registry, hcatalog, hscript, hrun⟩ := run_of_loads hconfig' hloads
  have hresolve := registry.resolve_fst call.name values
  rw [hcatalog] at hresolve
  rw [hrun, ← hresolve, Front.request, Command.run, Registry.resolveMounted]
  generalize registry.resolve call.name values = resolved
  obtain ⟨answer, report⟩ := resolved
  cases answer with
  | error refusal => rfl
  | ok path =>
    simp only [Except.map, hscript, Call.ending, Call.printed]
    cases config.addScriptName <;> simp

end Inspect

open Inspect in
/-- **Resolving from the command line**: whatever is said about the registry, without an empty path, can be
written, and every call can. With an artifact that can be loaded, a call is misused exactly if it mixes
keyed and positional values or a keyed one has no equals sign. Else each keyed value is split at its first
equals sign, and the name is resolved with the map that they make, or the positional values, or no values.
The path is printed if there is one, behind the script name where the configuration wants it; else the run
fails and tells why. -/
theorem resolve_run_exact :
    (∀ front : Front, front.config ≠ some "" → front.file ≠ some "" →
      ∃ before, front.WrittenAs before) ∧
    (∀ call : Call, ∃ args, call.WrittenAs args) ∧
    ∀ {front : Front} {call : Call} {before args : List String} {tree : FileTree} {config : Config}
      {routes : List Route}, front.WrittenAs before → call.WrittenAs args →
      front.configIn tree = .ok config → Loads tree config.artifactPath config.strictNames routes →
      let outcome := Inspect.run (before ++ "resolve" :: args) tree
      let misused := call.Clashes ∨ ∃ text ∈ call.keyed, '=' ∉ text.toList
      (outcome.Exits 2 ↔ misused) ∧
        (¬ misused → ∃ pairs, List.Forall₂ SplitsAt call.keyed pairs ∧
          let answer := (Catalog.ofRoutes routes).resolve call.name (call.arguments (collected pairs))
          (outcome.Exits 0 ↔ ∃ path, answer = .ok path) ∧
            (∀ path, answer = .ok path → outcome.result = .ended (.done (call.printed config path))) ∧
            ∀ refusal, answer = .error refusal → ∃ ending, outcome.result = .ended ending ∧
              ending.code = 1 ∧ ending.complaint? = some ("Error: " ++ refusal.message)) := by
  refine ⟨fun front => Front.exists_writtenAs, Call.exists_writtenAs, ?_⟩
  intro front call before args tree config routes hfront hcall hconfig hloads outcome misused
  by_cases hbad : misused
  · have hresult : outcome.result = .ended .misused := run_of_misused hfront hcall hbad tree
    refine ⟨?_, fun h => absurd hbad h⟩
    rw [Outcome.exits_of_result hresult]
    simp [Ending.code, hbad]
  · have hall : ∀ text ∈ call.keyed, '=' ∈ text.toList := by
      intro text htext
      by_contra hnone
      exact hbad (Or.inr ⟨text, htext, hnone⟩)
    obtain ⟨pairs, hpairs⟩ := exists_pairs_iff.2 hall
    have hrun : outcome = (front.request _).run tree :=
      run_of_split hfront hcall hpairs (fun h => hbad (Or.inl h)) tree
    have hresult := run_resolve_of_loads call hconfig hloads (call.arguments pairs)
    rw [← hrun, ← resolve_arguments] at hresult
    refine ⟨?_, fun _ => ⟨pairs, hpairs, ?_⟩⟩
    · rw [Outcome.exits_of_result hresult, Ending.code_eq_two_iff]
      refine iff_of_false ?_ hbad
      cases (Catalog.ofRoutes routes).resolve call.name (call.arguments (collected pairs)) <;>
        simp [Call.ending]
    · intro answer
      have hanswer : outcome.result = .ended (call.ending config answer) := hresult
      cases ha : answer with
      | ok path =>
        rw [ha, Call.ending] at hanswer
        rw [Outcome.exits_of_result hanswer]
        simp [Ending.code, hanswer]
      | error refusal =>
        rw [ha, Call.ending] at hanswer
        rw [Outcome.exits_of_result hanswer]
        simp [Ending.code, Ending.complaint?, hanswer]

/-- A working folder with an artifact of one named route, and a configuration under which the script name
is put in front of paths. -/
def mountedFolder : FileTree :=
  { entries := [
      (["c.toml"], .file (Text.Utf8.encode "file = \"r.json\"\nadd_script_name = true\n".toList)),
      (["r.json"], .file (Text.Utf8.encode "[[\"/foo/:id\",null,\"n\"]]".toList))] }

/-- One key is given twice, and its last value has an equals sign in it. Beside a positional value the
call is misused. -/
theorem resolve_run_exact_twiceGiven :
    (Inspect.run ["-cc.toml", "--strict", "resolve", "-aid=old", "n", "--arg=id=a=b", "--script-name", "/x"]
      mountedFolder).result = .ended (.done "/x/foo/a=b\n") ∧
    (Inspect.run ["-cc.toml", "--strict", "resolve", "n", "-a", "id=old", "--", "v"]
      mountedFolder).Exits 2 := by
  have hconfigSwitch : ({ long := "config", short := some 'c', value := some .path } : Switch) ∈
      Inspect.grammar.switches := by simp [Inspect.grammar]
  have hstrictSwitch : ({ long := "strict" } : Switch) ∈ Inspect.grammar.switches := by
    simp [Inspect.grammar]
  have hargSwitch : ({ long := "arg", short := some 'a', value := some .pair, repeats := true } : Switch) ∈
      Inspect.resolveGrammar.switches := by simp [Inspect.resolveGrammar]
  have hscriptSwitch : ({ long := "script-name", value := some .text } : Switch) ∈
      Inspect.resolveGrammar.switches := by simp [Inspect.resolveGrammar]
  have hfront : Front.WrittenAs { config := some "c.toml", strict := true } ["-cc.toml", "--strict"] := by
    refine ⟨by decide, by decide, { given := [.value "config" "c.toml", .flag "strict"] }, ?_, rfl, rfl, rfl⟩
    exact .cons (.joined hconfigSwitch rfl (.close rfl rfl (by decide) (by decide)))
      (.cons (.flag hstrictSwitch rfl (.long rfl)) .nil)
  have hcall : Call.WrittenAs { name := "n", keyed := ["id=old", "id=a=b"], scriptName := some "/x" }
      ["-aid=old", "n", "--arg=id=a=b", "--script-name", "/x"] := by
    refine ⟨{ given := [.value "arg" "id=old", .positional "n", .value "arg" "id=a=b",
      .value "script-name" "/x"] }, ?_, rfl, rfl, rfl, rfl⟩
    exact .cons (.joined hargSwitch rfl (.close rfl rfl (by decide) (by decide)))
      (.cons (.positional rfl rfl) (.cons (.joined hargSwitch rfl (.long rfl))
        (.cons (.apart hscriptSwitch rfl (.long rfl) rfl) .nil)))
  have hmixed : Call.WrittenAs { name := "n", keyed := ["id=old"], values := ["v"] }
      ["n", "-a", "id=old", "--", "v"] := by
    refine ⟨{ given := [.positional "n", .value "arg" "id=old", .positional "v"] }, ?_, rfl, rfl, rfl, rfl⟩
    exact .cons (.positional rfl rfl) (.cons (.apart hargSwitch rfl (.short rfl rfl) rfl)
      (.dashes rfl ["v"]))
  have hconfig : Front.configIn { config := some "c.toml", strict := true } mountedFolder =
      .ok { file := "r.json", addScriptName := true, strictNames := true } := by rfl
  have hread : mountedFolder.read "r.json" =
      .ok (Text.Utf8.encode "[[\"/foo/:id\",null,\"n\"]]".toList) := by rfl
  have hloads : Loads mountedFolder "r.json" true [{ path := "/foo/:id", name := some "n" }] := by
    refine .intro hread (Text.Utf8.decode?_encode _) rfl rfl fun _ hshare => ?_
    exact (repeatedNames_ne_nil_iff _).2 hshare rfl
  refine ⟨?_, ?_⟩
  · obtain ⟨_, hused⟩ := resolve_run_exact.2.2 hfront hcall hconfig hloads
    obtain ⟨pairs, hpairs, _, hpath, _⟩ := hused (by simp [Call.Clashes])
    obtain rfl : pairs = [("id", "old"), ("id", "a=b")] :=
      Option.some.inj ((Inspect.mapM_keyedValue? hpairs).symm.trans rfl)
    exact hpath "/foo/a=b" (by cbv)
  · exact (resolve_run_exact.2.2 hfront hmixed hconfig hloads).1.2 (Or.inl (by simp [Call.Clashes]))

end CommandLine

end RouteBook
