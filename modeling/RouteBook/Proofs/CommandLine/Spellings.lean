import RouteBook.CommandLine.Arguments
import RouteBook.Proofs.Text.Runs

/-!
# Arguments in any spelling

What is given to a command can be written in several ways (`Spelled`) and in any order (`Spells`).
However that is done, reading takes one thing after the other and adds it, if it is admitted after
those before it (`readFrom_spells`, `readFrom_command`). So what is read is what was given, or the
arguments are wrong (`read_spells`): this depends on the values and on what is given twice
(`sound_of_once`), and not on the spelling.
-/

namespace RouteBook.CommandLine

/-! ## Spellings -/

/-- The argument is the name of the switch, long or short. -/
inductive Switch.Named (s : Switch) : String → Prop
  | long {arg : String} (h : arg.toList = '-' :: '-' :: s.long.toList) : Named s arg
  | short {arg : String} {c : Char} (hc : s.short = some c) (h : arg.toList = ['-', c]) : Named s arg

/-- The argument is the name of the switch with a value: after an equals sign, or close to the short
name. -/
inductive Switch.Holds (s : Switch) (value : String) : String → Prop
  | long {arg : String} (h : arg.toList = '-' :: '-' :: (s.long.toList ++ '=' :: value.toList)) :
      Holds s value arg
  | equals {arg : String} {c : Char} (hc : s.short = some c)
      (h : arg.toList = '-' :: c :: '=' :: value.toList) : Holds s value arg
  | close {arg : String} {c : Char} (hc : s.short = some c) (h : arg.toList = '-' :: c :: value.toList)
      (hne : value ≠ "") (heq : value.toList.head? ≠ some '=') : Holds s value arg

/-- The arguments with which one thing can be given. A value of its own looks like no option. -/
inductive Spelled (grammar : Grammar) : Given → List String → Prop
  | positional {value : String} (hc : grammar.commands = false) (h : Shape.of value = .plain) :
      Spelled grammar (.positional value) [value]
  | flag {s : Switch} {arg : String} (hs : s ∈ grammar.switches) (hv : s.value = none)
      (h : s.Named arg) : Spelled grammar (.flag s.long) [arg]
  | apart {s : Switch} {arg value : String} (hs : s ∈ grammar.switches) (hv : s.value.isSome = true)
      (h : s.Named arg) (hp : Shape.of value = .plain) :
      Spelled grammar (.value s.long value) [arg, value]
  | joined {s : Switch} {arg value : String} (hs : s ∈ grammar.switches) (hv : s.value.isSome = true)
      (h : s.Holds value arg) : Spelled grammar (.value s.long value) [arg]

/-- The arguments with which several things can be given, one after the other. After two dashes all is
taken as it is. -/
inductive Spells (grammar : Grammar) : List Given → List String → Prop
  | nil : Spells grammar [] []
  | cons {x : Given} {xs : List Given} {args rest : List String} (h : Spelled grammar x args)
      (hs : Spells grammar xs rest) : Spells grammar (x :: xs) (args ++ rest)
  | dashes (hc : grammar.commands = false) (values : List String) :
      Spells grammar (values.map .positional) ("--" :: values)

/-- The switches of a grammar can be told apart, and their names from values. -/
structure Grammar.Clear (grammar : Grammar) : Prop where
  long : (grammar.switches.map (·.long)).Nodup
  short : ∀ s ∈ grammar.switches, ∀ t ∈ grammar.switches, s.short ≠ none → s.short = t.short → s = t
  names : ∀ s ∈ grammar.switches, s.long ≠ "" ∧ '=' ∉ s.long.toList
  letters : ∀ s ∈ grammar.switches, s.short ≠ some '-'

section
variable {grammar : Grammar} {s : Switch} {arg value : String}

theorem Grammar.Clear.eq_of_long (hg : grammar.Clear) {t : Switch} (hs : s ∈ grammar.switches)
    (ht : t ∈ grammar.switches) (h : t.long = s.long) : t = s :=
  List.inj_on_of_nodup_map hg.long ht hs h

theorem Grammar.Clear.find_long (hg : grammar.Clear) (hs : s ∈ grammar.switches) :
    grammar.switches.find? (fun t => t.long.toList = s.long.toList) = some s := by
  cases hf : grammar.switches.find? (fun t => t.long.toList = s.long.toList) with
  | none => simpa using List.find?_eq_none.1 hf s hs
  | some t =>
    have hlong : t.long.toList = s.long.toList := by simpa using List.find?_some hf
    rw [hg.eq_of_long hs (List.mem_of_find?_eq_some hf) (String.toList_injective hlong)]

theorem Grammar.Clear.find_short (hg : grammar.Clear) (hs : s ∈ grammar.switches) {c : Char}
    (hc : s.short = some c) : grammar.switches.find? (fun t => t.short = some c) = some s := by
  cases hf : grammar.switches.find? (fun t => t.short = some c) with
  | none => simpa [hc] using List.find?_eq_none.1 hf s hs
  | some t =>
    have hshort : t.short = some c := by simpa using List.find?_some hf
    have hne : s.short ≠ none := by simp [hc]
    rw [hg.short s hs t (List.mem_of_find?_eq_some hf) hne (hc.trans hshort.symm)]

theorem shape_long (hname : s.long ≠ "" ∧ '=' ∉ s.long.toList)
    (h : arg.toList = '-' :: '-' :: s.long.toList) : Shape.of arg = .long s.long.toList none := by
  have hne : s.long.toList ≠ [] := by simpa using hname.1
  obtain ⟨c, cs, hlong⟩ := List.exists_cons_of_ne_nil hne
  have hdrop : (c :: cs).dropWhile (· ≠ '=') = [] := Text.dropWhile_ne_of_not_mem (hlong ▸ hname.2)
  unfold Shape.of
  rw [h, hlong]
  simp only [hdrop]

theorem shape_long_value (hname : s.long ≠ "" ∧ '=' ∉ s.long.toList)
    (h : arg.toList = '-' :: '-' :: (s.long.toList ++ '=' :: value.toList)) :
    Shape.of arg = .long s.long.toList (some value.toList) := by
  have hne : s.long.toList ≠ [] := by simpa using hname.1
  have hdrop := Text.dropWhile_ne_append hname.2 value.toList
  have htake := Text.takeWhile_ne_append hname.2 value.toList
  obtain ⟨c, cs, hlong⟩ := List.exists_cons_of_ne_nil hne
  unfold Shape.of
  rw [h]
  rw [hlong] at hdrop htake ⊢
  simp only [List.cons_append] at hdrop htake ⊢
  simp only [hdrop, htake]

theorem shape_short {c : Char} (hc : c ≠ '-') {cs : List Char} (h : arg.toList = '-' :: c :: cs) :
    Shape.of arg = .short (c :: cs) := by
  unfold Shape.of
  rw [h]
  split
  · next e => simp_all
  · next e => simp_all
  · next e => simp_all
  · next e => simp_all
  · next e => simp_all

end

/-! ## Writing -/

section
variable {grammar : Grammar}

theorem exists_spelled_flag {s : Switch} (hs : s ∈ grammar.switches) (hv : s.value = none) :
    ∃ args, Spelled grammar (.flag s.long) args :=
  ⟨["--" ++ s.long], .flag hs hv (.long (by simp))⟩

theorem exists_spelled_value {s : Switch} (hs : s ∈ grammar.switches) (hv : s.value.isSome = true)
    (value : String) : ∃ args, Spelled grammar (.value s.long value) args :=
  ⟨["--" ++ s.long ++ "=" ++ value], .joined hs hv (.long (by simp))⟩

/-- What can be written one by one can be written together, in front of what is written already. -/
theorem exists_spells_append {xs ys : List Given} {rest : List String}
    (h : ∀ x ∈ xs, ∃ args, Spelled grammar x args) (hs : Spells grammar ys rest) :
    ∃ args, Spells grammar (xs ++ ys) args := by
  induction xs with
  | nil => exact ⟨rest, hs⟩
  | cons x xs ih =>
    obtain ⟨hx, hxs⟩ := List.forall_mem_cons.1 h
    obtain ⟨args, hspelled⟩ := hx
    obtain ⟨others, hspells⟩ := ih hxs
    exact ⟨args ++ others, .cons hspelled hspells⟩

end

/-! ## Admission -/

/-- The switch of a long name. -/
def Grammar.switch? (grammar : Grammar) (long : String) : Option Switch :=
  grammar.switches.find? fun s => s.long.toList = long.toList

/-- The grammar has such a thing, with such a value. -/
def Grammar.accepts (grammar : Grammar) : Given → Bool
  | .positional value => grammar.positional.any (·.accepts value)
  | .flag long => (grammar.switch? long).isSome
  | .value long value => (grammar.switch? long).any fun s => s.value.any (·.accepts value)

/-- The thing can be given after others. -/
def Grammar.allows (grammar : Grammar) (given : List Given) : Given → Bool
  | .positional _ => true
  | .flag long | .value long _ => (grammar.switch? long).any (·.fits given)

/-- Adds a thing to others, if this is in order. -/
def Grammar.add (grammar : Grammar) (given : List Given) (x : Given) :
    Except Refused (List Given) :=
  if grammar.allows given x && grammar.accepts x then .ok (given ++ [x]) else .error .misused

/-- Each thing is in order after those before it. -/
def Grammar.Sound (grammar : Grammar) (xs : List Given) : Prop :=
  ∀ before x after, xs = before ++ x :: after →
    grammar.allows before x = true ∧ grammar.accepts x = true

section
variable {grammar : Grammar}

theorem Grammar.add_of (grammar : Grammar) {given : List Given} {x : Given}
    (h : grammar.allows given x = true ∧ grammar.accepts x = true) :
    grammar.add given x = .ok (given ++ [x]) := by
  simp [add, h.1, h.2]

theorem Grammar.add_of_not (grammar : Grammar) {given : List Given} {x : Given}
    (h : ¬ (grammar.allows given x = true ∧ grammar.accepts x = true)) :
    grammar.add given x = .error .misused := by
  unfold add
  rw [if_neg]
  simpa using h

theorem addPositional_eq (grammar : Grammar) (given : List Given) (value : String) :
    addPositional grammar given value = grammar.add given (.positional value) := by
  simp [addPositional, Grammar.add, Grammar.allows, Grammar.accepts]

theorem addFlag_eq (hg : grammar.Clear) {s : Switch} (hs : s ∈ grammar.switches)
    (given : List Given) : addFlag given s = grammar.add given (.flag s.long) := by
  have hswitch : grammar.switch? s.long = some s := hg.find_long hs
  simp [addFlag, Grammar.add, Grammar.allows, Grammar.accepts, hswitch]

theorem addValue_eq (hg : grammar.Clear) {s : Switch} (hs : s ∈ grammar.switches)
    (given : List Given) (value : String) :
    addValue given s value = grammar.add given (.value s.long value) := by
  have hswitch : grammar.switch? s.long = some s := hg.find_long hs
  simp [addValue, Grammar.add, Grammar.allows, Grammar.accepts, hswitch]

/-- All that is in order is taken. -/
theorem foldlM_add_of_sound {xs : List Given} (h : grammar.Sound xs) :
    xs.foldlM grammar.add [] = .ok xs := by
  induction xs using List.reverseRecOn with
  | nil => rfl
  | append_singleton xs x ih =>
    have hxs : grammar.Sound xs := by
      rintro before y after rfl
      exact h before y (after ++ [x]) (by simp)
    rw [List.foldlM_append, ih hxs]
    have hx := grammar.add_of (h xs x [] rfl)
    simp [hx, bind, Except.bind, pure, Except.pure]

/-- The first thing that is not in order is refused, whatever follows. -/
theorem foldlM_add_of_not_sound {xs : List Given} (h : ¬ grammar.Sound xs) :
    xs.foldlM grammar.add [] = .error .misused := by
  induction xs using List.reverseRecOn with
  | nil => exact absurd (fun before x after e => by simp at e) h
  | append_singleton xs x ih =>
    rw [List.foldlM_append]
    by_cases hxs : grammar.Sound xs
    · have hx : ¬ (grammar.allows xs x = true ∧ grammar.accepts x = true) := by
        intro hx
        apply h
        intro before y after e
        rcases List.eq_nil_or_concat after with rfl | ⟨after', z, rfl⟩
        · obtain ⟨rfl, hy⟩ := List.append_inj' e rfl
          obtain rfl : x = y := by simpa using hy
          exact hx
        · rw [List.concat_eq_append, ← List.cons_append, ← List.append_assoc] at e
          obtain ⟨rfl, _⟩ := List.append_inj' e rfl
          exact hxs before y after' rfl
      rw [foldlM_add_of_sound hxs]
      simp [grammar.add_of_not hx, bind, Except.bind]
    · rw [ih hxs]
      rfl

/-- What is of the right kind is in order, if nothing is given twice that cannot be. -/
theorem sound_of_once {xs : List Given} (haccepts : ∀ x ∈ xs, grammar.accepts x = true)
    (honce : ∀ s ∈ grammar.switches, s.repeats = true ∨ xs.countP (·.isFor s.long) ≤ 1) :
    grammar.Sound xs := by
  rintro before x after rfl
  have hx : grammar.accepts x = true := haccepts x (by simp)
  refine ⟨?_, hx⟩
  have hswitch : ∀ long s, x.isFor long = true → grammar.switch? long = some s →
      (grammar.switch? long).any (·.fits before) = true := by
    intro long s hfor hs
    have hlong : s.long = long := by
      have hfound : s.long.toList = long.toList := by simpa using List.find?_some hs
      exact String.toList_injective hfound
    rw [hs, Option.any_some, Switch.fits, hlong]
    rcases honce s (List.mem_of_find?_eq_some hs) with hrepeats | hcount
    · simp [hrepeats]
    · -- The thing itself is the one for its switch, so there is none before it.
      rw [hlong, List.countP_append, List.countP_cons, if_pos hfor] at hcount
      have hnone : before.countP (·.isFor long) = 0 := by omega
      rw [List.countP_eq_zero] at hnone
      simp only [Bool.or_eq_true, Bool.not_eq_true', List.any_eq_false]
      exact Or.inr fun y hy => hnone y hy
  cases x with
  | positional value => rfl
  | flag long =>
    obtain ⟨s, hs⟩ := Option.isSome_iff_exists.1 hx
    exact hswitch long s (by simp [Given.isFor]) hs
  | value long value =>
    cases hs : grammar.switch? long with
    | none => simp [Grammar.accepts, hs] at hx
    | some s => exact hswitch long s (by simp [Given.isFor]) hs

theorem not_sound_of_mem {xs : List Given} {x : Given} (hx : x ∈ xs)
    (h : grammar.accepts x = false) : ¬ grammar.Sound xs := by
  intro hsound
  obtain ⟨before, after, rfl⟩ := List.append_of_mem hx
  have := (hsound before x after rfl).2
  rw [h] at this
  cases this

end

/-! ## Reading -/

section
variable {grammar : Grammar} {pending : Pending} {given : List Given} {rest : List String}

theorem readFrom_plain_of_shape (hc : grammar.commands = false) (hw : ∀ s, pending ≠ .wanting s)
    {value : String} (h : Shape.of value = .plain) :
    readFrom grammar given pending (value :: rest) =
      settle given pending >>= fun given =>
        grammar.add given (.positional value) >>= fun given =>
          readFrom grammar given .nothing rest := by
  cases pending with
  | wanting s => exact absurd rfl (hw s)
  | nothing => simp [readFrom, h, hc, addPositional_eq]
  | holding s v => simp [readFrom, h, hc, addPositional_eq]

theorem readFrom_long {arg : String} {name : List Char} {value : Option (List Char)}
    (h : Shape.of arg = .long name value) :
    readFrom grammar given pending (arg :: rest) =
      settle given pending >>= fun given =>
        takeLong grammar given name value >>= fun taken =>
          readFrom grammar taken.1 taken.2 rest := by
  cases pending <;> simp [readFrom, h]

theorem readFrom_short {arg : String} {letters : List Char} (h : Shape.of arg = .short letters) :
    readFrom grammar given pending (arg :: rest) =
      settle given pending >>= fun given =>
        takeShort grammar given letters >>= fun taken =>
          readFrom grammar taken.1 taken.2 rest := by
  cases pending <;> simp [readFrom, h]

/-- A name alone gives a flag, or an option that wants its value. -/
theorem readFrom_named (hg : grammar.Clear) {s : Switch} (hs : s ∈ grammar.switches) {arg : String}
    (h : s.Named arg) :
    readFrom grammar given pending (arg :: rest) =
      settle given pending >>= fun given =>
        if s.value.isSome then readFrom grammar given (.wanting s) rest
        else grammar.add given (.flag s.long) >>= fun given =>
          readFrom grammar given .nothing rest := by
  cases h with
  | long h =>
    rw [readFrom_long (shape_long (hg.names s hs) h)]
    congr
    funext given
    by_cases hv : s.value.isSome = true
    · simp [takeLong, hg.find_long hs, hv, bind, Except.bind]
    · simp [takeLong, hg.find_long hs, hv, addFlag_eq hg hs, bind_assoc]
      rfl
  | @short c hc h =>
    rw [readFrom_short (shape_short (fun e => hg.letters s hs (e ▸ hc)) h)]
    congr
    funext given
    by_cases hv : s.value.isSome = true
    · simp [takeShort, hg.find_short hs hc, hv, bind, Except.bind]
    · simp [takeShort, hg.find_short hs hc, hv, addFlag_eq hg hs, bind_assoc]
      rfl

theorem takeLong_value (hg : grammar.Clear) {s : Switch} (hs : s ∈ grammar.switches)
    (given : List Given) (value : String) :
    takeLong grammar given s.long.toList (some value.toList) =
      grammar.add given (.value s.long value) >>= fun given => .ok (given, .nothing) := by
  simp only [takeLong, hg.find_long hs, addValue_eq hg hs, String.ofList_toList]

theorem takeShort_equals (hg : grammar.Clear) {s : Switch} (hs : s ∈ grammar.switches)
    (hv : s.value.isSome = true) {c : Char} (hc : s.short = some c) (given : List Given)
    (value : String) :
    takeShort grammar given (c :: '=' :: value.toList) =
      grammar.add given (.value s.long value) >>= fun given => .ok (given, .nothing) := by
  simp only [takeShort, hg.find_short hs hc, hv, if_true, addValue_eq hg hs, String.ofList_toList]

theorem takeShort_close (hg : grammar.Clear) {s : Switch} (hs : s ∈ grammar.switches)
    (hv : s.value.isSome = true) {c : Char} (hc : s.short = some c) (given : List Given)
    {value : String} (hne : value ≠ "") (heq : value.toList.head? ≠ some '=') :
    takeShort grammar given (c :: value.toList) =
      grammar.add given (.value s.long value) >>= fun given => .ok (given, .nothing) := by
  have hchars : value.toList ≠ [] := by simpa using hne
  obtain ⟨d, ds, hd⟩ := List.exists_cons_of_ne_nil hchars
  have hd' : d ≠ '=' := by
    rintro rfl
    simp [hd] at heq
  have hofList : String.ofList (d :: ds) = value := by rw [← hd, String.ofList_toList]
  rw [hd]
  simp only [takeShort, hg.find_short hs hc, hv, if_true, addValue_eq hg hs]
  split
  · next e => simp at e
  · next e => exact absurd (List.cons.inj e).1 hd'
  · rw [hofList]

/-- A name with its value gives the option. -/
theorem readFrom_holds (hg : grammar.Clear) {s : Switch} (hs : s ∈ grammar.switches)
    (hv : s.value.isSome = true) {arg value : String} (h : s.Holds value arg) :
    readFrom grammar given pending (arg :: rest) =
      settle given pending >>= fun given =>
        grammar.add given (.value s.long value) >>= fun given =>
          readFrom grammar given .nothing rest := by
  cases h with
  | long h =>
    rw [readFrom_long (shape_long_value (hg.names s hs) h)]
    simp only [takeLong_value hg hs, bind_assoc]
    rfl
  | @equals c hc h =>
    rw [readFrom_short (shape_short (fun e => hg.letters s hs (e ▸ hc)) h)]
    simp only [takeShort_equals hg hs hv hc, bind_assoc]
    rfl
  | @close c hc h hne heq =>
    rw [readFrom_short (shape_short (fun e => hg.letters s hs (e ▸ hc)) h)]
    simp only [takeShort_close hg hs hv hc _ hne heq, bind_assoc]
    rfl

/-- Without commands, what is pending is settled first, whatever comes next. -/
theorem readFrom_settle (hc : grammar.commands = false) (hw : ∀ s, pending ≠ .wanting s)
    (given : List Given) (args : List String) :
    readFrom grammar given pending args =
      settle given pending >>= fun given => readFrom grammar given .nothing args := by
  cases pending with
  | wanting s => exact absurd rfl (hw s)
  | nothing => rfl
  | holding s value =>
    cases args with
    | nil => simp [readFrom, settle]; rfl
    | cons arg args =>
      cases hshape : Shape.of arg <;> simp [readFrom, hshape, hc, settle, bind, Except.bind]

/-- One thing, however it is spelled, is added to what is settled. -/
theorem readFrom_spelled (hg : grammar.Clear) (hc : grammar.commands = false)
    (hw : ∀ s, pending ≠ .wanting s) {x : Given} {args : List String} (h : Spelled grammar x args) :
    readFrom grammar given pending (args ++ rest) =
      settle given pending >>= fun given =>
        grammar.add given x >>= fun given => readFrom grammar given .nothing rest := by
  cases h with
  | positional _ h => exact readFrom_plain_of_shape hc hw h
  | flag hs hv h =>
    rw [List.singleton_append, readFrom_named hg hs h]
    simp [hv]
  | joined hs hv h => exact readFrom_holds hg hs hv h
  | @apart s arg value hs hv h hp =>
    have hnext : ∀ given, readFrom grammar given (.wanting s) (value :: rest) =
        grammar.add given (.value s.long value) >>= fun given =>
          readFrom grammar given .nothing rest := by
      intro given
      have hheld : readFrom grammar given (.wanting s) (value :: rest) =
          readFrom grammar given (.holding s value) rest := by
        simp [readFrom, hp]
      rw [hheld, readFrom_settle hc (by simp), settle, addValue_eq hg hs]
    rw [List.cons_append, List.singleton_append, readFrom_named hg hs h]
    simp only [hv, if_true, hnext]

/-- What is spelled is taken from left to right. -/
theorem readFrom_spells (hg : grammar.Clear) (hc : grammar.commands = false)
    (hw : ∀ s, pending ≠ .wanting s) {xs : List Given} {args : List String}
    (h : Spells grammar xs args) :
    readFrom grammar given pending args =
      settle given pending >>= fun given =>
        xs.foldlM grammar.add given >>= fun given => .ok { given } := by
  induction h generalizing given pending with
  | nil => simp [readFrom]
  | cons h _ ih =>
    rw [readFrom_spelled hg hc hw h]
    congr
    funext given
    rw [List.foldlM_cons, bind_assoc]
    congr
    funext given
    rw [ih (by simp)]
    rfl
  | dashes _ values =>
    have hshape : Shape.of "--" = .separator := rfl
    have hfold : ∀ given, values.foldlM (addPositional grammar) given =
        (values.map .positional).foldlM grammar.add given := by
      intro given
      rw [List.foldlM_map]
      congr
    cases pending with
    | wanting s => exact absurd rfl (hw s)
    | nothing | holding _ _ => simp [readFrom, hshape, hc, hfold]

/-- **Reading**: what is in order is read as it was given, and all else is wrong. -/
theorem read_spells (hg : grammar.Clear) (hc : grammar.commands = false) {xs : List Given}
    {args : List String} (h : Spells grammar xs args) :
    (grammar.Sound xs → read grammar args = .ok { given := xs }) ∧
      (¬ grammar.Sound xs → read grammar args = .error .misused) := by
  have hread : read grammar args = xs.foldlM grammar.add [] >>= fun given => .ok { given } :=
    readFrom_spells hg hc (by simp) h
  constructor
  · intro hsound
    rw [hread, foldlM_add_of_sound hsound]
    rfl
  · intro hsound
    rw [hread, foldlM_add_of_not_sound hsound]
    rfl

/-- Before a command, the last value may be pending; what was given is settled after it. -/
theorem readFrom_command (hg : grammar.Clear) (hc : grammar.commands = true)
    (hw : ∀ s, pending ≠ .wanting s) {xs : List Given} {before : List String}
    (h : Spells grammar xs before) {settled final : List Given}
    (hsettle : settle given pending = .ok settled)
    (hadds : xs.foldlM grammar.add settled = .ok final) {name : String}
    (hname : Shape.of name = .plain) (args : List String) :
    ∃ given' pending', readFrom grammar given pending (before ++ name :: args) =
        .ok { given := given', pending := pending', command := some (name, args) } ∧
      settle given' pending' = .ok final := by
  induction h generalizing given pending settled with
  | nil =>
    obtain rfl : settled = final := by simpa [pure, Except.pure] using hadds
    refine ⟨given, pending, ?_, hsettle⟩
    cases pending with
    | wanting s => exact absurd rfl (hw s)
    | nothing | holding _ _ => simp [readFrom, hname, hc]
  | dashes hc' _ => simp [hc] at hc'
  | @cons x xs argsx rest hx _ ih =>
    rw [List.foldlM_cons] at hadds
    cases hfirst : grammar.add settled x with
    | error refused =>
      rw [hfirst] at hadds
      cases hadds
    | ok next =>
      rw [hfirst] at hadds
      change xs.foldlM grammar.add next = .ok final at hadds
      cases hx with
      | positional hc' _ => simp [hc] at hc'
      | flag hs hv h =>
        rw [List.append_assoc, List.singleton_append, readFrom_named hg hs h]
        simp only [hsettle, hv, Option.isSome_none, bind, Except.bind, hfirst]
        exact ih (by simp) rfl hadds
      | joined hs hv h =>
        rw [List.append_assoc, List.singleton_append, readFrom_holds hg hs hv h]
        simp only [hsettle, bind, Except.bind, hfirst]
        exact ih (by simp) rfl hadds
      | @apart s arg value hs hv h hp =>
        rw [List.append_assoc, List.cons_append, List.singleton_append, readFrom_named hg hs h]
        simp only [hsettle, hv, bind, Except.bind, if_true, readFrom, hp]
        refine ih (by simp) ?_ hadds
        rw [settle, addValue_eq hg hs, hfirst]

end

/-! ## What is given -/

section
variable {grammar : Grammar} {xs : List Given}

/-- The grammar has such a thing, whatever its value. -/
inductive Grammar.Has (grammar : Grammar) : Given → Prop
  | positional (hc : grammar.commands = false) (value : String) : Has grammar (.positional value)
  | flag {s : Switch} (hs : s ∈ grammar.switches) (hv : s.value = none) : Has grammar (.flag s.long)
  | value {s : Switch} (hs : s ∈ grammar.switches) (hv : s.value.isSome = true) (value : String) :
      Has grammar (.value s.long value)

theorem Spelled.has {x : Given} {args : List String} (h : Spelled grammar x args) : grammar.Has x := by
  cases h with
  | positional hc _ => exact .positional hc _
  | flag hs hv _ => exact .flag hs hv
  | apart hs hv _ _ => exact .value hs hv _
  | joined hs hv _ => exact .value hs hv _

theorem Spells.has {args : List String} (h : Spells grammar xs args) : ∀ x ∈ xs, grammar.Has x := by
  induction h with
  | nil => simp
  | cons h _ ih =>
    intro x hx
    rcases List.mem_cons.1 hx with rfl | hx
    · exact h.has
    · exact ih x hx
  | dashes hc values =>
    intro x hx
    obtain ⟨value, _, rfl⟩ := List.mem_map.1 hx
    exact .positional hc value

theorem mem_valuesOf {r : Reading} {long value : String} :
    value ∈ r.valuesOf long ↔ .value long value ∈ r.given := by
  unfold Reading.valuesOf
  rw [List.mem_filterMap]
  constructor
  · rintro ⟨x, hx, h⟩
    split at h
    · next l v =>
      split at h
      · next hl =>
        cases h
        exact hl ▸ hx
      · cases h
    · cases h
  · intro h
    exact ⟨_, h, by simp⟩

/-- What stands for a switch is its flags and its values. -/
theorem countP_isFor (r : Reading) (long : String) :
    r.given.countP (·.isFor long) = r.given.count (.flag long) + (r.valuesOf long).length := by
  unfold Reading.valuesOf
  induction r.given with
  | nil => rfl
  | cons x xs ih =>
    rw [List.countP_cons, List.count_cons, ih]
    cases x with
    | positional value => simp [Given.isFor]
    | flag l =>
      by_cases hl : l = long
      · simp [Given.isFor, hl]
        omega
      · simp [Given.isFor, hl]
    | value l v =>
      by_cases hl : l = long
      · simp [Given.isFor, hl]
        omega
      · simp [Given.isFor, hl]

/-- Values and arguments that are no options are no flag. -/
theorem count_flag_map {long : String} {give : String → Given} (h : ∀ value, give value ≠ .flag long)
    (values : List String) : (values.map give).count (.flag long) = 0 := by
  rw [List.count_eq_zero, List.mem_map]
  rintro ⟨value, _, hvalue⟩
  exact h value hvalue

theorem value?_of {r : Reading} {long : String} {value : Option String}
    (h : r.valuesOf long = value.toList) : r.value? long = value := by
  rw [Reading.value?, h]
  cases value <;> rfl

theorem has_of {r : Reading} {long : String} {given : Bool}
    (h : r.given.count (.flag long) = given.toNat) : r.has long = given := by
  unfold Reading.has
  cases given with
  | false => simpa [List.count_eq_zero] using h
  | true =>
    have hpos : 0 < r.given.count (.flag long) := by simp [h]
    simpa [List.count_pos_iff] using hpos

/-! ## What is in order -/

theorem Grammar.Clear.accepts_value (hg : grammar.Clear) {s : Switch} (hs : s ∈ grammar.switches)
    (value : String) : grammar.accepts (.value s.long value) = s.value.any (·.accepts value) := by
  have hswitch : grammar.switch? s.long = some s := hg.find_long hs
  simp [Grammar.accepts, hswitch]

theorem Grammar.Clear.accepts_flag (hg : grammar.Clear) {s : Switch} (hs : s ∈ grammar.switches) :
    grammar.accepts (.flag s.long) = true := by
  have hswitch : grammar.switch? s.long = some s := hg.find_long hs
  simp [Grammar.accepts, hswitch]

variable {r : Reading}

theorem once_of_flag (hg : grammar.Clear) (hhas : ∀ x ∈ r.given, grammar.Has x) {s : Switch}
    (hs : s ∈ grammar.switches) (hv : s.value = none) {given : Bool}
    (h : r.given.count (.flag s.long) = given.toNat) : r.given.countP (·.isFor s.long) ≤ 1 := by
  have hnone : r.valuesOf s.long = [] := by
    rw [List.eq_nil_iff_forall_not_mem]
    intro value hvalue
    generalize hlong : s.long = long at hvalue
    cases hhas _ (mem_valuesOf.1 hvalue) with
    | @value t ht htv _ =>
      obtain rfl := hg.eq_of_long hs ht hlong.symm
      simp [hv] at htv
  rw [countP_isFor, h, hnone]
  simp [Bool.toNat_le]

theorem once_of_option (hg : grammar.Clear) (hhas : ∀ x ∈ r.given, grammar.Has x) {s : Switch}
    (hs : s ∈ grammar.switches) (hv : s.value.isSome = true) {value : Option String}
    (h : r.valuesOf s.long = value.toList) : r.given.countP (·.isFor s.long) ≤ 1 := by
  have hnone : r.given.count (.flag s.long) = 0 := by
    rw [List.count_eq_zero]
    intro hflag
    generalize hlong : s.long = long at hflag
    cases hhas _ hflag with
    | @flag t ht htv =>
      obtain rfl := hg.eq_of_long hs ht hlong.symm
      simp [htv] at hv
  rw [countP_isFor, h, hnone]
  cases value <;> simp

end

end RouteBook.CommandLine
