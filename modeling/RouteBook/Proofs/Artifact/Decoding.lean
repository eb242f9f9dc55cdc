import RouteBook.Proofs.Artifact.Extension
import RouteBook.Proofs.Artifact.Format
import RouteBook.Proofs.Artifact.RoundTrip
import RouteBook.Proofs.Json.Spelled

/-!
# The decoder accepts its format

Whatever text spells a value, each reader reads what the value is, and refuses a value that is
nothing it wants (`Reads`). A verdict on a text follows from the verdicts on its parts in their order
(`Verdict.bind`): the first part that is refused refuses the whole.
-/

namespace RouteBook.Artifact
open Json

/-! ## Verdicts -/

section
variable {α β : Type}

/-- What fits is read, and the text after it is left. Where nothing fits there is a fault. -/
structure Verdict (fits : α → Prop) (result : Except Fault (α × List Char)) (rest : List Char) :
    Prop where
  read : ∀ x, fits x → result = .ok (x, rest)
  refuse : (∀ x, ¬ fits x) → ∃ fault, result = .error fault

theorem Verdict.ok (x : α) (rest : List Char) : Verdict (· = x) (.ok (x, rest)) rest := by
  constructor
  · rintro _ rfl
    rfl
  · intro h
    exact absurd rfl (h x)

theorem Verdict.error {fits : α → Prop} (h : ∀ x, ¬ fits x) (fault : Fault) (rest : List Char) :
    Verdict fits (.error fault) rest :=
  ⟨fun x hx => absurd hx (h x), fun _ => ⟨fault, rfl⟩⟩

theorem Verdict.congr {fits fits' : α → Prop} {result : Except Fault (α × List Char)}
    {rest : List Char} (h : Verdict fits result rest) (hfits : ∀ x, fits' x ↔ fits x) :
    Verdict fits' result rest :=
  ⟨fun x hx => h.read x ((hfits x).1 hx), fun hno => h.refuse fun x hx => hno x ((hfits x).2 hx)⟩

/-- What fits the whole is made of something that fits its first part. -/
theorem Verdict.bind {fits : α → Prop} {fits' : β → Prop}
    {result : Except Fault (α × List Char)} {next : α × List Char → Except Fault (β × List Char)}
    {mid rest : List Char} (h : Verdict fits result mid) (step : α → β → Prop)
    (hnext : ∀ x, fits x → Verdict (step x) (next (x, mid)) rest)
    (hfits : ∀ y, fits' y ↔ ∃ x, fits x ∧ step x y) : Verdict fits' (result >>= next) rest := by
  constructor
  · intro y hy
    obtain ⟨x, hx, hstep⟩ := (hfits y).1 hy
    rw [h.read x hx]
    exact (hnext x hx).read y hstep
  · intro hno
    by_cases hex : ∃ x, fits x
    · obtain ⟨x, hx⟩ := hex
      rw [h.read x hx]
      exact (hnext x hx).refuse fun y hy => hno y ((hfits y).2 ⟨x, hx, hy⟩)
    · obtain ⟨fault, hfault⟩ := h.refuse (not_exists.1 hex)
      exact ⟨fault, by rw [hfault]; rfl⟩

/-- The reader's verdict on a text of a value is what the value is. -/
def Reads (read : List Char → Except Fault (α × List Char)) (is : Value → α → Prop) : Prop :=
  ∀ ⦃v t w⦄, Spells v t → Spaces w → ∀ rest, Verdict (is v) (read (w ++ (t ++ rest))) rest

theorem Reads.spaced {read : List Char → Except Fault (α × List Char)} {is : Value → α → Prop}
    (hread : Reads read is) {v : Value} {t : List Char} (h : SpellsSpaced v t) :
    ∃ w, Spaces w ∧ ∀ rest, Verdict (is v) (read (t ++ rest)) (w ++ rest) := by
  cases h with
  | @intro _ w text w' hw h hw' =>
    refine ⟨w', hw', fun rest => ?_⟩
    rw [List.append_assoc, List.append_assoc]
    exact hread h hw (w' ++ rest)

end

/-! ## Strings and optional values -/

theorem reads_readString : Reads readString IsString := by
  intro v t w h hw rest
  rw [readString, trim_spaces_append hw, h.trim_append]
  obtain ⟨c, t, rfl, hc⟩ := h.head
  by_cases hquote : c = '"'
  · subst hquote
    obtain ⟨s, rfl⟩ := hc.kind.2.1 rfl
    cases h with
    | string h =>
      obtain ⟨body, heq, hbody⟩ := h.body
      obtain ⟨-, rfl⟩ := List.cons.inj heq
      have hread := (hbody rest).1
      constructor
      · rintro _ ⟨⟩
        exact hread
      · intro hno
        exact absurd rfl (hno s)
  · have hkind : ∀ s, ¬ IsString v s := by
      rintro s rfl
      exact hquote hc
    rw [List.cons_append]
    split
    · next heq => cases heq
    · next heq => exact absurd (List.cons.inj heq).1 hquote
    · exact Verdict.error hkind _ rest

section
variable {α : Type} {read : List Char → Except Fault (α × List Char)} {is : Value → α → Prop}

theorem reads_readOptional (hread : Reads read is) (hnull : ∀ x, ¬ is .null x) :
    Reads (readOptional read) fun v => Given is [v] := by
  intro v t w h hw rest
  rw [readOptional, trim_spaces_append hw, h.trim_append]
  obtain ⟨c, t, rfl, hc⟩ := h.head
  by_cases hn : c = 'n'
  · subst hn
    obtain rfl := hc.kind.1 rfl
    cases h with
    | null =>
      refine (Verdict.ok none rest).congr fun o => ?_
      constructor
      · intro h
        cases h with
        | null => rfl
        | value hx => exact absurd hx (hnull _)
      · rintro rfl
        exact .null
  · have hv : v ≠ .null := by
      rintro rfl
      exact hn hc
    have hvalue := hread h spaces_nil rest
    rw [List.nil_append, List.cons_append] at hvalue
    rw [List.cons_append]
    split
    · next heq => exact absurd (List.cons.inj heq).1 hn
    · exact hvalue.bind _ (fun x _ => Verdict.ok (some x) rest) fun o => given_singleton_iff hv

/-! ## Lists -/

theorem readNext_more {vs : List Value} {u w : List Char} (h : SpellsItems vs u) (hw : Spaces w)
    (rest : List Char) : readNext (w ++ ',' :: (u ++ rest)) = .ok (.item (trim (u ++ rest))) := by
  obtain ⟨c, cs, htrim, hc⟩ := h.head rest
  have hcomma : trim (w ++ ',' :: (u ++ rest)) = ',' :: (u ++ rest) := by
    rw [trim_spaces_cons hw (by decide)]
  rw [readNext_of_comma hcomma htrim hc, htrim]

theorem length_trim_le (cs : List Char) : (trim cs).length ≤ cs.length :=
  List.length_dropWhile_le _ _

theorem readItems_of_spells (hread : Reads read is) {vs : List Value} {t : List Char}
    (h : SpellsItems vs t) {fuel : Nat} (rest : List Char)
    (hf : (trim (t ++ ']' :: rest)).length < fuel) :
    Verdict (List.Forall₂ is vs) (readItems read fuel (trim (t ++ ']' :: rest))) rest := by
  induction vs generalizing t fuel with
  | nil => cases h
  | cons v vs ih =>
    obtain ⟨fuel, rfl⟩ : ∃ n, fuel = n + 1 := ⟨fuel - 1, by omega⟩
    obtain ⟨text, w, htext, hw, ⟨rfl, htrim⟩ | ⟨u, hu, htrim⟩⟩ := h.first
    · rw [htrim, readItems]
      refine (hread htext spaces_nil _).bind (fun x xs => xs = [x]) (fun x _ => ?_) fun xs => ?_
      · simp only [readNext_closed hw, bind, Except.bind]
        exact Verdict.ok [x] rest
      · simp [List.forall₂_cons_left_iff]
    · rw [htrim] at hf ⊢
      have hmore := length_trim_le (u ++ ']' :: rest)
      simp only [List.length_append, List.length_cons] at hf hmore
      have hlt : (trim (u ++ ']' :: rest)).length < fuel := by omega
      have hitems := ih hu hlt
      rw [readItems]
      refine (hread htext spaces_nil _).bind
        (fun x xs => ∃ xs', List.Forall₂ is vs xs' ∧ xs = x :: xs') (fun x _ => ?_) fun xs => ?_
      · simp only [readNext_more hu hw, bind, Except.bind]
        exact hitems.bind _ (fun xs _ => Verdict.ok (x :: xs) rest) fun ys => Iff.rfl
      · simp only [List.forall₂_cons_left_iff]
        tauto

theorem reads_readList (hread : Reads read is) : Reads (readList read) (IsList is) := by
  intro v t w h hw rest
  rw [readList, trim_spaces_append hw, h.trim_append]
  obtain ⟨c, t, rfl, hc⟩ := h.head
  by_cases hbracket : c = '['
  · subst hbracket
    obtain ⟨items, rfl⟩ := hc.kind.2.2.1 rfl
    have hlist : ∀ xs, IsList is (.list items) xs ↔ List.Forall₂ is items xs := by
      simp [IsList]
    refine Verdict.congr ?_ hlist
    rw [List.cons_append]
    cases h with
    | emptyList hw' =>
      simp only [readListBody, List.append_assoc, trim_spaces_append hw', List.singleton_append]
      rw [trim_cons (by decide)]
      exact (Verdict.ok [] rest).congr fun xs => List.forall₂_nil_left_iff
    | @list _ t h =>
      obtain ⟨c, cs, htrim, hc⟩ := h.head (']' :: rest)
      have hitems := readItems_of_spells hread h rest (Nat.lt_succ_self _)
      simp only [readListBody, List.append_assoc, List.singleton_append]
      rw [htrim] at hitems ⊢
      split
      · next heq => cases heq
      · next heq => exact absurd (List.cons.inj heq).1 hc
      · exact hitems
  · have hkind : ∀ xs, ¬ IsList is v xs := by
      rintro xs ⟨items, rfl, -⟩
      exact hbracket hc
    rw [List.cons_append]
    split
    · next heq => cases heq
    · next heq => exact absurd (List.cons.inj heq).1 hbracket
    · exact Verdict.error hkind _ rest

end

theorem reads_methods : Reads (readOptional (readList readString)) fun v => Given IsStrings [v] :=
  reads_readOptional (reads_readList reads_readString) not_isStrings_null

theorem reads_name : Reads (readOptional readString) fun v => Given IsString [v] :=
  reads_readOptional reads_readString not_isString_null

/-! ## Routes as objects -/

section
variable {α : Type} {is : Value → α → Prop}

/-- Of the values that have come for a key there is none, or one that has been read. -/
inductive Once (is : Value → α → Prop) : List Value → Option α → Prop
  | unread : Once is [] none
  | read {v : Value} {x : α} (h : is v x) : Once is [v] (some x)

theorem once_unique (h : Relator.RightUnique is) : Relator.RightUnique (Once is) := by
  intro vs o o' ho ho'
  cases ho with
  | unread => cases ho'; rfl
  | read hx =>
    cases ho' with
    | read hx' => rw [h hx hx']

/-- A further value is a first one. -/
theorem Once.snoc_iff {vs : List Value} {o : Option α} (h : Once is vs o) {v : Value} {o' : Option α} :
    Once is (vs ++ [v]) o' ↔ o = none ∧ ∃ x, is v x ∧ o' = some x := by
  cases h with
  | unread =>
    constructor
    · intro h
      cases h with
      | read hx => exact ⟨rfl, _, hx, rfl⟩
    · rintro ⟨-, x, hx, rfl⟩
      exact .read hx
  | read =>
    constructor
    · rintro ⟨⟩
    · rintro ⟨⟨⟩, -⟩

theorem Once.of_append {vs us : List Value} {o : Option α} (h : Once is (vs ++ us) o) :
    ∃ o', Once is vs o' := by
  cases vs with
  | nil => exact ⟨none, .unread⟩
  | cons v vs =>
    generalize hall : v :: vs ++ us = all at h
    cases h with
    | unread => cases hall
    | read hx =>
      obtain ⟨rfl, hnil⟩ := List.cons.inj hall
      obtain ⟨rfl, rfl⟩ := List.append_eq_nil_iff.1 hnil
      exact ⟨_, .read hx⟩

theorem readColon_spaces {w : List Char} (hw : Spaces w) (rest : List Char) :
    readColon (w ++ ':' :: rest) = .ok rest := by
  rw [readColon, trim_spaces_cons hw (by decide)]
  rfl

end

/-- What has been read of the values that an object has given so far. -/
structure Describes (e : Element) (m : Members) : Prop where
  path : Once IsString e.path m.path
  methods : Once (fun v => Given IsStrings [v]) e.methods m.methods
  name : Once (fun v => Given IsString [v]) e.name m.name

theorem describes_nil : Describes (.ofMembers []) {} := ⟨.unread, .unread, .unread⟩

theorem once_path_unique : Relator.RightUnique (Once IsString) := once_unique isString_unique

theorem once_methods_unique : Relator.RightUnique (Once fun v => Given IsStrings [v]) :=
  once_unique fun _ _ _ h h' =>
    given_unique (isList_unique isString_unique) not_isStrings_null h h'

theorem once_name_unique : Relator.RightUnique (Once fun v => Given IsString [v]) :=
  once_unique fun _ _ _ h h' => given_unique isString_unique not_isString_null h h'

theorem Describes.unique {e : Element} {m m' : Members} (h : Describes e m) :
    Describes e m' ↔ m' = m := by
  constructor
  · intro h'
    have hpath := once_path_unique h'.path h.path
    have hmethods := once_methods_unique h'.methods h.methods
    have hname := once_name_unique h'.name h.name
    cases m
    cases m'
    cases hpath
    cases hmethods
    cases hname
    rfl
  · rintro rfl
    exact h

/-- What comes later does not help what came before. -/
theorem Describes.of_append {ms ms' : List (String × Value)} {m : Members}
    (h : Describes (.ofMembers (ms ++ ms')) m) : ∃ m', Describes (.ofMembers ms) m' := by
  obtain ⟨hpath, hmethods, hname⟩ := h
  simp only [Element.ofMembers, valuesAt_append] at hpath hmethods hname
  obtain ⟨path, hpath⟩ := hpath.of_append
  obtain ⟨methods, hmethods⟩ := hmethods.of_append
  obtain ⟨name, hname⟩ := hname.of_append
  exact ⟨{ path, methods, name }, hpath, hmethods, hname⟩

section
variable {α : Type} {is : Value → α → Prop} {member : Member α} {e e' : Element} {m m' : Members}

/-- The elements differ in the values of one member at most, which are `vs` in the second. -/
def Member.Differs (member : Member α) (is : Value → α → Prop) (m : Members) (e e' : Element)
    (vs : List Value) : Prop :=
  ∀ m', Describes e' m' ↔ Once is vs (member.get m') ∧ Describes e (member.put m' (member.get m))

/-- Where the values of one member change, only this member is read anew. -/
theorem Describes.put_iff {vs : List Value} (h : Describes e m) (hdiff : member.Differs is m e e' vs) :
    Describes e' m' ↔ ∃ value, Once is vs value ∧ m' = member.put m value := by
  rw [hdiff, h.unique]
  constructor
  · rintro ⟨hvalue, hm⟩
    refine ⟨member.get m', hvalue, ?_⟩
    rw [← hm, member.put_put, member.put_get]
  · rintro ⟨value, hvalue, rfl⟩
    rw [member.get_put, member.put_put, member.put_get]
    exact ⟨hvalue, rfl⟩

/-- After a member that is kept, what has been read describes what the object has given. -/
theorem readField_of_spaced (hread : Reads member.read is) (hm : Describes e m) {vs : List Value}
    (hvs : Once is vs (member.get m)) {v : Value} (hdiff : member.Differs is m e e' (vs ++ [v]))
    {t w : List Char} (h : SpellsSpaced v t) (hw : Spaces w) :
    ∃ w', Spaces w' ∧ ∀ rest, Verdict (Describes e')
      (readField member m (w ++ ':' :: (t ++ rest))) (w' ++ rest) := by
  obtain ⟨w', hw', hverdict⟩ := hread.spaced h
  refine ⟨w', hw', fun rest => Verdict.congr ?_ fun _ => hm.put_iff hdiff⟩
  cases hget : member.get m with
  | some value =>
    rw [readField, hget]
    rw [hget] at hvs
    refine Verdict.error ?_ _ _
    rintro m' ⟨value', hvalue', -⟩
    cases (hvs.snoc_iff.1 hvalue').1
  | none =>
    rw [readField_of_none member hget, readColon_spaces hw]
    rw [hget] at hvs
    refine (hverdict rest).bind _ (fun value _ => Verdict.ok (member.put m (some value)) _) fun m' => ?_
    constructor
    · rintro ⟨value, hvalue, rfl⟩
      obtain ⟨-, x, hx, rfl⟩ := hvs.snoc_iff.1 hvalue
      exact ⟨x, hx, rfl⟩
    · rintro ⟨x, hx, rfl⟩
      exact ⟨some x, hvs.snoc_iff.2 ⟨rfl, x, hx, rfl⟩, rfl⟩

end

section
variable {e : Element} {m : Members} (h : Describes e m) (vs : List Value)
include h

theorem Describes.path_differs :
    Member.path.Differs IsString m e { e with path := vs } vs := fun _ =>
  ⟨fun h' => ⟨h'.path, h.path, h'.methods, h'.name⟩, fun h' => ⟨h'.1, h'.2.methods, h'.2.name⟩⟩

theorem Describes.methods_differs :
    Member.methods.Differs (fun v => Given IsStrings [v]) m e { e with methods := vs } vs := fun _ =>
  ⟨fun h' => ⟨h'.methods, h'.path, h.methods, h'.name⟩, fun h' => ⟨h'.2.path, h'.1, h'.2.name⟩⟩

theorem Describes.name_differs :
    Member.name.Differs (fun v => Given IsString [v]) m e { e with name := vs } vs := fun _ =>
  ⟨fun h' => ⟨h'.name, h'.path, h'.methods, h.name⟩, fun h' => ⟨h'.2.path, h'.2.methods, h'.1⟩⟩

end

/-- A further member adds its value to those of its key. -/
theorem ofMembers_snoc (ms : List (String × Value)) (key : String) (v : Value) :
    Element.ofMembers (ms ++ [(key, v)]) =
      if key = "path" then { Element.ofMembers ms with path := valuesAt "path" ms ++ [v] }
      else if key = "methods" then
        { Element.ofMembers ms with methods := valuesAt "methods" ms ++ [v] }
      else if key = "name" then { Element.ofMembers ms with name := valuesAt "name" ms ++ [v] }
      else Element.ofMembers ms := by
  have hat : ∀ known, valuesAt known (ms ++ [(key, v)]) =
      if key = known then valuesAt known ms ++ [v] else valuesAt known ms := by
    intro known
    split
    · next h => rw [h, valuesAt_append, valuesAt_self]
    · next h => rw [valuesAt_append, valuesAt_of_ne h, List.append_nil]
  simp only [Element.ofMembers, hat]
  split
  · next h => simp [h]
  · split
    · next h => simp [h]
    · split <;> rfl

theorem readMember_of_ne {key : String} (hpath : key ≠ Member.path.key)
    (hmethods : key ≠ Member.methods.key) (hname : key ≠ Member.name.key) (m : Members)
    (cs : List Char) : readMember m key cs =
      readColon cs >>= fun rest => skip rest >>= fun rest => .ok (m, rest) := by
  rw [readMember, if_neg hpath, if_neg hmethods, if_neg hname]

/-- After a member, what has been read describes what the object has given. -/
theorem readMember_of_spaced {ms : List (String × Value)} {m : Members}
    (hm : Describes (.ofMembers ms) m) (key : String) {v : Value} {t w rest : List Char}
    (h : SpellsSpaced v t) (hw : Spaces w) (hrest : EndsValue rest) :
    ∃ w', Spaces w' ∧ Verdict (Describes (.ofMembers (ms ++ [(key, v)])))
      (readMember m key (w ++ ':' :: (t ++ rest))) (w' ++ rest) := by
  rw [ofMembers_snoc]
  by_cases hpath : key = "path"
  · subst hpath
    obtain ⟨w', hw', hverdict⟩ :=
      readField_of_spaced reads_readString hm hm.path (hm.path_differs _) h hw
    exact ⟨w', hw', hverdict rest⟩
  by_cases hmethods : key = "methods"
  · subst hmethods
    obtain ⟨w', hw', hverdict⟩ :=
      readField_of_spaced reads_methods hm hm.methods (hm.methods_differs _) h hw
    exact ⟨w', hw', hverdict rest⟩
  by_cases hname : key = "name"
  · subst hname
    obtain ⟨w', hw', hverdict⟩ :=
      readField_of_spaced reads_name hm hm.name (hm.name_differs _) h hw
    exact ⟨w', hw', hverdict rest⟩
  -- A member of another name is passed over, and the members read stay as they are.
  obtain ⟨w', hw', hskip⟩ := skip_of_spaced h hrest
  refine ⟨w', hw', ?_⟩
  rw [readMember_of_ne hpath hmethods hname, readColon_spaces hw, if_neg hpath, if_neg hmethods,
    if_neg hname]
  simp only [hskip, bind, Except.bind]
  exact (Verdict.ok m _).congr fun _ => hm.unique

theorem afterMember_close {w : List Char} (hw : Spaces w) (fuel : Nat) (m : Members)
    (rest : List Char) : afterMember fuel m (w ++ '\x7d' :: rest) = .ok (m, rest) := by
  rw [afterMember, trim_spaces_cons hw (by decide)]
  rfl

theorem afterMember_more {ms : List (String × Value)} {u w : List Char} (h : SpellsMembers ms u)
    (hw : Spaces w) (fuel : Nat) (m : Members) (rest : List Char) :
    afterMember fuel m (w ++ ',' :: (u ++ rest)) = readMembers fuel m (trim (u ++ rest)) := by
  obtain ⟨cs, htrim⟩ := h.head rest
  have hcomma : trim (w ++ ',' :: (u ++ rest)) = ',' :: (u ++ rest) := by
    rw [trim_spaces_cons hw (by decide)]
  rw [afterMember_of_comma hcomma htrim (by decide), htrim]

/-- What has been read describes the members that have come, through to the last. -/
theorem readMembers_of_spells {before ms : List (String × Value)} {m : Members}
    (hm : Describes (.ofMembers before) m) {t : List Char} (h : SpellsMembers ms t) {fuel : Nat}
    (rest : List Char) (hf : (trim (t ++ '\x7d' :: rest)).length < fuel) :
    Verdict (Describes (.ofMembers (before ++ ms)))
      (readMembers fuel m (trim (t ++ '\x7d' :: rest))) rest := by
  induction ms generalizing before m t fuel with
  | nil => cases h
  | cons member ms ih =>
    obtain ⟨fuel, rfl⟩ : ∃ n, fuel = n + 1 := ⟨fuel - 1, by omega⟩
    cases h with
    | @last key v k t hkey h =>
      obtain ⟨body, w, hw, htrim, hbody⟩ := hkey.trim
      rw [List.append_assoc, htrim, readMembers_quote, (hbody _).1]
      obtain ⟨w', hw', hmember⟩ := readMember_of_spaced hm key h hw
        (endsValue_cons (Or.inr (Or.inr rfl)) rest)
      refine hmember.bind (fun m m' => m' = m) (fun m _ => ?_) fun m' => ?_
      · dsimp only
        rw [afterMember_close hw']
        exact Verdict.ok m rest
      · simp
    | @more key v _ k t u hkey h hmore =>
      obtain ⟨body, w, hw, htrim, hbody⟩ := hkey.trim
      simp only [List.append_assoc, List.cons_append] at hf ⊢
      rw [htrim] at hf ⊢
      have hlen := length_trim_le (u ++ '\x7d' :: rest)
      simp only [List.length_append, List.length_cons] at hf hlen
      rw [readMembers_quote, (hbody _).1]
      obtain ⟨w', hw', hmember⟩ := readMember_of_spaced hm key h hw
        (endsValue_cons (Or.inl rfl) (u ++ '\x7d' :: rest))
      have happend : before ++ (key, v) :: ms = before ++ [(key, v)] ++ ms := by simp
      rw [happend]
      refine hmember.bind (fun _ => Describes (.ofMembers (before ++ [(key, v)] ++ ms)))
        (fun m hm => ?_) fun m' => ?_
      · dsimp only
        rw [afterMember_more hmore hw']
        exact ih hm hmore (by omega)
      · constructor
        · intro h
          obtain ⟨m, hm⟩ := h.of_append
          exact ⟨m, hm, h⟩
        · rintro ⟨_, _, h⟩
          exact h

/-- The members that have been read make the route that the element makes. -/
theorem Element.makes_iff {e : Element} {r : Route} :
    e.Makes r ↔ ∃ m, Describes e m ∧ m.toRoute = .ok r := by
  constructor
  · rintro ⟨hpath, hmethods, hname⟩
    have once_of_given : ∀ {α : Type} {is : Value → α → Prop} {vs : List Value} {o : Option α},
        Given is vs o → ∃ o', Once (fun v => Given is [v]) vs o' ∧ o'.join = o := by
      intro α is vs o h
      cases h with
      | absent => exact ⟨none, .unread, rfl⟩
      | null => exact ⟨some none, .read .null, rfl⟩
      | value hx => exact ⟨some (some _), .read (.value hx), rfl⟩
    obtain ⟨methods, hmethods, hjoin⟩ := once_of_given hmethods
    obtain ⟨name, hname, hjoin'⟩ := once_of_given hname
    refine ⟨{ path := some r.path, methods, name }, ⟨?_, hmethods, hname⟩, ?_⟩
    · rw [hpath]
      exact .read rfl
    · simp only [Members.toRoute, hjoin, hjoin']
  · rintro ⟨m, ⟨hpath, hmethods, hname⟩, hr⟩
    have given_of_once : ∀ {α : Type} {is : Value → α → Prop} {vs : List Value}
        {o : Option (Option α)}, Once (fun v => Given is [v]) vs o → Given is vs o.join := by
      intro α is vs o h
      cases h with
      | unread => exact .absent
      | read h => exact h
    obtain ⟨paths, methodss, names⟩ := e
    obtain ⟨path, methods, name⟩ := m
    cases hpath with
    | unread => cases hr
    | read hs =>
      cases hs
      cases hr
      exact ⟨rfl, given_of_once hmethods, given_of_once hname⟩

theorem toRoute_verdict (m : Members) (rest : List Char) :
    Verdict (fun r => m.toRoute = .ok r) (m.toRoute >>= fun r => .ok (r, rest)) rest := by
  cases hr : m.toRoute with
  | error fault => exact Verdict.error (by simp) fault rest
  | ok r => exact (Verdict.ok r rest).congr fun r' => by simp [eq_comm]

/-- An object whose members have been read is the route that they make. -/
theorem Verdict.toRoute {e : Element} {result : Except Fault (Members × List Char)} {rest : List Char}
    (h : Verdict (Describes e) result rest) : Verdict e.Makes
      (result >>= fun p => p.1.toRoute >>= fun r => .ok (r, p.2)) rest :=
  h.bind _ (fun m _ => toRoute_verdict m rest) fun _ => Element.makes_iff

theorem readObject_of_spells {ms : List (String × Value)} {t : List Char}
    (h : Spells (.object ms) ('\x7b' :: t)) (rest : List Char) :
    Verdict (Element.ofMembers ms).Makes (readObject (t ++ rest)) rest := by
  cases h with
  | emptyObject hw =>
    have hempty : Verdict (Describes (.ofMembers [])) (.ok (({} : Members), rest)) rest :=
      (Verdict.ok _ rest).congr fun _ => describes_nil.unique
    rw [readObject, List.append_assoc, trim_spaces_append hw, List.singleton_append,
      trim_cons (by decide)]
    exact hempty.toRoute
  | @object _ t h =>
    obtain ⟨cs, htrim⟩ := h.head ('\x7d' :: rest)
    have hmembers := readMembers_of_spells describes_nil h rest (Nat.lt_succ_self _)
    rw [readObject, List.append_assoc, List.singleton_append]
    rw [htrim] at hmembers ⊢
    exact hmembers.toRoute

/-! ## Routes as lists -/

/-- Reads the name of a route that is a list, and the end of the list. -/
def readTupleName (path : String) (methods : Option (List String)) (cs : List Char) :
    Except Fault (Route × List Char) := do
  let (name, rest) ← readOptional readString cs
  .ok ({ path, methods, name }, ← readClose rest)

/-- Reads a route that is a list after its first item. -/
def readTupleMethods (path : String) (cs : List Char) : Except Fault (Route × List Char) := do
  let (methods, rest) ← readOptional (readList readString) cs
  match ← readNext rest with
  | .closed rest => .ok ({ path, methods }, rest)
  | .item rest => readTupleName path methods rest

theorem readTuple_of_head {cs : List Char} {c : Char} {tail : List Char} (h : trim cs = c :: tail)
    (hc : c ≠ ']') : readTuple cs =
      readString (trim cs) >>= fun (path, rest) => readNext rest >>= fun next =>
        match next with
        | .closed rest => .ok ({ path }, rest)
        | .item rest => readTupleMethods path rest := by
  rw [readTuple, h]
  split
  · next heq => cases heq
  · next heq => exact absurd (List.cons.inj heq).1 hc
  · rfl

theorem readClose_spaces {w : List Char} (hw : Spaces w) (rest : List Char) :
    readClose (w ++ ']' :: rest) = .ok rest := by
  rw [readClose, trim_spaces_cons hw (by decide)]
  rfl

theorem readClose_comma {w : List Char} (hw : Spaces w) (rest : List Char) :
    ∃ fault, readClose (w ++ ',' :: rest) = .error fault := by
  rw [readClose, trim_spaces_cons hw (by decide)]
  split
  · next heq => cases heq
  · next heq => cases heq
  · split
    · exact ⟨_, rfl⟩
    · exact ⟨_, rfl⟩
  · exact ⟨_, rfl⟩

/-- A third item is the last. -/
theorem readTupleName_of_spells (path : String) (methods : Option (List String)) {vs : List Value}
    {t : List Char} (h : SpellsItems vs t) (rest : List Char) :
    Verdict (fun r => ∃ name, Given IsString vs name ∧ r = { path, methods, name })
      (readTupleName path methods (trim (t ++ ']' :: rest))) rest := by
  cases vs with
  | nil => cases h
  | cons v vs =>
    obtain ⟨text, w, htext, hw, ⟨rfl, htrim⟩ | ⟨u, hu, htrim⟩⟩ := h.first
    · rw [htrim, readTupleName]
      refine (reads_name htext spaces_nil _).bind (fun name r => r = { path, methods, name })
        (fun name _ => ?_) fun r => Iff.rfl
      simp only [readClose_spaces hw, bind, Except.bind]
      exact Verdict.ok _ rest
    · rw [htrim, readTupleName]
      obtain ⟨fault, hclose⟩ := readClose_comma hw (u ++ ']' :: rest)
      refine (reads_name htext spaces_nil _).bind (fun _ _ => False)
        (fun name _ => ?_) fun r => ?_
      · simp only [hclose, bind, Except.bind]
        exact Verdict.error (fun _ => id) fault rest
      · have hlen : 2 ≤ (v :: vs).length := Nat.succ_le_succ (List.length_pos_iff.2 hu.ne_nil)
        constructor
        · rintro ⟨name, hname, -⟩
          exact absurd hname (forall_not_given_iff.2 (Or.inl hlen) name)
        · rintro ⟨_, _, ⟨⟩⟩

theorem readTupleMethods_of_spells (path : String) {vs : List Value} {t : List Char}
    (h : SpellsItems vs t) (rest : List Char) :
    Verdict (fun r => ∃ methods name, Given IsStrings (vs.take 1) methods ∧
        Given IsString (vs.drop 1) name ∧ r = { path, methods, name })
      (readTupleMethods path (trim (t ++ ']' :: rest))) rest := by
  cases vs with
  | nil => cases h
  | cons v vs =>
    obtain ⟨text, w, htext, hw, hnext⟩ := h.first
    have hread := reads_methods htext spaces_nil
    have hfits : ∀ r : Route, (∃ methods name, Given IsStrings ((v :: vs).take 1) methods ∧
        Given IsString ((v :: vs).drop 1) name ∧ r = { path, methods, name }) ↔
        ∃ methods, Given IsStrings [v] methods ∧
          ∃ name, Given IsString vs name ∧ r = { path, methods, name } := by
      simp
    rcases hnext with ⟨rfl, htrim⟩ | ⟨u, hu, htrim⟩
    · rw [htrim, readTupleMethods]
      refine (hread _).bind _ (fun methods _ => ?_) hfits
      simp only [readNext_closed hw, bind, Except.bind]
      exact (Verdict.ok _ rest).congr fun r => by simp [given_nil_iff]
    · rw [htrim, readTupleMethods]
      refine (hread _).bind _ (fun methods _ => ?_) hfits
      simp only [readNext_more hu hw, bind, Except.bind]
      exact readTupleName_of_spells path methods hu rest

theorem readTuple_of_spells {vs : List Value} {t : List Char} (h : Spells (.list vs) ('[' :: t))
    (rest : List Char) : Verdict (Element.ofItems vs).Makes (readTuple (t ++ rest)) rest := by
  cases h with
  | emptyList hw =>
    rw [readTuple, List.append_assoc, trim_spaces_append hw, List.singleton_append,
      trim_cons (by decide)]
    refine Verdict.error ?_ _ _
    rintro r ⟨hpath, -, -⟩
    cases hpath
  | @list _ t h =>
    obtain ⟨c, cs, hhead, hc⟩ := h.head (']' :: rest)
    rw [List.append_assoc, List.singleton_append, readTuple_of_head hhead hc]
    cases vs with
    | nil => cases h
    | cons v vs =>
      obtain ⟨text, w, htext, hw, hnext⟩ := h.first
      have hread := reads_readString htext spaces_nil
      have hfits : ∀ r, (Element.ofItems (v :: vs)).Makes r ↔ ∃ path, IsString v path ∧
          ∃ methods name, Given IsStrings (vs.take 1) methods ∧ Given IsString (vs.drop 1) name ∧
            r = { path, methods, name } := by
        intro r
        constructor
        · rintro ⟨hpath, hmethods, hname⟩
          exact ⟨r.path, (List.cons.inj hpath).1, r.methods, r.name, hmethods, hname, rfl⟩
        · rintro ⟨path, rfl, methods, name, hmethods, hname, rfl⟩
          exact ⟨rfl, hmethods, hname⟩
      rcases hnext with ⟨rfl, htrim⟩ | ⟨u, hu, htrim⟩
      · rw [htrim]
        refine (hread _).bind _ (fun path _ => ?_) hfits
        simp only [readNext_closed hw, bind, Except.bind]
        exact (Verdict.ok _ rest).congr fun r => by simp [given_nil_iff]
      · rw [htrim]
        refine (hread _).bind _ (fun path _ => ?_) hfits
        simp only [readNext_more hu hw, bind, Except.bind]
        exact readTupleMethods_of_spells path hu rest

/-! ## Routes and artifacts -/

theorem reads_readRoute : Reads readRoute IsRoute := by
  intro v t w h hw rest
  rw [readRoute, trim_spaces_append hw, h.trim_append]
  obtain ⟨c, t, rfl, hc⟩ := h.head
  rw [List.cons_append]
  by_cases hbracket : c = '['
  · subst hbracket
    obtain ⟨items, rfl⟩ := hc.kind.2.2.1 rfl
    exact (readTuple_of_spells h rest).congr fun r => by simp [IsRoute, element?]
  by_cases hbrace : c = '\x7b'
  · subst hbrace
    obtain ⟨members, rfl⟩ := hc.kind.2.2.2 rfl
    exact (readObject_of_spells h rest).congr fun r => by simp [IsRoute, element?]
  have hkind : ∀ r, ¬ IsRoute v r := by
    rintro r ⟨e, he, -⟩
    cases v with
    | list items => exact hbracket hc
    | object members => exact hbrace hc
    | _ => cases he
  split
  · next heq => cases heq
  · next heq => exact absurd (List.cons.inj heq).1 hbracket
  · next heq => exact absurd (List.cons.inj heq).1 hbrace
  · exact Verdict.error hkind _ rest

/-- The routes of an artifact are read, and the text of another value is refused. -/
theorem readRoutes_of_spaced {v : Value} {cs : List Char} (h : SpellsSpaced v cs) :
    (∀ routes, IsArtifact v routes → readRoutes cs = .ok routes) ∧
      ((∀ routes, ¬ IsArtifact v routes) → ∃ fault, readRoutes cs = .error fault) := by
  obtain ⟨w, hw, hverdict⟩ := (reads_readList reads_readRoute).spaced h
  have hlist := hverdict []
  simp only [List.append_nil] at hlist
  have hend : (trim w).isEmpty = true := by
    have := trim_spaces_append hw []
    rw [List.append_nil] at this
    rw [this]
    rfl
  constructor
  · intro routes hroutes
    rw [readRoutes, hlist.read routes hroutes]
    simp [bind, Except.bind, hend]
  · intro hno
    obtain ⟨fault, hfault⟩ := hlist.refuse hno
    exact ⟨fault, by rw [readRoutes, hfault]; rfl⟩

theorem readRoutes_eq_ok_iff {v : Value} {cs : List Char} (h : SpellsSpaced v cs)
    (routes : List Route) : readRoutes cs = .ok routes ↔ IsArtifact v routes := by
  obtain ⟨hread, hrefuse⟩ := readRoutes_of_spaced h
  constructor
  · intro hok
    by_contra hno
    by_cases hex : ∃ found, IsArtifact v found
    · obtain ⟨found, hfound⟩ := hex
      obtain rfl := Except.ok.inj ((hread found hfound).symm.trans hok)
      exact hno hfound
    · obtain ⟨fault, hfault⟩ := hrefuse (not_exists.1 hex)
      rw [hfault] at hok
      cases hok
  · exact hread routes

/-- A text of JSON is refused as such exactly if its value is no artifact. -/
theorem decode_eq_json_iff {v : Value} {text : String} (h : SpellsSpaced v text.toList) :
    (∃ fault, decode text = .error (.json fault)) ↔ ¬ ∃ routes, IsArtifact v routes := by
  constructor
  · rintro ⟨fault, hfault⟩ ⟨routes, hroutes⟩
    rw [decode_of_readRoutes ((readRoutes_eq_ok_iff h routes).2 hroutes)] at hfault
    split at hfault <;> cases hfault
  · intro hno
    obtain ⟨fault, hfault⟩ := (readRoutes_of_spaced h).2 (not_exists.1 hno)
    exact ⟨fault, decode_of_readRoutes_error hfault⟩

/-- **The format**: of the texts of JSON, those of artifacts are read, with white space, escapes and
members of other names wherever JSON lets them stand, and as the routes that their elements make. What
is read is accepted or refused for its defects; every other text is no artifact, because it is no list
or one of its elements is unfit. Lists of alike elements are read as the same routes. -/
theorem decode_exact {v : Value} {text : String} (h : SpellsSpaced v text.toList) :
    (∀ routes, readRoutes text.toList = .ok routes ↔ IsArtifact v routes) ∧
    (∀ routes, IsArtifact v routes → decode text =
      if Route.defects routes = [] then .ok routes
      else .error (.defective (Route.defects routes))) ∧
    ((∃ fault, decode text = .error (.json fault)) ↔
      ¬ ∃ items, v = .list items ∧ ∀ item ∈ items, ∃ e, element? item = some e ∧ ¬ e.Unfit) ∧
    (∀ items items' (text' : String), v = .list items → SpellsSpaced (.list items') text'.toList →
      List.Forall₂ Alike items items' → ∀ routes,
        readRoutes text'.toList = .ok routes ↔ readRoutes text.toList = .ok routes) := by
  refine ⟨readRoutes_eq_ok_iff h, fun routes hroutes => ?_, ?_, ?_⟩
  · exact decode_of_readRoutes ((readRoutes_eq_ok_iff h routes).2 hroutes)
  · rw [decode_eq_json_iff h, exists_isArtifact_iff]
  · rintro items items' text' rfl h' halike routes
    rw [readRoutes_eq_ok_iff h, readRoutes_eq_ok_iff h', isArtifact_iff_of_alike halike]

/-- An escaped key, a member of another name, a null, and a route that is a list; and a list with an
item too many. -/
theorem decode_exact_mixed :
    decode "[\x7b\"\\u0070ath\": \"/a\", \"x\": [1], \"name\": null\x7d, [\"/b\"]]" =
        .ok [{ path := "/a" }, { path := "/b" }] ∧
      ∃ fault, decode "[[\"/b\",1,1,1]]" = .error (.json fault) := by
  have blank : Spaces [' '] := by simp [Spaces, isSpace]
  have after : ∀ {v t}, Spells v t → SpellsSpaced v (' ' :: t) := by
    intro v t h
    simpa using SpellsSpaced.intro blank h spaces_nil
  have plain : ∀ {v t}, Spells v t → SpellsSpaced v t := by
    intro v t h
    simpa using SpellsSpaced.intro spaces_nil h spaces_nil
  have key : ∀ {w s t}, Spaces w → StringText s t → KeyText s (w ++ (t ++ [':'])) := by
    intro w s t hw h
    exact ⟨w, t, [], hw, h, spaces_nil, rfl⟩
  have hpath : StringText "path" ['"', '\\', 'u', '0', '0', '7', '0', 'a', 't', 'h', '"'] := by
    have hp : HexQuad ['0', '0', '7', '0'] 112 :=
      .intro (i := 0) (j := 0) (k := 7) (l := 0) (.inl (by decide)) (.inl (by decide))
        (.inl (by decide)) (.inl (by decide))
    have hchars : "path".toList = ['p', 'a', 't', 'h'] := by decide
    refine ⟨[['\\', 'u', '0', '0', '7', '0'], ['a'], ['t'], ['h']], ?_, rfl⟩
    rw [hchars]
    exact .cons (.unicode hp (by decide)) (.cons (.bare (by decide)) (.cons (.bare (by decide))
      (.cons (.bare (by decide)) .nil)))
  have ha := stringText_of_bare (show "/a".toList = ['/', 'a'] by decide) (by simp [Bare])
  have hb := stringText_of_bare (show "/b".toList = ['/', 'b'] by decide) (by simp [Bare])
  have hx := stringText_of_bare (show "x".toList = ['x'] by decide) (by simp [Bare])
  have hname := stringText_of_bare (show "name".toList = ['n', 'a', 'm', 'e'] by decide) (by simp [Bare])
  have hone : NumberText ['1'] :=
    ⟨[], ['1'], [], [], .inl rfl, .inr ⟨by simp [Digits], by decide⟩, .inl rfl, .inl rfl, rfl⟩
  have one := plain (.number hone)
  have hobject := Spells.object (.more (key spaces_nil hpath) (after (.string ha))
    (.more (key blank hx) (after (.list (.last one))) (.last (key blank hname) (after .null))))
  have hmixed := plain (.list (.more (plain hobject) (.last (after (.list (.last (plain (.string hb))))))))
  have hfour := plain (.list (.last (plain (.list (.more (plain (.string hb)) (.more one (.more one
    (.last one))))))))
  constructor
  · have hdecode := (decode_exact (show SpellsSpaced _ (String.toList
      "[\x7b\"\\u0070ath\": \"/a\", \"x\": [1], \"name\": null\x7d, [\"/b\"]]") from hmixed)).2.1
    refine (hdecode [{ path := "/a" }, { path := "/b" }] ⟨_, rfl, ?_⟩).trans (if_pos (by decide))
    refine .cons ⟨_, rfl, ?_, ?_, ?_⟩ (.cons ⟨_, rfl, rfl, .absent, .absent⟩ .nil)
    · simp [Element.ofMembers, valuesAt]
    · simp [Element.ofMembers, valuesAt]
      exact .absent
    · simp [Element.ofMembers, valuesAt]
      exact .null
  · refine (decode_exact (show SpellsSpaced _ (String.toList "[[\"/b\",1,1,1]]") from hfour)).2.2.1.2 ?_
    rintro ⟨items, hitems, hall⟩
    cases hitems
    obtain ⟨e, he, hfit⟩ := hall _ (List.mem_singleton.2 rfl)
    cases he
    exact hfit (.repeated (Or.inr (Or.inr (by simp [Element.ofItems]))))

end RouteBook.Artifact
