import RouteBook.Artifact.Decode
import RouteBook.Artifact.Store
import RouteBook.Proofs.Json.Strings

/-!
# Routes are read as they were written

`Restores read text x` says that a reader finds `x` in a text, whatever white space stands
before it and whatever follows. Lists are restored when their items are (`restores_block`), and
objects when each member extends the members read before it (`readMembers_extendsAll`), so that
every list of routes is read back from its artifact in either layout (`readRoutes_encodeChars`).
Whether it is accepted depends on its defects alone. Main statement: `codec_roundTrip`.
-/

namespace RouteBook.Artifact
open Json

/-- The reader finds `x` in the text and stops after it. -/
def Restores {α : Type} (read : List Char → Except Fault (α × List Char)) (text : List Char)
    (x : α) : Prop :=
  ∀ w rest, Spaces w → read (w ++ (text ++ rest)) = .ok (x, rest)

/-- Text and value alone: no white space in front. -/
theorem Restores.read_append {α : Type} {read : List Char → Except Fault (α × List Char)}
    {text : List Char} {x : α} (h : Restores read text x) (rest : List Char) :
    read (text ++ rest) = .ok (x, rest) :=
  h [] rest spaces_nil

/-- A text that begins as a string, a list or an object does. -/
def Opens (text : List Char) : Prop :=
  ∃ c t, text = c :: t ∧ (c = '"' ∨ c = '[' ∨ c = '\x7b')

theorem Opens.trim_append {text : List Char} (h : Opens text) (rest : List Char) :
    trim (text ++ rest) = text ++ rest := by
  obtain ⟨c, t, rfl, hc⟩ := h
  refine trim_cons ?_ _
  rcases hc with rfl | rfl | rfl <;> rfl

theorem Opens.append {text : List Char} (h : Opens text) (rest : List Char) : Opens (text ++ rest) := by
  obtain ⟨c, t, rfl, hc⟩ := h
  exact ⟨c, t ++ rest, rfl, hc⟩

theorem opens_writeString (s : String) : Opens (writeString s) := ⟨_, _, rfl, Or.inl rfl⟩

theorem opens_block (layout : Layout) (level : Nat) {opening closing : Char}
    (ho : opening = '[' ∨ opening = '\x7b') (items : List (List Char)) :
    Opens (layout.block level opening closing items) := by
  unfold Layout.block
  split
  · exact ⟨_, _, rfl, Or.inr ho⟩
  · exact ⟨_, _, rfl, Or.inr ho⟩

/-- A block with items, its separators put in front of the items that follow them. -/
theorem block_cons (layout : Layout) (level : Nat) (opening closing : Char) (t : List Char)
    (ts : List (List Char)) :
    layout.block level opening closing (t :: ts) =
      opening :: (layout.newline (level + 1) ++ (t ++
        (ts.flatMap (fun u => ',' :: (layout.newline (level + 1) ++ u)) ++
          (layout.newline level ++ [closing])))) := by
  have h : ∀ (t : List Char) (ts : List (List Char)),
      List.intercalate [','] ((t :: ts).map (layout.newline (level + 1) ++ ·)) =
        layout.newline (level + 1) ++ (t ++
          ts.flatMap (fun u => ',' :: (layout.newline (level + 1) ++ u))) := by
    intro t ts
    induction ts generalizing t with
    | nil => simp [List.intercalate]
    | cons u us ih =>
      have := ih u
      simp only [List.intercalate, List.map_cons, List.intersperse_cons_cons, List.flatten_cons,
        List.flatMap_cons] at this ⊢
      rw [this]
      simp
  rw [Layout.block, h]
  simp

/-- The separators alone take as many characters as there are items after the first. -/
theorem length_lt_separated (w t rest : List Char) (ts : List (List Char)) :
    ts.length < (t ++ (ts.flatMap (fun u => ',' :: (w ++ u)) ++ rest)).length + 1 := by
  have hne : ∀ u ∈ ts, (',' :: (w ++ u)) ≠ [] := by simp
  have hlen := length_le_length_flatMap hne
  simp only [List.length_append]
  omega

/-! ## Strings and optional values -/

theorem restores_writeString (s : String) : Restores readString (writeString s) s := by
  intro w rest hw
  have h : trim (w ++ (writeString s ++ rest)) =
      '"' :: (s.toList.flatMap writeChar ++ '"' :: rest) := by
    rw [trim_spaces_append hw, (opens_writeString s).trim_append]
    simp [writeString]
  rw [readString, h]
  exact string_flatMap_writeChar s rest

/-- What is not null is read as it is. -/
theorem restores_some {α : Type} {read : List Char → Except Fault (α × List Char)}
    {text : List Char} {x : α} (ho : Opens text) (h : Restores read text x) :
    Restores (readOptional read) text (some x) := by
  intro w rest hw
  have hread := h.read_append rest
  rw [readOptional, trim_spaces_append hw, ho.trim_append]
  obtain ⟨c, t, rfl, hc⟩ := ho
  rcases hc with rfl | rfl | rfl <;> simp [hread, bind, Except.bind] at *

/-! ## Lists -/

theorem readNext_closed {w : List Char} (hw : Spaces w) (rest : List Char) :
    readNext (w ++ ']' :: rest) = .ok (.closed rest) := by
  rw [readNext, trim_spaces_append hw, trim_cons (by decide)]; rfl

theorem readNext_item {w text : List Char} (hw : Spaces w) (ho : Opens text) (rest : List Char) :
    readNext (',' :: (w ++ (text ++ rest))) = .ok (.item (text ++ rest)) := by
  have h : trim (w ++ (text ++ rest)) = text ++ rest := by
    rw [trim_spaces_append hw, ho.trim_append]
  rw [readNext, trim_cons (by decide)]
  simp only [h]
  obtain ⟨c, t, rfl, hc⟩ := ho
  rcases hc with rfl | rfl | rfl <;> rfl

section
variable {α : Type} {read : List Char → Except Fault (α × List Char)} {write : α → List Char}

theorem readItems_restores {x : α} {xs : List α} {w v : List Char} (hw : Spaces w) (hv : Spaces v)
    (h : ∀ y ∈ x :: xs, Restores read (write y) y) (ho : ∀ y ∈ x :: xs, Opens (write y))
    {fuel : Nat} (hf : xs.length < fuel) (rest : List Char) :
    readItems read fuel (write x ++ ((xs.map write).flatMap (fun u => ',' :: (w ++ u)) ++
      (v ++ ']' :: rest))) = .ok (x :: xs, rest) := by
  induction xs generalizing x fuel with
  | nil =>
    obtain ⟨fuel, rfl⟩ := Nat.exists_eq_add_of_lt hf
    have hx := (h x (by simp)).read_append (v ++ ']' :: rest)
    simp [readItems, hx, readNext_closed hv, bind, Except.bind]
  | cons y ys ih =>
    cases fuel with
    | zero => exact absurd hf (Nat.not_lt_zero _)
    | succ fuel =>
      have hx := (h x (by simp)).read_append
        (((y :: ys).map write).flatMap (fun u => ',' :: (w ++ u)) ++ (v ++ ']' :: rest))
      have hys := ih (x := y) (fun z hz => h z (List.mem_cons_of_mem _ hz))
        (fun z hz => ho z (List.mem_cons_of_mem _ hz)) (Nat.lt_of_succ_lt_succ hf)
      simp only [List.map_cons, List.flatMap_cons, List.cons_append, List.append_assoc] at hx hys ⊢
      have hn := readNext_item hw (ho y (by simp))
        ((ys.map write).flatMap (fun u => ',' :: (w ++ u)) ++ (v ++ ']' :: rest))
      simp [readItems, hx, hn, hys, bind, Except.bind]

/-- **Lists**: a block of items is read back if the items are. -/
theorem restores_block (layout : Layout) (level : Nat) (xs : List α)
    (h : ∀ x ∈ xs, Restores read (write x) x) (ho : ∀ x ∈ xs, Opens (write x)) :
    Restores (readList read) (layout.block level '[' ']' (xs.map write)) xs := by
  intro w rest hw
  rw [readList, trim_spaces_append hw, (opens_block layout level (Or.inl rfl) _).trim_append]
  cases xs with
  | nil => simp [Layout.block, readListBody, trim_cons, isSpace]
  | cons x xs =>
    have hnl := spaces_newline layout (level + 1)
    have hf := length_lt_separated (layout.newline (level + 1)) (write x)
      (layout.newline level ++ ']' :: rest) (xs.map write)
    rw [List.length_map] at hf
    have hitems := readItems_restores hnl (spaces_newline layout level) h ho hf rest
    rw [List.map_cons, block_cons]
    simp only [List.cons_append, List.append_assoc, List.nil_append]
    rw [readListBody, trim_spaces_append hnl, (ho x (by simp)).trim_append]
    obtain ⟨c, t, e, hc⟩ := ho x (by simp)
    rw [e] at hitems ⊢
    rcases hc with rfl | rfl | rfl <;> exact hitems

end

/-! ## Objects -/

/-- A member as it is written, after which the members read are `m'` if they were `m`. -/
def Extends (layout : Layout) (m : Members) (text : List Char) (m' : Members) : Prop :=
  ∃ key value, text = layout.member key value ∧
    ∀ rest, readMember m key (layout.colon ++ (value ++ rest)) = .ok (m', rest)

/-- Members, written one after another, that lead from `m` to `m'`. -/
inductive ExtendsAll (layout : Layout) : Members → List (List Char) → Members → Prop
  | last {m m' : Members} {t : List Char} : Extends layout m t m' → ExtendsAll layout m [t] m'
  | more {m m' m'' : Members} {t u : List Char} {ts : List (List Char)} :
      Extends layout m t m' → ExtendsAll layout m' (u :: ts) m'' →
      ExtendsAll layout m (t :: u :: ts) m''

theorem opens_member (layout : Layout) (key : String) (value : List Char) :
    Opens (layout.member key value) := ⟨_, _, rfl, Or.inl rfl⟩

theorem Extends.opens {layout : Layout} {m m' : Members} {t : List Char}
    (h : Extends layout m t m') : Opens t := by
  obtain ⟨key, value, rfl, _⟩ := h
  exact opens_member layout key value

theorem ExtendsAll.opens {layout : Layout} {m m' : Members} {t : List Char} {ts : List (List Char)}
    (h : ExtendsAll layout m (t :: ts) m') : Opens t := by
  cases h with
  | last h => exact h.opens
  | more h _ => exact h.opens

/-- The last member is read, and the end of the object. -/
theorem readMembers_close {layout : Layout} {m m' : Members} {t v : List Char}
    (h : Extends layout m t m') (hv : Spaces v) (fuel : Nat) (rest : List Char) :
    readMembers (fuel + 1) m (t ++ (v ++ '\x7d' :: rest)) = .ok (m', rest) := by
  obtain ⟨key, value, rfl, hm⟩ := h
  have hkey := string_flatMap_writeChar key (layout.colon ++ (value ++ (v ++ '\x7d' :: rest)))
  simp only [Layout.member, writeString, List.cons_append, List.append_assoc, List.nil_append,
    readMembers, hkey, bind, Except.bind, hm, trim_spaces_append hv]
  rw [trim_cons (by decide)]; rfl

/-- A member is read before another. -/
theorem readMembers_comma {layout : Layout} {m m' : Members} {t u w : List Char}
    (h : Extends layout m t m') (hw : Spaces w) (hu : Opens u) (fuel : Nat) (rest : List Char) :
    readMembers (fuel + 1) m (t ++ ',' :: (w ++ (u ++ rest))) = readMembers fuel m' (u ++ rest) := by
  obtain ⟨key, value, rfl, hm⟩ := h
  have hkey := string_flatMap_writeChar key (layout.colon ++ (value ++ ',' :: (w ++ (u ++ rest))))
  have htrim : trim (w ++ (u ++ rest)) = u ++ rest := by
    rw [trim_spaces_append hw, hu.trim_append]
  simp only [Layout.member, writeString, List.cons_append, List.append_assoc, List.nil_append,
    readMembers, hkey, bind, Except.bind, hm]
  rw [trim_cons (by decide)]
  simp only [htrim]
  obtain ⟨c, t', rfl, hc⟩ := hu
  rcases hc with rfl | rfl | rfl <;> rfl

theorem readMembers_extendsAll {layout : Layout} {m m' : Members} {t : List Char}
    {ts : List (List Char)} (h : ExtendsAll layout m (t :: ts) m') {w v : List Char} (hw : Spaces w)
    (hv : Spaces v) {fuel : Nat} (hf : ts.length < fuel) (rest : List Char) :
    readMembers fuel m (t ++ (ts.flatMap (fun u => ',' :: (w ++ u)) ++ (v ++ '\x7d' :: rest))) =
      .ok (m', rest) := by
  generalize hall : t :: ts = all at h
  induction h generalizing t ts fuel with
  | last h =>
    cases hall
    obtain ⟨fuel, rfl⟩ := Nat.exists_eq_add_of_lt hf
    exact readMembers_close h hv _ rest
  | more h hrest ih =>
    cases hall
    cases fuel with
    | zero => exact absurd hf (Nat.not_lt_zero _)
    | succ fuel =>
      simp only [List.flatMap_cons, List.cons_append, List.append_assoc]
      rw [readMembers_comma h hw hrest.opens]
      exact ih (Nat.lt_of_succ_lt_succ hf) rfl

/-! ## Routes -/

theorem readColon_colon (layout : Layout) (rest : List Char) :
    ∃ w, Spaces w ∧ readColon (layout.colon ++ rest) = .ok (w ++ rest) := by
  cases layout with
  | compact => exact ⟨[], spaces_nil, rfl⟩
  | indented => exact ⟨[' '], by simp [Spaces, isSpace], rfl⟩

theorem restores_writeMethods (layout : Layout) (ms : List String) :
    Restores (readList readString) (writeMethods layout ms) ms :=
  restores_block layout 2 ms (fun s _ => restores_writeString s) fun s _ => opens_writeString s

theorem opens_writeMethods (layout : Layout) (ms : List String) : Opens (writeMethods layout ms) :=
  opens_block layout 2 (Or.inl rfl) _

/-- Where its key comes up, the member is read. -/
def Member.Kept {α : Type} (member : Member α) : Prop :=
  ∀ m cs, readMember m member.key cs = readField member m cs

theorem Member.path_kept : Member.path.Kept := fun _ _ => rfl

theorem Member.methods_kept : Member.methods.Kept := fun _ _ => rfl

theorem Member.name_kept : Member.name.Kept := fun _ _ => rfl

theorem readField_of_none {α : Type} (member : Member α) {m : Members} (hm : member.get m = none)
    (cs : List Char) : readField member m cs =
      readColon cs >>= fun rest => member.read rest >>= fun p => .ok (member.put m (some p.1), p.2) := by
  rw [readField, hm]
  rfl

/-- The text is one of the value, as the member is written. -/
structure Member.Written {α : Type} (member : Member α) (text : List Char) (value : α) : Prop where
  kept : member.Kept
  opens : Opens text
  restores : Restores member.read text value

theorem Member.written_path (path : String) : Member.path.Written (writeString path) path :=
  ⟨path_kept, opens_writeString path, restores_writeString path⟩

theorem Member.written_methods (layout : Layout) (ms : List String) :
    Member.methods.Written (writeMethods layout ms) (some ms) :=
  ⟨methods_kept, opens_writeMethods layout ms,
    restores_some (opens_writeMethods layout ms) (restores_writeMethods layout ms)⟩

theorem Member.written_name (name : String) : Member.name.Written (writeString name) (some name) :=
  ⟨name_kept, opens_writeString name, restores_some (opens_writeString name) (restores_writeString name)⟩

/-- A member that has not been read is added to those that have. -/
theorem Member.Written.extends {α : Type} {member : Member α} {text : List Char} {value : α}
    (h : member.Written text value) (layout : Layout) {m : Members} (hm : member.get m = none) :
    Extends layout m (layout.member member.key text) (member.put m (some value)) := by
  refine ⟨_, _, rfl, fun rest => ?_⟩
  obtain ⟨w, hw, hcolon⟩ := readColon_colon layout (text ++ rest)
  rw [h.kept, readField_of_none member hm, hcolon]
  simp only [bind, Except.bind, h.restores w rest hw]

/-- The members of a route, as they are read. -/
def Members.ofRoute (r : Route) : Members :=
  { path := some r.path, methods := r.methods.map some, name := r.name.map some }

theorem Members.toRoute_ofRoute (r : Route) : (Members.ofRoute r).toRoute = .ok r := by
  obtain ⟨path, methods, name⟩ := r
  cases methods <;> cases name <;> rfl

theorem extendsAll_writeMembers (layout : Layout) (r : Route) :
    ExtendsAll layout {} (writeMembers layout r) (Members.ofRoute r) := by
  obtain ⟨path, methods, name⟩ := r
  have hpath := (Member.written_path path).extends layout (m := {}) rfl
  cases methods with
  | none =>
    cases name with
    | none => exact .last hpath
    | some n => exact .more hpath (.last ((Member.written_name n).extends layout rfl))
  | some ms =>
    have hmethods := (Member.written_methods layout ms).extends layout (m := { path := some path }) rfl
    cases name with
    | none => exact .more hpath (.last hmethods)
    | some n => exact .more hpath (.more hmethods (.last ((Member.written_name n).extends layout rfl)))

theorem opens_writeRoute (layout : Layout) (r : Route) : Opens (writeRoute layout r) :=
  opens_block layout 1 (Or.inr rfl) _

/-- An object is read if its members are. -/
theorem readObject_of_readMembers {w text rest : List Char} {m : Members} {r : Route} (hw : Spaces w)
    (ho : Opens text) (hm : readMembers (text.length + 1) {} text = .ok (m, rest))
    (hr : m.toRoute = .ok r) : readObject (w ++ text) = .ok (r, rest) := by
  have htext : trim text = text := by simpa using ho.trim_append []
  have hobject : (readMembers (text.length + 1) {} text >>= fun p =>
      p.1.toRoute >>= fun r => Except.ok (r, p.2)) = .ok (r, rest) := by
    rw [hm]; simp [hr, bind, Except.bind]
  rw [readObject, trim_spaces_append hw, htext]
  obtain ⟨c, t, rfl, hc⟩ := ho
  rcases hc with rfl | rfl | rfl <;> exact hobject

theorem restores_writeRoute (layout : Layout) (r : Route) :
    Restores readRoute (writeRoute layout r) r := by
  intro w rest hw
  have hall := extendsAll_writeMembers layout r
  have hnl := spaces_newline layout 2
  rw [readRoute, trim_spaces_append hw, (opens_writeRoute layout r).trim_append, writeRoute]
  cases hms : writeMembers layout r with
  | nil => cases hms
  | cons t ts =>
    rw [hms] at hall
    have hf := length_lt_separated (layout.newline 2) t (layout.newline 1 ++ '\x7d' :: rest) ts
    have hmembers := readMembers_extendsAll hall hnl (spaces_newline layout 1) hf rest
    rw [block_cons]
    simp only [List.cons_append, List.append_assoc, List.nil_append]
    exact readObject_of_readMembers hnl (hall.opens.append _) hmembers (Members.toRoute_ofRoute r)

/-! ## Artifacts -/

/-- **Nothing is lost**: every list of routes is read back from its artifact. -/
theorem readRoutes_encodeChars (layout : Layout) (routes : List Route) :
    readRoutes (encodeChars layout routes) = .ok routes := by
  have h := (restores_block layout 0 routes (fun r _ => restores_writeRoute layout r)
    (fun r _ => opens_writeRoute layout r)).read_append []
  rw [List.append_nil] at h
  simp [readRoutes, encodeChars, h, trim, bind, Except.bind]

/-- A text that can be read is refused for the defects of its routes and for nothing else. -/
theorem decode_of_readRoutes {text : String} {routes : List Route}
    (h : readRoutes text.toList = .ok routes) :
    decode text = if Route.defects routes = [] then .ok routes
      else .error (.defective (Route.defects routes)) := by
  rw [decode, h]
  cases hd : Route.defects routes with
  | nil => simp only [hd, if_true]
  | cons d ds => simp only [hd, reduceCtorEq, if_false]

theorem decode_of_readRoutes_error {text : String} {fault : Fault}
    (h : readRoutes text.toList = .error fault) : decode text = .error (.json fault) := by
  rw [decode, h]

theorem decode_eq_ok_iff {text : String} {routes : List Route} :
    decode text = .ok routes ↔
      readRoutes text.toList = .ok routes ∧ Route.defects routes = [] := by
  cases hread : readRoutes text.toList with
  | error fault => simp [decode_of_readRoutes_error hread]
  | ok found =>
    rw [decode_of_readRoutes hread]
    by_cases hd : Route.defects found = []
    · rw [if_pos hd]
      constructor
      · intro h
        injection h with h
        subst h
        exact ⟨rfl, hd⟩
      · rintro ⟨h, -⟩
        injection h with h
        rw [h]
    · rw [if_neg hd]
      constructor
      · intro h
        cases h
      · rintro ⟨h, hr⟩
        injection h with h
        rw [h] at hd
        exact absurd hr hd

theorem readRoutes_encode (layout : Layout) (routes : List Route) :
    readRoutes (encode layout routes).toList = .ok routes := by
  rw [encode, String.toList_ofList, readRoutes_encodeChars]

/-- An artifact is accepted if what was written has no defects. -/
theorem decode_encode (layout : Layout) {routes : List Route} (h : Route.defects routes = []) :
    decode (encode layout routes) = .ok routes :=
  decode_eq_ok_iff.mpr ⟨readRoutes_encode layout routes, h⟩

/-- **The codec**: what was written is read back in either layout, and the defects of the routes
alone decide whether it is accepted. What is accepted, from whichever text, has no defects, so
that writing it again and reading it changes nothing. -/
theorem codec_roundTrip :
    (∀ layout routes, decode (encode layout routes) =
      if Route.defects routes = [] then .ok routes
      else .error (.defective (Route.defects routes))) ∧
    (∀ layout routes fault, decode (encode layout routes) ≠ .error (.json fault)) ∧
    (∀ text routes, decode text = .ok routes →
      Route.defects routes = [] ∧ ∀ layout, decode (encode layout routes) = .ok routes) := by
  have hgate : ∀ layout routes, decode (encode layout routes) =
      if Route.defects routes = [] then .ok routes
      else .error (.defective (Route.defects routes)) := by
    intro layout routes
    exact decode_of_readRoutes (readRoutes_encode layout routes)
  refine ⟨hgate, ?_, ?_⟩
  · intro layout routes fault h
    rw [hgate] at h
    split at h <;> cases h
  · intro text routes h
    have hd : Route.defects routes = [] := (decode_eq_ok_iff.mp h).2
    exact ⟨hd, fun layout => decode_encode layout hd⟩

/-- A text of another hand, with white space, a null and the members in another order. -/
theorem codec_roundTrip_foreign :
    decode "[\x7b\"name\": null, \"path\": \"/a\"\x7d]" = .ok [{ path := "/a" }] ∧
      decode (encode .indented [{ path := "/a" }]) = .ok [{ path := "/a" }] := by
  have h : decode "[\x7b\"name\": null, \"path\": \"/a\"\x7d]" = .ok [{ path := "/a" }] := by
    rfl
  exact ⟨h, (codec_roundTrip.2.2 _ _ h).2 .indented⟩

end RouteBook.Artifact
