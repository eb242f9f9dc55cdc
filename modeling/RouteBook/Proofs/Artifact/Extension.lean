import RouteBook.Artifact.Decode
import RouteBook.Proofs.Json.Extension
import RouteBook.Proofs.Json.Strings

/-!
# Artifacts with text after them

The readers of an artifact stop at the bracket, brace or quote that ends what they read, and text
that comes after makes no difference (`Delimited`). Only the value of an unknown member may be a
number, which does not show its end, but then the object goes on. Main statement
(`readRoutes_append`): if an artifact is read with text added to it, the text added is white
space, and the routes are the same.
-/

namespace RouteBook.Artifact
open Json

/-! ## Values and lists -/

theorem readString_delimited : Delimited readString := by
  intro cs rest s h more
  unfold readString at h ⊢
  cases ht : trim cs with
  | nil => rw [ht] at h; cases h
  | cons c tail =>
    rw [ht] at h
    rw [trim_append ht more]
    split at h
    · cases h
    · next heq => cases heq; exact string_delimited h more
    · cases h

section
variable {α : Type} {read : List Char → Except Fault (α × List Char)}

theorem readOptional_delimited (hread : Delimited read) (hnil : ∀ r, read [] ≠ .ok r) :
    Delimited (readOptional read) := by
  intro cs rest x h more
  unfold readOptional at h ⊢
  cases ht : trim cs with
  | nil =>
    rw [ht] at h
    obtain ⟨r, hr, _⟩ := bind_eq_ok_iff.1 h
    exact absurd hr (hnil r)
  | cons c tail =>
    rw [ht] at h
    rw [trim_append ht more]
    split at h
    · next heq =>
      cases heq
      exact Delimited.after word_append (Delimited.done none) h more
    · next hnull =>
      have hc : c ≠ 'n' := by rintro rfl; exact hnull _ rfl
      split
      · next heq => exact absurd (List.cons.inj heq).1 hc
      · exact hread.bind (fun value => Delimited.done (some value)) h more

/-- What comes after an item, with more text after it. -/
def Next.append (next : Next) (more : List Char) : Next :=
  match next with
  | .closed rest => .closed (rest ++ more)
  | .item rest => .item (rest ++ more)

theorem readNext_of_comma {cs tail tail' : List Char} {d : Char} (h : trim cs = ',' :: tail)
    (hitem : trim tail = d :: tail') (hd : d ≠ ']') : readNext cs = .ok (.item (d :: tail')) := by
  simp only [readNext, h, hitem]
  split
  · next heq => cases heq
  · next heq => exact absurd (List.cons.inj heq).1 hd
  · rfl

theorem readNext_append {cs : List Char} {next : Next} (h : readNext cs = .ok next)
    (more : List Char) : readNext (cs ++ more) = .ok (next.append more) := by
  unfold readNext at h
  cases ht : trim cs with
  | nil => rw [ht] at h; cases h
  | cons c tail =>
    rw [ht] at h
    split at h
    · cases h
    · next heq =>
      cases heq
      cases h
      rw [readNext, trim_append ht more]
      rfl
    · next heq =>
      cases heq
      cases hitem : trim tail with
      | nil => rw [hitem] at h; cases h
      | cons d tail' =>
        rw [hitem] at h
        split at h
        · cases h
        · cases h
        · next hclose =>
          have hd : d ≠ ']' := by rintro rfl; exact hclose _ rfl
          cases h
          exact readNext_of_comma (trim_append ht more) (trim_append hitem more) hd
    · cases h

/-- After an item, a list that is closed or goes on with what shows its end. -/
theorem delimited_next {closed item : List Char → Except Fault (α × List Char)}
    (hclosed : Delimited closed) (hitem : Delimited item) :
    Delimited fun cs => readNext cs >>= fun next =>
      match next with
      | .closed rest => closed rest
      | .item rest => item rest := by
  intro cs rest x h more
  obtain ⟨next, hnext, h⟩ := bind_eq_ok_iff.1 h
  refine bind_eq_ok_iff.2 ⟨next.append more, readNext_append hnext more, ?_⟩
  cases next with
  | closed tail => exact hclosed h more
  | item tail => exact hitem h more

theorem readItems_append (hread : Delimited read) {fuel fuel' : Nat} (hf : fuel ≤ fuel')
    {cs rest : List Char} {xs : List α} (h : readItems read fuel cs = .ok (xs, rest))
    (more : List Char) : readItems read fuel' (cs ++ more) = .ok (xs, rest ++ more) := by
  induction fuel generalizing fuel' cs rest xs with
  | zero => cases h
  | succ fuel ih =>
    cases fuel' with
    | zero => exact absurd hf (Nat.not_succ_le_zero _)
    | succ fuel' =>
      obtain ⟨⟨x, tail⟩, hx, h⟩ := bind_eq_ok_iff.1 h
      refine bind_eq_ok_iff.2 ⟨(x, tail ++ more), hread hx more, ?_⟩
      obtain ⟨next, hnext, h⟩ := bind_eq_ok_iff.1 h
      refine bind_eq_ok_iff.2 ⟨next.append more, readNext_append hnext more, ?_⟩
      cases next with
      | closed tail => cases h; rfl
      | item tail =>
        obtain ⟨⟨ys, tail'⟩, hys, h⟩ := bind_eq_ok_iff.1 h
        have hys' := ih (Nat.le_of_succ_le_succ hf) hys
        refine bind_eq_ok_iff.2 ⟨(ys, tail' ++ more), hys', ?_⟩
        cases h; rfl

theorem readListBody_delimited (hread : Delimited read) : Delimited (readListBody read) := by
  intro cs rest xs h more
  unfold readListBody at h ⊢
  cases ht : trim cs with
  | nil => rw [ht] at h; cases h
  | cons c tail =>
    rw [ht] at h
    rw [trim_append ht more]
    split at h
    · cases h
    · next heq => cases heq; cases h; rfl
    · next hclose =>
      have hc : c ≠ ']' := by rintro rfl; exact hclose _ rfl
      split
      · next heq => cases heq
      · next heq => exact absurd (List.cons.inj heq).1 hc
      · exact readItems_append hread (length_le_length_append (c :: tail) more) h more

theorem readList_delimited (hread : Delimited read) : Delimited (readList read) := by
  intro cs rest xs h more
  unfold readList at h ⊢
  cases ht : trim cs with
  | nil => rw [ht] at h; cases h
  | cons c tail =>
    rw [ht] at h
    rw [trim_append ht more]
    split at h
    · cases h
    · next heq => cases heq; exact readListBody_delimited hread h more
    · cases h

end

theorem readStrings_delimited : Delimited (readList readString) :=
  readList_delimited readString_delimited

theorem readMethods_delimited : Delimited (readOptional (readList readString)) := by
  refine readOptional_delimited readStrings_delimited ?_
  intro r h
  cases h

theorem readName_delimited : Delimited (readOptional readString) := by
  refine readOptional_delimited readString_delimited ?_
  intro r h
  cases h

/-! ## Routes as objects -/

theorem readColon_append {cs rest : List Char} (h : readColon cs = .ok rest) (more : List Char) :
    readColon (cs ++ more) = .ok (rest ++ more) := by
  unfold readColon at h ⊢
  cases ht : trim cs with
  | nil => rw [ht] at h; cases h
  | cons c tail =>
    rw [ht] at h
    rw [trim_append ht more]
    split at h
    · cases h
    · next heq => cases heq; cases h; rfl
    · cases h

theorem readField_delimited {α : Type} (member : Member α) (hread : Delimited member.read) (m : Members) :
    Delimited (readField member m) := by
  have hvalue : Delimited fun cs => readColon cs >>= fun rest => member.read rest >>= fun value =>
      .ok (member.put m (some value.1), value.2) :=
    Delimited.after readColon_append (hread.bind fun value => Delimited.done (member.put m (some value)))
  intro cs rest m' h more
  unfold readField at h ⊢
  split at h
  · cases h
  · next hfirst =>
    rw [if_neg hfirst]
    exact hvalue h more

/-- A member is read the same with more text after it, if some of the text was left. -/
theorem readMember_append {m m' : Members} {key : String} {cs rest : List Char}
    (h : readMember m key cs = .ok (m', rest)) (hne : rest ≠ []) (more : List Char) :
    readMember m key (cs ++ more) = .ok (m', rest ++ more) := by
  unfold readMember at h ⊢
  split_ifs at h ⊢
  · exact readField_delimited .path readString_delimited m h more
  · exact readField_delimited .methods readMethods_delimited m h more
  · exact readField_delimited .name readName_delimited m h more
  · obtain ⟨tail, hcolon, h⟩ := bind_eq_ok_iff.1 h
    refine bind_eq_ok_iff.2 ⟨tail ++ more, readColon_append hcolon more, ?_⟩
    obtain ⟨tail', hskip, h⟩ := bind_eq_ok_iff.1 h
    cases h
    exact bind_eq_ok_iff.2 ⟨rest ++ more, skip_append hskip hne more, rfl⟩

/-- What `readMembers` does after a member. -/
def afterMember (fuel : Nat) (m : Members) (cs : List Char) : Except Fault (Members × List Char) :=
  match trim cs with
  | [] => .error .endInObject
  | '\x7d' :: rest => .ok (m, rest)
  | ',' :: rest =>
    match trim rest with
    | [] => .error .endInValue
    | '\x7d' :: _ => .error .trailingComma
    | rest => readMembers fuel m rest
  | _ => .error .expectedObjectSeparator

theorem readMembers_quote (fuel : Nat) (m : Members) (cs : List Char) :
    readMembers (fuel + 1) m ('"' :: cs) =
      string cs >>= fun (key, rest) => readMember m key rest >>= fun (m, rest) =>
        afterMember fuel m rest := rfl

theorem afterMember_of_comma {cs tail tail' : List Char} {d : Char} (h : trim cs = ',' :: tail)
    (hkey : trim tail = d :: tail') (hd : d ≠ '\x7d') (fuel : Nat) (m : Members) :
    afterMember fuel m cs = readMembers fuel m (d :: tail') := by
  simp only [afterMember, h, hkey]
  split
  · next heq => cases heq
  · next heq => exact absurd (List.cons.inj heq).1 hd
  · rfl

/-- After a member the object goes on or ends, so that some text was left. -/
theorem ne_nil_of_afterMember {fuel : Nat} {m m' : Members} {cs rest : List Char}
    (h : afterMember fuel m cs = .ok (m', rest)) : cs ≠ [] := by
  rintro rfl
  cases h

theorem afterMember_append {fuel fuel' : Nat} {more : List Char}
    (ih : ∀ {m m' cs rest}, readMembers fuel m cs = .ok (m', rest) →
      readMembers fuel' m (cs ++ more) = .ok (m', rest ++ more))
    {m m' : Members} {cs rest : List Char} (h : afterMember fuel m cs = .ok (m', rest)) :
    afterMember fuel' m (cs ++ more) = .ok (m', rest ++ more) := by
  unfold afterMember at h
  cases hend : trim cs with
  | nil => rw [hend] at h; cases h
  | cons c tail =>
    rw [hend] at h
    split at h
    · cases h
    · next heq =>
      cases heq
      cases h
      rw [afterMember, trim_append hend more]
      rfl
    · next heq =>
      cases heq
      cases hkey : trim tail with
      | nil => rw [hkey] at h; cases h
      | cons d tail' =>
        rw [hkey] at h
        split at h
        · cases h
        · cases h
        · next hclose =>
          have hd : d ≠ '\x7d' := by rintro rfl; exact hclose _ rfl
          rw [afterMember_of_comma (trim_append hend more) (trim_append hkey more) hd]
          exact ih h
    · cases h

theorem readMembers_append {fuel fuel' : Nat} (hf : fuel ≤ fuel') {m m' : Members}
    {cs rest : List Char} (h : readMembers fuel m cs = .ok (m', rest)) (more : List Char) :
    readMembers fuel' m (cs ++ more) = .ok (m', rest ++ more) := by
  induction fuel generalizing fuel' m m' cs rest with
  | zero => cases h
  | succ fuel ih =>
    cases fuel' with
    | zero => exact absurd hf (Nat.not_succ_le_zero _)
    | succ fuel' =>
      have hf' := Nat.le_of_succ_le_succ hf
      unfold readMembers at h
      split at h
      · next tail =>
        obtain ⟨⟨key, afterKey⟩, hkey, h⟩ := bind_eq_ok_iff.1 h
        obtain ⟨⟨m₁, mid⟩, hmember, h⟩ := bind_eq_ok_iff.1 h
        have hmember' := readMember_append hmember (ne_nil_of_afterMember h) more
        rw [List.cons_append, readMembers_quote]
        refine bind_eq_ok_iff.2 ⟨(key, afterKey ++ more), string_delimited hkey more, ?_⟩
        refine bind_eq_ok_iff.2 ⟨(m₁, mid ++ more), hmember', ?_⟩
        exact afterMember_append (fun h => ih hf' h) h
      · cases h

theorem readObject_delimited : Delimited readObject := by
  intro cs rest r h more
  unfold readObject at h ⊢
  cases ht : trim cs with
  | nil => rw [ht] at h; cases h
  | cons c tail =>
    rw [ht] at h
    rw [trim_append ht more]
    split at h
    · cases h
    · -- An object without members has no path.
      cases h
    · next hclose =>
      have hc : c ≠ '\x7d' := by rintro rfl; exact hclose _ rfl
      obtain ⟨⟨m, tail'⟩, hm, h⟩ := bind_eq_ok_iff.1 h
      have hm' := readMembers_append (length_le_length_append (c :: tail) more) hm more
      split
      · next heq => cases heq
      · next heq => exact absurd (List.cons.inj heq).1 hc
      · refine bind_eq_ok_iff.2 ⟨(m, tail' ++ more), hm', ?_⟩
        obtain ⟨r', hr, h⟩ := bind_eq_ok_iff.1 h
        refine bind_eq_ok_iff.2 ⟨r', hr, ?_⟩
        cases h; rfl

/-! ## Routes as lists -/

theorem readClose_append {cs rest : List Char} (h : readClose cs = .ok rest) (more : List Char) :
    readClose (cs ++ more) = .ok (rest ++ more) := by
  unfold readClose at h ⊢
  cases ht : trim cs with
  | nil => rw [ht] at h; cases h
  | cons c tail =>
    rw [ht] at h
    rw [trim_append ht more]
    split at h
    · cases h
    · next heq => cases heq; cases h; rfl
    · split at h <;> cases h
    · cases h

theorem readTuple_delimited : Delimited readTuple := by
  have hname : ∀ path methods, Delimited fun cs => readOptional readString cs >>= fun name =>
      readClose name.2 >>= fun rest => .ok (({ path, methods, name := name.1 } : Route), rest) := by
    intro path methods
    exact readName_delimited.bind fun name => Delimited.after readClose_append (Delimited.done _)
  have hmethods : ∀ path, Delimited fun cs => readOptional (readList readString) cs >>= fun methods =>
      readNext methods.2 >>= fun next =>
        match next with
        | .closed rest => .ok (({ path, methods := methods.1 } : Route), rest)
        | .item rest => readOptional readString rest >>= fun name => readClose name.2 >>= fun rest =>
            .ok (({ path, methods := methods.1, name := name.1 } : Route), rest) := by
    intro path
    exact readMethods_delimited.bind fun methods =>
      delimited_next (Delimited.done { path, methods }) (hname path methods)
  intro cs rest r h more
  unfold readTuple at h ⊢
  cases ht : trim cs with
  | nil => rw [ht] at h; cases h
  | cons c tail =>
    rw [ht] at h
    rw [trim_append ht more]
    split at h
    · cases h
    · cases h
    · next hclose =>
      have hc : c ≠ ']' := by rintro rfl; exact hclose _ rfl
      split
      · next heq => cases heq
      · next heq => exact absurd (List.cons.inj heq).1 hc
      · exact readString_delimited.bind
          (fun path => delimited_next (Delimited.done { path }) (hmethods path)) h more

/-! ## Artifacts -/

theorem readRoute_delimited : Delimited readRoute := by
  intro cs rest r h more
  unfold readRoute at h ⊢
  cases ht : trim cs with
  | nil => rw [ht] at h; cases h
  | cons c tail =>
    rw [ht] at h
    rw [trim_append ht more]
    split at h
    · cases h
    · next heq => cases heq; exact readTuple_delimited h more
    · next heq => cases heq; exact readObject_delimited h more
    · cases h

/-- **Text after an artifact**: if an artifact is read, and is still read with text added to it,
then the routes are the same, and what was added is white space. -/
theorem readRoutes_append {cs more : List Char} {routes routes' : List Route}
    (h : readRoutes cs = .ok routes) (h' : readRoutes (cs ++ more) = .ok routes') :
    routes' = routes ∧ Spaces more := by
  obtain ⟨⟨found, rest⟩, hfound, h⟩ := bind_eq_ok_iff.1 h
  obtain ⟨⟨found', rest'⟩, hfound', h'⟩ := bind_eq_ok_iff.1 h'
  have hlater := readList_delimited readRoute_delimited hfound more
  obtain ⟨rfl, rfl⟩ := Prod.mk.inj (Except.ok.inj (hlater.symm.trans hfound'))
  dsimp only at h h'
  split at h
  · next hspace =>
    split at h'
    · next hspace' =>
      cases h
      cases h'
      refine ⟨rfl, fun c hc => ?_⟩
      have hall := List.dropWhile_eq_nil_iff.1 (List.isEmpty_iff.1 hspace')
      exact hall c (List.mem_append_right rest hc)
    · cases h'
  · cases h

end RouteBook.Artifact
