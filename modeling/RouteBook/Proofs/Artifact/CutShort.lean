import RouteBook.Proofs.Artifact.Extension
import RouteBook.Proofs.Artifact.RoundTrip
import RouteBook.Proofs.Text.Cut

/-!
# Artifacts that are cut short

`NeedsAll read text` says that a reader finds every text that lacks some of the end of `text` to
end too early. It is carried through the written artifact as `Restores` is: strings need all of
their text, a list does if its items do (`needsAll_block`), and an object if each member does
after the members read before it. Main statement: an artifact that lacks some of its end is
truncated, wherever it is cut (`readRoutes_cut`).
-/

namespace RouteBook

namespace Json

/-- A reading that finds the text to end too early. -/
def BreaksOff {α : Type} (r : Except Fault α) : Prop :=
  ∃ fault, r = .error fault ∧ fault.category = .truncated

theorem BreaksOff.bind {α β : Type} {r : Except Fault α} (h : BreaksOff r) (f : α → Except Fault β) :
    BreaksOff (r >>= f) := by
  obtain ⟨fault, rfl, hf⟩ := h
  exact ⟨fault, rfl, hf⟩

/-- What comes after something that was read breaks off. -/
theorem BreaksOff.after {α β : Type} {r : Except Fault α} {a : α} (hr : r = .ok a)
    {f : α → Except Fault β} (h : BreaksOff (f a)) : BreaksOff (r >>= f) := by
  rw [hr]
  exact h

/-! ## Strings -/

theorem cut_four {a b c d : Char} {part : List Char} (h : Cut part [a, b, c, d]) :
    part = [] ∨ part = [a] ∨ part = [a, b] ∨ part = [a, b, c] := by
  rcases h.cons_cases with rfl | ⟨q₁, rfl, h₁⟩
  · exact Or.inl rfl
  rcases h₁.cons_cases with rfl | ⟨q₂, rfl, h₂⟩
  · exact Or.inr (Or.inl rfl)
  rcases h₂.cons_cases with rfl | ⟨q₃, rfl, h₃⟩
  · exact Or.inr (Or.inr (Or.inl rfl))
  rcases h₃.cons_cases with rfl | ⟨q₄, rfl, h₄⟩
  · exact Or.inr (Or.inr (Or.inr rfl))
  · exact absurd h₄ not_cut_nil

/-- The number of a control cut short has less than four digits. -/
theorem unicodeEscape_cut {n : Nat} (hn : n < 0x20) {part : List Char}
    (h : Cut part ['0', '0', hexDigit (n / 16), hexDigit (n % 16)]) :
    unicodeEscape part = .error .endInString := by
  have hhigh : n / 16 = 0 ∨ n / 16 = 1 := by omega
  rcases cut_four h with rfl | rfl | rfl | rfl
  · rfl
  · rfl
  · rfl
  · rcases hhigh with e | e
    · rw [e]; rfl
    · rw [e]; rfl

theorem escape_cut {c : Char} {e part : List Char} (hw : writeChar c = '\\' :: e) (h : Cut part e) :
    escape unicodeEscape part = .error .endInString := by
  have short : ∀ {d : Char}, e = [d] → escape unicodeEscape part = .error .endInString := by
    rintro d rfl
    rcases h.cons_cases with rfl | ⟨q, rfl, hq⟩
    · rfl
    · exact absurd hq not_cut_nil
  unfold writeChar at hw
  split at hw
  any_goals exact short (List.cons.inj hw).2.symm
  split at hw
  · next hc =>
    obtain rfl := (List.cons.inj hw).2
    rcases h.cons_cases with rfl | ⟨q, rfl, hq⟩
    · rfl
    · exact unicodeEscape_cut hc hq
  · next hslash _ _ _ _ _ _ => exact absurd (List.cons.inj hw).1 hslash

/-- A string cut short ends too early: before a character, within an escape, or before the quote. -/
theorem stringBody_cut (cs : List Char) (fuel : Nat) (read : List Char) {part : List Char}
    (h : Cut part (cs.flatMap writeChar ++ ['"'])) :
    stringBody unicodeEscape fuel read part = .error .endInString := by
  have nil : ∀ fuel read, stringBody unicodeEscape fuel read [] = .error .endInString := by
    intro fuel read
    cases fuel <;> rfl
  induction cs generalizing fuel read part with
  | nil =>
    rcases h.cons_cases with rfl | ⟨q, rfl, hq⟩
    · exact nil fuel read
    · exact absurd hq not_cut_nil
  | cons c cs ih =>
    cases fuel with
    | zero => rfl
    | succ fuel =>
      rw [List.flatMap_cons, List.append_assoc] at h
      rcases h.append_cases with hchar | ⟨q, rfl, hq⟩
      · rcases writeChar_cases c with ⟨_, hw⟩ | ⟨e, hw, _⟩
        · rw [hw] at hchar
          rcases hchar.cons_cases with rfl | ⟨q, rfl, hq⟩
          · exact nil _ read
          · exact absurd hq not_cut_nil
        · rw [hw] at hchar
          rcases hchar.cons_cases with rfl | ⟨q, rfl, hq⟩
          · exact nil _ read
          · rw [stringBody, if_neg (by decide), if_pos rfl, escape_cut hw hq]
            rfl
      · rw [stringBody_writeChar]
        exact ih fuel (c :: read) hq

theorem string_cut {s : String} {part : List Char}
    (h : Cut part (s.toList.flatMap writeChar ++ ['"'])) : string part = .error .endInString := by
  rw [string, stringBody_cut s.toList _ _ h]
  rfl

end Json

namespace Artifact
open Json

/-- Whatever a text lacks of its end, the reader finds it to end too early. -/
def NeedsAll {α : Type} (read : List Char → Except Fault (α × List Char)) (text : List Char) : Prop :=
  ∀ w part, Spaces w → Cut part text → BreaksOff (read (w ++ part))

section
variable {α : Type} {read : List Char → Except Fault (α × List Char)} {text : List Char}

/-- Text alone: no white space in front. -/
theorem NeedsAll.read_cut (h : NeedsAll read text) {part : List Char} (hp : Cut part text) :
    BreaksOff (read part) :=
  h [] part spaces_nil hp

theorem Opens.ne_nil (h : Opens text) : text ≠ [] := by
  obtain ⟨c, t, rfl, _⟩ := h
  exact List.cons_ne_nil c t

/-- What begins as a text that opens, opens if it is anything at all. -/
theorem Opens.of_beginning {part : List Char} (h : Opens text) (hp : part <+: text) (hne : part ≠ []) :
    Opens part := by
  obtain ⟨c, t, rfl, hc⟩ := h
  rcases List.prefix_cons_iff.1 hp with rfl | ⟨t', rfl, _⟩
  · exact absurd rfl hne
  · exact ⟨c, t', rfl, hc⟩

theorem Opens.trim (h : Opens text) : Json.trim text = text := by
  simpa using h.trim_append []

theorem trim_spaces {w : List Char} (hw : Spaces w) : trim w = [] := by
  simpa [trim] using trim_spaces_append hw []

/-- What is cut off before the last character of white space and a mark is white space. -/
theorem spaces_of_cut {w part : List Char} {c : Char} (hw : Spaces w) (h : Cut part (w ++ [c])) :
    Spaces part := by
  rcases h.append_cases with hp | ⟨q, rfl, hq⟩
  · intro d hd
    exact hw d (hp.1.subset hd)
  · rcases hq.cons_cases with rfl | ⟨q', rfl, hq'⟩
    · simpa using hw
    · exact absurd hq' not_cut_nil

end

/-! ## Strings and optional values -/

theorem needsAll_writeString (s : String) : NeedsAll readString (writeString s) := by
  intro w part hw hp
  rw [readString, trim_spaces_append hw]
  rcases Cut.cons_cases hp with rfl | ⟨q, rfl, hq⟩
  · exact ⟨.endInValue, rfl, rfl⟩
  · rw [trim_cons (by decide)]
    exact ⟨.endInString, string_cut hq, rfl⟩

theorem needsAll_some {α : Type} {read : List Char → Except Fault (α × List Char)}
    {text : List Char} (ho : Opens text) (h : NeedsAll read text) : NeedsAll (readOptional read) text := by
  intro w part hw hp
  rw [readOptional, trim_spaces_append hw]
  by_cases hne : part = []
  · subst hne
    exact (h.read_cut (cut_nil ho.ne_nil)).bind _
  · have hopen := ho.of_beginning hp.1 hne
    have hread := (h.read_cut hp).bind fun p => Except.ok (some p.1, p.2)
    rw [hopen.trim]
    obtain ⟨c, t, rfl, hc⟩ := hopen
    rcases hc with rfl | rfl | rfl
    · exact hread
    · exact hread
    · exact hread

/-! ## Lists -/

theorem readNext_spaces {w : List Char} (hw : Spaces w) : BreaksOff (readNext w) := by
  rw [readNext, trim_spaces hw]
  exact ⟨.endInList, rfl, rfl⟩

theorem readNext_comma_spaces {w : List Char} (hw : Spaces w) : BreaksOff (readNext (',' :: w)) := by
  rw [readNext, trim_cons (by decide)]
  simp only [trim_spaces hw]
  exact ⟨.endInValue, rfl, rfl⟩

section
variable {α : Type} {read : List Char → Except Fault (α × List Char)} {write : α → List Char}

/-- The items of a list cut short: within an item, after it, or before the next or the end. -/
theorem readItems_cut {x : α} {xs : List α} {w v : List Char} (hw : Spaces w) (hv : Spaces v)
    (h : ∀ y ∈ x :: xs, Restores read (write y) y) (hn : ∀ y ∈ x :: xs, NeedsAll read (write y))
    (ho : ∀ y ∈ x :: xs, Opens (write y)) (fuel : Nat) {part : List Char}
    (hp : Cut part (write x ++ ((xs.map write).flatMap (fun u => ',' :: (w ++ u)) ++ (v ++ [']'])))) :
    BreaksOff (readItems read fuel part) := by
  induction xs generalizing x fuel part with
  | nil =>
    cases fuel with
    | zero => exact ⟨.endInValue, rfl, rfl⟩
    | succ fuel =>
      rcases hp.append_cases with hx | ⟨q, rfl, hq⟩
      · exact ((hn x (by simp)).read_cut hx).bind _
      · have hend := readNext_spaces (spaces_of_cut hv hq)
        exact .after ((h x (by simp)).read_append q) (hend.bind _)
  | cons y ys ih =>
    cases fuel with
    | zero => exact ⟨.endInValue, rfl, rfl⟩
    | succ fuel =>
      rcases hp.append_cases with hx | ⟨q, rfl, hq⟩
      · exact ((hn x (by simp)).read_cut hx).bind _
      · have hread := (h x (by simp)).read_append q
        simp only [List.map_cons, List.flatMap_cons, List.cons_append, List.append_assoc] at hq
        rcases hq.cons_cases with rfl | ⟨q₁, rfl, hq₁⟩
        · exact .after hread ((readNext_spaces spaces_nil).bind _)
        rcases hq₁.append_cases with hspace | ⟨q₂, rfl, hq₂⟩
        · have hw' : Spaces q₁ := fun c hc => hw c (hspace.1.subset hc)
          exact .after hread ((readNext_comma_spaces hw').bind _)
        by_cases hne : q₂ = []
        · subst hne
          rw [List.append_nil] at hread ⊢
          exact .after hread ((readNext_comma_spaces hw).bind _)
        · have hopen := ((ho y (by simp)).append _).of_beginning hq₂.1 hne
          have hnext := readNext_item hw hopen []
          rw [List.append_nil] at hnext
          have hrest := ih (fun z hz => h z (List.mem_cons_of_mem _ hz))
            (fun z hz => hn z (List.mem_cons_of_mem _ hz))
            (fun z hz => ho z (List.mem_cons_of_mem _ hz)) fuel hq₂
          exact .after hread (.after hnext (hrest.bind _))

/-- **Lists**: a block of items needs all of its text if the items need all of theirs. -/
theorem needsAll_block (layout : Layout) (level : Nat) (xs : List α)
    (h : ∀ x ∈ xs, Restores read (write x) x) (hn : ∀ x ∈ xs, NeedsAll read (write x))
    (ho : ∀ x ∈ xs, Opens (write x)) :
    NeedsAll (readList read) (layout.block level '[' ']' (xs.map write)) := by
  intro s part hs hp
  rw [readList, trim_spaces_append hs]
  cases xs with
  | nil =>
    rcases Cut.cons_cases hp with rfl | ⟨q, rfl, hq⟩
    · exact ⟨.endInValue, rfl, rfl⟩
    rcases Cut.cons_cases hq with rfl | ⟨q₁, rfl, hq₁⟩
    · exact ⟨.endInList, rfl, rfl⟩
    · exact absurd hq₁ not_cut_nil
  | cons x xs =>
    have hnl := spaces_newline layout (level + 1)
    rw [List.map_cons, block_cons] at hp
    rcases hp.cons_cases with rfl | ⟨q, rfl, hq⟩
    · exact ⟨.endInValue, rfl, rfl⟩
    rw [trim_cons (by decide)]
    change BreaksOff (readListBody read q)
    rw [readListBody]
    rcases hq.append_cases with hspace | ⟨q₁, rfl, hq₁⟩
    · have hq' : Spaces q := fun c hc => hnl c (hspace.1.subset hc)
      rw [trim_spaces hq']
      exact ⟨.endInList, rfl, rfl⟩
    rw [trim_spaces_append hnl]
    by_cases hne : q₁ = []
    · subst hne
      exact ⟨.endInList, rfl, rfl⟩
    · have hopen := ((ho x (by simp)).append _).of_beginning hq₁.1 hne
      have hitems := readItems_cut hnl (spaces_newline layout level) h hn ho (q₁.length + 1) hq₁
      rw [hopen.trim]
      obtain ⟨c, t, rfl, hc⟩ := hopen
      rcases hc with rfl | rfl | rfl
      · exact hitems
      · exact hitems
      · exact hitems

end

theorem needsAll_writeMethods (layout : Layout) (ms : List String) :
    NeedsAll (readList readString) (writeMethods layout ms) :=
  needsAll_block layout 2 ms (fun s _ => restores_writeString s) (fun s _ => needsAll_writeString s)
    fun s _ => opens_writeString s

/-! ## Objects -/

/-- A member of which all text is needed, where the members `m` have been read. -/
def MemberNeedsAll (layout : Layout) (m : Members) (text : List Char) : Prop :=
  ∃ key value, text = layout.member key value ∧
    ∀ part, Cut part (layout.colon ++ value) → BreaksOff (readMember m key part)

/-- A colon and what follows it, cut short: there is no colon, or the value is cut. -/
theorem readColon_cut {layout : Layout} {value part : List Char} (hne : value ≠ [])
    (hp : Cut part (layout.colon ++ value)) :
    BreaksOff (readColon part) ∨
      ∃ w q, readColon part = .ok (w ++ q) ∧ Spaces w ∧ Cut q value := by
  cases layout with
  | compact =>
    rcases Cut.cons_cases hp with rfl | ⟨q, rfl, hq⟩
    · exact Or.inl ⟨.endInObject, rfl, rfl⟩
    · exact Or.inr ⟨[], q, rfl, spaces_nil, hq⟩
  | indented =>
    rcases Cut.cons_cases hp with rfl | ⟨q, rfl, hq⟩
    · exact Or.inl ⟨.endInObject, rfl, rfl⟩
    rcases Cut.cons_cases hq with rfl | ⟨q₁, rfl, hq₁⟩
    · exact Or.inr ⟨[], [], rfl, spaces_nil, cut_nil hne⟩
    · exact Or.inr ⟨[' '], q₁, rfl, by simp [Spaces, isSpace], hq₁⟩

/-- A member that is kept needs all of its text if its value does. -/
theorem Member.Written.needsAll {α : Type} {member : Member α} {text : List Char} {value : α}
    (h : member.Written text value) (hn : NeedsAll member.read text) (layout : Layout) {m : Members}
    (hm : member.get m = none) : MemberNeedsAll layout m (layout.member member.key text) := by
  refine ⟨member.key, text, rfl, fun part hp => ?_⟩
  rw [h.kept, readField_of_none member hm]
  rcases readColon_cut h.opens.ne_nil hp with hcolon | ⟨w, q, hcolon, hw, hq⟩
  · exact hcolon.bind _
  · exact .after hcolon ((hn w q hw hq).bind _)

/-- Members, written one after another, each of which needs all of its text where it stands. -/
inductive AllNeedAll (layout : Layout) : Members → List (List Char) → Prop
  | last {m m' : Members} {t : List Char} : Extends layout m t m' → MemberNeedsAll layout m t →
      AllNeedAll layout m [t]
  | more {m m' : Members} {t u : List Char} {ts : List (List Char)} : Extends layout m t m' →
      MemberNeedsAll layout m t → AllNeedAll layout m' (u :: ts) → AllNeedAll layout m (t :: u :: ts)

theorem AllNeedAll.opens {layout : Layout} {m : Members} {t : List Char} {ts : List (List Char)}
    (h : AllNeedAll layout m (t :: ts)) : Opens t := by
  cases h with
  | last h _ => exact h.opens
  | more h _ _ => exact h.opens

theorem allNeedAll_writeMembers (layout : Layout) (r : Route) :
    AllNeedAll layout {} (writeMembers layout r) := by
  obtain ⟨path, methods, name⟩ := r
  have hpath := Member.written_path path
  have hpath' := hpath.needsAll (needsAll_writeString path) layout (m := {}) rfl
  have hname : ∀ n, NeedsAll Member.name.read (writeString n) := fun n =>
    needsAll_some (opens_writeString n) (needsAll_writeString n)
  cases methods with
  | none =>
    cases name with
    | none => exact .last (hpath.extends layout rfl) hpath'
    | some n =>
      have h := Member.written_name n
      exact .more (hpath.extends layout rfl) hpath'
        (.last (h.extends layout rfl) (h.needsAll (hname n) layout rfl))
  | some ms =>
    have hmethods := Member.written_methods layout ms
    have hmethods' := hmethods.needsAll
      (needsAll_some (opens_writeMethods layout ms) (needsAll_writeMethods layout ms)) layout
      (m := { path := some path }) rfl
    cases name with
    | none =>
      exact .more (hpath.extends layout rfl) hpath' (.last (hmethods.extends layout rfl) hmethods')
    | some n =>
      have h := Member.written_name n
      exact .more (hpath.extends layout rfl) hpath' (.more (hmethods.extends layout rfl) hmethods'
        (.last (h.extends layout rfl) (h.needsAll (hname n) layout rfl)))

theorem Extends.readMembers {layout : Layout} {m m' : Members} {t : List Char}
    (h : Extends layout m t m') (fuel : Nat) (rest : List Char) :
    Artifact.readMembers (fuel + 1) m (t ++ rest) = afterMember fuel m' rest := by
  obtain ⟨key, value, rfl, hm⟩ := h
  have hkey := string_flatMap_writeChar key (layout.colon ++ (value ++ rest))
  simp only [Layout.member, writeString, List.cons_append, List.append_assoc, List.nil_append]
  rw [readMembers_quote, hkey]
  simp only [bind, Except.bind, hm]

theorem MemberNeedsAll.readMembers {layout : Layout} {m : Members} {t part : List Char}
    (h : MemberNeedsAll layout m t) (hp : Cut part t) (hne : part ≠ []) (fuel : Nat) :
    BreaksOff (Artifact.readMembers (fuel + 1) m part) := by
  obtain ⟨key, value, rfl, hm⟩ := h
  have htext : layout.member key value =
      '"' :: ((key.toList.flatMap writeChar ++ ['"']) ++ (layout.colon ++ value)) := by
    simp [Layout.member, writeString]
  rw [htext] at hp
  rcases hp.cons_cases with rfl | ⟨q, rfl, hq⟩
  · exact absurd rfl hne
  rw [readMembers_quote]
  rcases hq.append_cases with hkey | ⟨q₁, rfl, hq₁⟩
  · have hcut : BreaksOff (string q) := ⟨.endInString, string_cut hkey, rfl⟩
    exact hcut.bind _
  · have hkey := string_flatMap_writeChar key q₁
    rw [List.append_assoc, List.singleton_append]
    exact .after hkey ((hm q₁ hq₁).bind _)

theorem afterMember_spaces {w : List Char} (hw : Spaces w) (fuel : Nat) (m : Members) :
    BreaksOff (afterMember fuel m w) := by
  rw [afterMember, trim_spaces hw]
  exact ⟨.endInObject, rfl, rfl⟩

theorem afterMember_comma_spaces {w : List Char} (hw : Spaces w) (fuel : Nat) (m : Members) :
    BreaksOff (afterMember fuel m (',' :: w)) := by
  rw [afterMember, trim_cons (by decide)]
  simp only [trim_spaces hw]
  exact ⟨.endInValue, rfl, rfl⟩

/-- The members of an object cut short, as `readItems_cut`. -/
theorem readMembers_cut {layout : Layout} {m : Members} {t : List Char} {ts : List (List Char)}
    (h : AllNeedAll layout m (t :: ts)) {w v : List Char} (hw : Spaces w) (hv : Spaces v) (fuel : Nat)
    {part : List Char} (hne : part ≠ [])
    (hp : Cut part (t ++ (ts.flatMap (fun u => ',' :: (w ++ u)) ++ (v ++ ['\x7d'])))) :
    BreaksOff (readMembers fuel m part) := by
  generalize hall : t :: ts = all at h
  induction h generalizing t ts fuel part with
  | last h hn =>
    cases hall
    cases fuel with
    | zero => exact ⟨.endInValue, rfl, rfl⟩
    | succ fuel =>
      rcases hp.append_cases with ht | ⟨q, rfl, hq⟩
      · exact hn.readMembers ht hne fuel
      · rw [h.readMembers]
        exact afterMember_spaces (spaces_of_cut hv hq) fuel _
  | more h hn hrest ih =>
    cases hall
    cases fuel with
    | zero => exact ⟨.endInValue, rfl, rfl⟩
    | succ fuel =>
      rcases hp.append_cases with ht | ⟨q, rfl, hq⟩
      · exact hn.readMembers ht hne fuel
      rw [h.readMembers]
      simp only [List.flatMap_cons, List.cons_append, List.append_assoc] at hq
      rcases hq.cons_cases with rfl | ⟨q₁, rfl, hq₁⟩
      · exact afterMember_spaces spaces_nil fuel _
      rcases hq₁.append_cases with hspace | ⟨q₂, rfl, hq₂⟩
      · exact afterMember_comma_spaces (fun c hc => hw c (hspace.1.subset hc)) fuel _
      by_cases hne₂ : q₂ = []
      · subst hne₂
        rw [List.append_nil]
        exact afterMember_comma_spaces hw fuel _
      · have hopen := (hrest.opens.append _).of_beginning hq₂.1 hne₂
        have hread := ih fuel hne₂ hq₂ rfl
        obtain ⟨c, tail, rfl, hc⟩ := hopen
        have hbrace : c ≠ '\x7d' := by rcases hc with rfl | rfl | rfl <;> decide
        have hcomma : trim (',' :: (w ++ c :: tail)) = ',' :: (w ++ c :: tail) := trim_cons (by decide) _
        have hkey : trim (w ++ c :: tail) = c :: tail := by
          rw [trim_spaces_append hw]
          exact Opens.trim ⟨c, tail, rfl, hc⟩
        rw [afterMember_of_comma hcomma hkey hbrace]
        exact hread

/-! ## Routes and artifacts -/

theorem needsAll_writeRoute (layout : Layout) (r : Route) :
    NeedsAll readRoute (writeRoute layout r) := by
  intro s part hs hp
  have hall := allNeedAll_writeMembers layout r
  have hnl := spaces_newline layout 2
  rw [readRoute, trim_spaces_append hs]
  rw [writeRoute] at hp
  cases hms : writeMembers layout r with
  | nil => cases hms
  | cons t ts =>
    rw [hms] at hall hp
    rw [block_cons] at hp
    rcases hp.cons_cases with rfl | ⟨q, rfl, hq⟩
    · exact ⟨.endInValue, rfl, rfl⟩
    rw [trim_cons (by decide)]
    change BreaksOff (readObject q)
    rw [readObject]
    rcases hq.append_cases with hspace | ⟨q₁, rfl, hq₁⟩
    · have hq' : Spaces q := fun c hc => hnl c (hspace.1.subset hc)
      rw [trim_spaces hq']
      exact ⟨.endInObject, rfl, rfl⟩
    rw [trim_spaces_append hnl]
    by_cases hne : q₁ = []
    · subst hne
      exact ⟨.endInObject, rfl, rfl⟩
    · have hopen := (hall.opens.append _).of_beginning hq₁.1 hne
      have hmembers := readMembers_cut hall hnl (spaces_newline layout 1) (q₁.length + 1) hne hq₁
      rw [hopen.trim]
      obtain ⟨c, tail, rfl, hc⟩ := hopen
      rcases hc with rfl | rfl | rfl
      · exact hmembers.bind _
      · exact hmembers.bind _
      · exact hmembers.bind _

/-- **Cut short**: an artifact that lacks some of its end is found to end too early. -/
theorem readRoutes_cut {layout : Layout} {routes : List Route} {part : List Char}
    (h : Cut part (encodeChars layout routes)) : BreaksOff (readRoutes part) := by
  have hall := needsAll_block layout 0 routes (fun r _ => restores_writeRoute layout r)
    (fun r _ => needsAll_writeRoute layout r) (fun r _ => opens_writeRoute layout r)
  exact (hall.read_cut h).bind _

end Artifact

end RouteBook
