import RouteBook.Proofs.Template.Offsets
import RouteBook.Proofs.Template.Segments

/-!
# What the scan of a template finds

A list of placeholders *decomposes* a template if they follow one another, each is the slice
between its offsets and reaches as far as it can, and no colon that could begin one is left between
them. Main statement (`scan_decomposes`): the scan finds such a list for every template, there is no
other, each segment gives at most one placeholder of it, and no slice that is taken on the way fails.
-/

namespace RouteBook.Template
open Text.Utf8

/-- `ps` are the placeholders that the template `t` consists of, together with the gaps. -/
structure Decomposes (t : String) (ps : List Placeholder) : Prop where
  /-- They follow one another without overlap. -/
  apart : ps.Pairwise fun p q => p.start < q.start ∧ p.stop ≤ q.start
  /-- They begin and end between two characters of the template. -/
  boundary : ∀ p ∈ ps, String.Pos.Raw.IsValid t ⟨p.start⟩ ∧ String.Pos.Raw.IsValid t ⟨p.stop⟩
  token : ∀ p ∈ ps, slice? t p.start p.stop = some p.token
  /-- A colon and the key, which has a character but no slash. -/
  shape : ∀ p ∈ ps, p.token.toList = ':' :: p.key.toList ∧ p.key ≠ "" ∧ '/' ∉ p.token.toList
  /-- They end with the template or before a slash. -/
  stop : ∀ p ∈ ps, p.stop = t.utf8ByteSize ∨ slice? t p.stop (p.stop + 1) = some "/"
  /-- With the gaps between them, they give the template back. -/
  whole : ∃ gs, Offsets.gapsFrom t 0 ps = some gs ∧
    String.join (alternate gs (ps.map Placeholder.token)) = t
  /-- A colon that lies in a gap is followed by a slash, if by anything. -/
  literal : ∀ a c b, t.toList = a ++ ':' :: c :: b →
    (∀ p ∈ ps, ¬ (p.start ≤ size a ∧ size a < p.stop)) → c = '/'

/-! ## Scans of a text -/

/-- The placeholder with the key, if its colon is at octet `start`. -/
def placed (start : Nat) (key : List Char) : Placeholder where
  start
  stop := start + size (':' :: key)
  token := String.ofList (':' :: key)
  key := String.ofList key

theorem locate_hole (start : Nat) (key : List Char) (ps : List Part) :
    locate start (.hole key :: ps) = placed start key :: locate (start + size (':' :: key)) ps := rfl

theorem locate_literal (start : Nat) (c : Char) (ps : List Part) :
    locate start (.literal c :: ps) = locate (start + size [c]) ps := rfl

/-- Nothing, or a slash with what follows it. -/
def EndsKey (b : List Char) : Prop := ∀ c ∈ b.head?, c = '/'

/-- The placeholder stands somewhere in the text `cs`, which begins at octet `base`. -/
def StandsIn (base : Nat) (cs : List Char) (p : Placeholder) : Prop :=
  ∃ a key b, cs = a ++ ((':' :: key) ++ b) ∧ key ≠ [] ∧ '/' ∉ key ∧ EndsKey b ∧
    p = placed (base + size a) key

/-- `ps` are the placeholders of the text `cs`, which begins at octet `base`. -/
structure Scans (base : Nat) (cs : List Char) (ps : List Placeholder) : Prop where
  apart : ps.Pairwise fun p q => p.stop ≤ q.start
  stands : ∀ p ∈ ps, StandsIn base cs p
  covered : ∀ a c b, cs = a ++ ':' :: c :: b → c ≠ '/' →
    ∃ p ∈ ps, p.start ≤ base + size a ∧ base + size a < p.stop

section
variable {base : Nat} {cs key rest : List Char} {c : Char} {p : Placeholder} {ps : List Placeholder}

theorem keyOf_append (hkey : '/' ∉ key) (hrest : EndsKey rest) : keyOf (key ++ rest) = key := by
  apply Text.takeWhile_append_of_head (Text.decide_ne_of_not_mem hkey)
  intro c hc
  simpa using hrest c hc

theorem endsKey_dropWhile (cs : List Char) : EndsKey (cs.dropWhile (· ≠ '/')) := by
  intro c hc
  have := List.head?_dropWhile_not (· ≠ '/') cs
  rw [Option.mem_def.1 hc] at this
  simpa using this

theorem keyOf_ne_nil (hc : c ≠ '/') (cs : List Char) : keyOf (c :: cs) ≠ [] := by
  simp [keyOf, hc]

theorem StandsIn.start_lt_stop (h : StandsIn base cs p) : base ≤ p.start ∧ p.start < p.stop := by
  obtain ⟨a, key, b, _, _, _, _, rfl⟩ := h
  have := size_pos (show ':' :: key ≠ [] by simp)
  simp only [placed]
  omega

theorem StandsIn.stop_le (h : StandsIn base cs p) : p.stop ≤ base + size cs := by
  obtain ⟨a, key, b, rfl, _, _, _, rfl⟩ := h
  simp only [placed, size_append]
  omega

theorem StandsIn.append (h : StandsIn (base + size key) cs p) : StandsIn base (key ++ cs) p := by
  obtain ⟨a, k, b, rfl, hk, hslash, hb, rfl⟩ := h
  refine ⟨key ++ a, k, b, by simp, hk, hslash, hb, ?_⟩
  rw [size_append, Nat.add_assoc]

theorem scans_nil : Scans base [] ps ↔ ps = [] := by
  constructor
  · intro h
    cases ps with
    | nil => rfl
    | cons p ps =>
      obtain ⟨a, key, b, he, _⟩ := h.stands p (by simp)
      simp at he
  · rintro rfl
    exact ⟨.nil, by simp, by simp⟩

/-- At a literal character no placeholder begins. -/
theorem scans_literal (hc : ¬ (c = ':' ∧ keyOf cs ≠ [])) :
    Scans base (c :: cs) ps ↔ Scans (base + size [c]) cs ps := by
  constructor
  · intro h
    refine ⟨h.apart, ?_, ?_⟩
    · intro p hp
      obtain ⟨a, key, b, he, hkey, hslash, hb, rfl⟩ := h.stands p hp
      cases a with
      | nil =>
        obtain ⟨rfl, rfl⟩ : c = ':' ∧ cs = key ++ b := by simpa using he
        exact absurd ⟨rfl, by rwa [keyOf_append hslash hb]⟩ hc
      | cons c' a =>
        obtain ⟨rfl, rfl⟩ : c = c' ∧ cs = a ++ ((':' :: key) ++ b) := by simpa using he
        refine ⟨a, key, b, rfl, hkey, hslash, hb, ?_⟩
        simp only [size_cons, size_nil]
        congr 1
        omega
    · rintro a c' b rfl hc'
      obtain ⟨p, hp, hstart, hstop⟩ := h.covered (c :: a) c' b rfl hc'
      refine ⟨p, hp, ?_⟩
      simp only [size_cons, size_nil] at hstart hstop ⊢
      omega
  · intro h
    refine ⟨h.apart, ?_, ?_⟩
    · intro p hp
      have hstands : StandsIn (base + size [c]) cs p := h.stands p hp
      exact hstands.append
    · rintro a c' b he hc'
      cases a with
      | nil =>
        obtain ⟨rfl, rfl⟩ : c = ':' ∧ cs = c' :: b := by simpa using he
        exact absurd ⟨rfl, keyOf_ne_nil hc' b⟩ hc
      | cons d a =>
        obtain ⟨rfl, rfl⟩ : c = d ∧ cs = a ++ ':' :: c' :: b := by simpa using he
        obtain ⟨p, hp, hstart, hstop⟩ := h.covered a c' b rfl hc'
        refine ⟨p, hp, ?_⟩
        simp only [size_cons, size_nil] at hstart hstop ⊢
        omega

/-- A placeholder that begins where a text does takes all of the key that it can. -/
theorem StandsIn.eq_placed (h : StandsIn base ((':' :: key) ++ rest) p) (hslash : '/' ∉ key)
    (hrest : EndsKey rest) (hp : p.start ≤ base) : p = placed base key := by
  obtain ⟨a, k, b, he, _, hkslash, hb, rfl⟩ := h
  have ha : a = [] := by
    by_contra hne
    have := size_pos hne
    simp only [placed] at hp
    omega
  subst ha
  have hkey : key ++ rest = k ++ b := by simpa using he
  rw [← keyOf_append hslash hrest, hkey, keyOf_append hkslash hb]
  rfl

/-- Where a placeholder can begin, one does. -/
theorem Scans.exists_placed (h : Scans base ((':' :: key) ++ rest) ps) (hkey : key ≠ [])
    (hslash : '/' ∉ key) (hrest : EndsKey rest) : ∃ later, ps = placed base key :: later := by
  obtain ⟨c, k, rfl⟩ := List.exists_cons_of_ne_nil hkey
  have hc : c ≠ '/' := by
    rintro rfl
    simp at hslash
  obtain ⟨p, hp, hstart, hstop⟩ := h.covered [] c (k ++ rest) rfl hc
  obtain rfl := (h.stands p hp).eq_placed hslash hrest hstart
  cases ps with
  | nil => simp at hp
  | cons q later =>
    rcases List.mem_cons.1 hp with rfl | hlater
    · exact ⟨later, rfl⟩
    · -- A placeholder before it would end before the text begins.
      have hq := (h.stands q (by simp)).start_lt_stop
      have hle := (List.pairwise_cons.1 h.apart).1 _ hlater
      simp only [placed] at hle
      omega

/-- The other placeholders come behind it. -/
theorem Scans.tail {later : List Placeholder}
    (h : Scans base ((':' :: key) ++ rest) (placed base key :: later)) :
    Scans (base + size (':' :: key)) rest later := by
  obtain ⟨hbehind, hapart⟩ := List.pairwise_cons.1 h.apart
  refine ⟨hapart, ?_, ?_⟩
  · intro p hp
    obtain ⟨a, k, b, he, hk, hkslash, hb, rfl⟩ := h.stands p (by simp [hp])
    have hle := hbehind _ hp
    simp only [placed] at hle
    obtain ⟨d, rfl, rfl⟩ := exists_append_of_size_le he (by omega)
    refine ⟨d, k, b, rfl, hk, hkslash, hb, ?_⟩
    rw [size_append, Nat.add_assoc]
  · rintro a c b rfl hc
    obtain ⟨p, hp, hstart, hstop⟩ := h.covered ((':' :: key) ++ a) c b (by simp) hc
    rw [size_append] at hstart hstop
    rcases List.mem_cons.1 hp with rfl | hp
    · simp only [placed] at hstop
      omega
    · exact ⟨p, hp, by omega, by omega⟩

theorem Scans.cons {later : List Placeholder} (h : Scans (base + size (':' :: key)) rest later)
    (hkey : key ≠ []) (hslash : '/' ∉ key) (hrest : EndsKey rest) :
    Scans base ((':' :: key) ++ rest) (placed base key :: later) := by
  have hstands : StandsIn base ((':' :: key) ++ rest) (placed base key) :=
    ⟨[], key, rest, rfl, hkey, hslash, hrest, rfl⟩
  refine ⟨List.pairwise_cons.2 ⟨fun p hp => (h.stands p hp).start_lt_stop.1, h.apart⟩, ?_, ?_⟩
  · intro p hp
    rcases List.mem_cons.1 hp with rfl | hp
    · exact hstands
    · exact (h.stands p hp).append
  · intro a c b he hc
    rcases Nat.lt_or_ge (size a) (size (':' :: key)) with hlt | hge
    · refine ⟨placed base key, by simp, ?_, ?_⟩ <;> simp only [placed] <;> omega
    · obtain ⟨d, rfl, rfl⟩ := exists_append_of_size_le he hge
      obtain ⟨p, hp, hstart, hstop⟩ := h.covered d c b rfl hc
      rw [size_append]
      exact ⟨p, by simp [hp], by omega, by omega⟩

theorem scans_hole (hkey : key ≠ []) (hslash : '/' ∉ key) (hrest : EndsKey rest) :
    Scans base ((':' :: key) ++ rest) ps ↔
      ∃ later, ps = placed base key :: later ∧ Scans (base + size (':' :: key)) rest later := by
  constructor
  · intro h
    obtain ⟨later, rfl⟩ := h.exists_placed hkey hslash hrest
    exact ⟨later, rfl, h.tail⟩
  · rintro ⟨later, rfl, h⟩
    exact h.cons hkey hslash hrest

/-- The scan of a text is what its parts say. -/
theorem scans_iff : Scans base cs ps ↔ ps = locate base (parts cs) := by
  fun_induction parts cs generalizing base ps with
  | case1 => exact scans_nil
  | case2 c cs hc ih =>
    obtain ⟨rfl, hkey⟩ := hc
    have hscan : Scans base ((':' :: keyOf cs) ++ cs.dropWhile (· ≠ '/')) ps ↔ _ :=
      scans_hole hkey (slash_not_mem_keyOf cs) (endsKey_dropWhile cs)
    rw [List.cons_append, keyOf_append_dropWhile] at hscan
    rw [hscan, locate_hole]
    simp only [ih]
    exact exists_eq_right
  | case3 c cs hc ih => rw [scans_literal hc, ih, locate_literal]

end

/-! ## The placeholders of a template -/

section
variable {t : String} {p : Placeholder} {ps : List Placeholder}

theorem StandsIn.token_eq (h : StandsIn 0 t.toList p) : slice? t p.start p.stop = some p.token := by
  obtain ⟨a, key, b, he, _, _, _, rfl⟩ := h
  rw [Nat.zero_add]
  exact slice?_of_append he

theorem StandsIn.boundary (h : StandsIn 0 t.toList p) :
    String.Pos.Raw.IsValid t ⟨p.start⟩ ∧ String.Pos.Raw.IsValid t ⟨p.stop⟩ := by
  obtain ⟨a, key, b, he, _, _, _, rfl⟩ := h
  rw [Nat.zero_add]
  refine ⟨isValid_iff.2 ⟨a, _, he, rfl⟩, isValid_iff.2 ⟨a ++ ':' :: key, b, by simp [he], ?_⟩⟩
  exact size_append _ _

theorem StandsIn.stop (h : StandsIn 0 t.toList p) :
    p.stop = t.utf8ByteSize ∨ slice? t p.stop (p.stop + 1) = some "/" := by
  obtain ⟨a, key, b, he, _, _, hb, rfl⟩ := h
  have hstop : (placed (0 + size a) key).stop = size (a ++ ':' :: key) := by
    rw [Nat.zero_add, size_append]
    rfl
  rw [hstop]
  cases b with
  | nil =>
    left
    rw [← size_toList, he, List.append_nil]
  | cons c b =>
    right
    obtain rfl : c = '/' := hb c rfl
    exact slice?_of_append (t := t) (a := a ++ ':' :: key) (m := ['/']) (b := b) (by simp [he])

theorem Decomposes.stands (h : Decomposes t ps) (hp : p ∈ ps) : StandsIn 0 t.toList p := by
  obtain ⟨a, b, he, hstart, hstop⟩ := slice?_eq_some_iff.1 (h.token p hp)
  obtain ⟨htoken, hkey, hslash⟩ := h.shape p hp
  rw [htoken] at he hstop hslash
  refine ⟨a, p.key.toList, b, he, by simpa using hkey, by simpa using hslash, ?_, ?_⟩
  · -- What follows is nothing if the placeholder ends the template, and else the slash at its end.
    rcases h.stop p hp with hend | hat
    · have hb : b = [] := by
        by_contra hne
        have := size_pos hne
        rw [← size_toList, he, ← hstop, ← hstart] at hend
        simp only [size_append] at hend
        omega
      simp [hb, EndsKey]
    · obtain ⟨a', b', he', hstart', _⟩ := slice?_eq_some_iff.1 hat
      have hsize : size (a ++ ':' :: p.key.toList) = size a' := by
        rw [size_append, hstart', hstart, hstop]
      have hb := (append_inj_of_size (by rw [← he', he, List.append_assoc]) hsize).2
      simp [hb, EndsKey]
  · have heq : p.token = String.ofList (':' :: p.key.toList) := by rw [← htoken, String.ofList_toList]
    obtain ⟨start, stop, token, key⟩ := p
    simp_all [placed]

theorem Decomposes.scans (h : Decomposes t ps) : Scans 0 t.toList ps := by
  refine ⟨h.apart.imp fun hpq => hpq.2, fun p hp => h.stands hp, ?_⟩
  intro a c b he hc
  by_contra hnone
  refine hc (h.literal a c b he ?_)
  intro p hp hin
  exact hnone ⟨p, hp, by omega, by omega⟩

theorem scans_placeholders (t : String) : Scans 0 t.toList (placeholders t) := scans_iff.2 rfl

theorem decomposes_placeholders (t : String) : Decomposes t (placeholders t) where
  apart := by
    have h := scans_placeholders t
    refine h.apart.imp_of_mem ?_
    intro p q hp _ hpq
    have := (h.stands p hp).start_lt_stop
    omega
  boundary p hp := ((scans_placeholders t).stands p hp).boundary
  token p hp := ((scans_placeholders t).stands p hp).token_eq
  shape p hp := by
    obtain ⟨a, key, b, _, hkey, hslash, _, rfl⟩ := (scans_placeholders t).stands p hp
    simp [placed, hkey, hslash]
  stop p hp := ((scans_placeholders t).stands p hp).stop
  whole := ⟨_, Offsets.gapsFrom_placeholders t, Offsets.join_gapTexts_tokens t⟩
  literal a c b he hnone := by
    by_contra hc
    obtain ⟨p, hp, hstart, hstop⟩ := (scans_placeholders t).covered a c b he hc
    exact hnone p hp ⟨by omega, by omega⟩

theorem decomposes_iff : Decomposes t ps ↔ ps = placeholders t := by
  constructor
  · intro h
    exact scans_iff.1 h.scans
  · rintro rfl
    exact decomposes_placeholders t

end

/-! ## The placeholders of a segment -/

theorem locate_append (start : Nat) (ps qs : List Part) :
    locate start (ps ++ qs) = locate start ps ++ locate (start + size (ps.flatMap Part.text)) qs := by
  induction ps generalizing start with
  | nil => rfl
  | cons p ps ih =>
    cases p with
    | literal c =>
      rw [List.cons_append, locate_literal, locate_literal, ih, List.flatMap_cons, size_append, Nat.add_assoc]
      rfl
    | hole key =>
      rw [List.cons_append, locate_hole, locate_hole, ih, List.flatMap_cons, size_append, Nat.add_assoc]
      rfl

theorem flatMap_text_literal (cs : List Char) : (cs.map Part.literal).flatMap Part.text = cs := by
  induction cs with
  | nil => rfl
  | cons c cs ih => simp [Part.text, ih]

theorem locate_map_literal (start : Nat) (cs : List Char) : locate start (cs.map .literal) = [] := by
  induction cs generalizing start with
  | nil => rfl
  | cons c cs ih => exact ih _

/-- The placeholder of a segment that begins at octet `start`. -/
def holeAt (start : Nat) (seg : List Char) : List Placeholder :=
  (hole? seg).toList.map fun (pre, key) => placed (start + size pre) key

theorem locate_segment (start : Nat) {seg : List Char} (hs : '/' ∉ seg) :
    locate start (parts seg) = holeAt start seg := by
  unfold holeAt
  cases h : hole? seg with
  | none =>
    rw [parts_of_no_hole h, locate_map_literal]
    rfl
  | some found =>
    obtain ⟨pre, key⟩ := found
    rw [parts_of_hole h hs, locate_append, locate_map_literal, flatMap_text_literal]
    rfl

/-- Those of the placeholders that begin from octet `first` on, within `length` octets. -/
def startingIn (first length : Nat) (ps : List Placeholder) : List Placeholder :=
  ps.filter fun p => first ≤ p.start ∧ p.start < first + length

theorem stands_of_mem_locate {base : Nat} {cs : List Char} {p : Placeholder}
    (h : p ∈ locate base (parts cs)) : StandsIn base cs p :=
  (scans_iff.2 rfl : Scans base cs _).stands p h

/-- The placeholders that begin in a segment are the one that the segment has, if it has one. -/
theorem startingIn_segment {t : String} {seg : List Char} {before after : List (List Char)}
    (h : t.toList.splitOn '/' = before ++ seg :: after) :
    startingIn (size (opened before)) (size seg) (placeholders t) =
      holeAt (size (opened before)) seg := by
  obtain ⟨hs, b, _, hparts⟩ := exists_rest_of_splitOn h
  unfold startingIn placeholders
  rw [hparts, locate_append, locate_append, flatMap_text_parts, flatMap_text_parts, Nat.zero_add,
    List.filter_append, List.filter_append]
  have hbefore : (locate 0 (parts (opened before))).filter (fun p =>
      size (opened before) ≤ p.start ∧ p.start < size (opened before) + size seg) = [] := by
    rw [List.filter_eq_nil_iff]
    intro p hp
    have hlt := (stands_of_mem_locate hp).start_lt_stop
    have hle := (stands_of_mem_locate hp).stop_le
    rw [decide_eq_true_eq]
    omega
  have hseg : (locate (size (opened before)) (parts seg)).filter (fun p =>
      size (opened before) ≤ p.start ∧ p.start < size (opened before) + size seg) =
        locate (size (opened before)) (parts seg) := by
    rw [List.filter_eq_self]
    intro p hp
    have hlt := (stands_of_mem_locate hp).start_lt_stop
    have hle := (stands_of_mem_locate hp).stop_le
    rw [decide_eq_true_eq]
    omega
  have hafter : (locate (size (opened before) + size seg) (parts b)).filter (fun p =>
      size (opened before) ≤ p.start ∧ p.start < size (opened before) + size seg) = [] := by
    rw [List.filter_eq_nil_iff]
    intro p hp
    have hlt := (stands_of_mem_locate hp).start_lt_stop
    rw [decide_eq_true_eq]
    omega
  rw [hbefore, hseg, hafter, locate_segment _ hs, List.nil_append, List.append_nil]

/-! ## Main statement -/

/-- **The scan decomposes every template**: it finds the only list of placeholders that the template
consists of together with the gaps; each segment has at most one of them, which begins at its first
colon; and in octets, no slice that the scan or a filling takes fails. -/
theorem scan_decomposes (t : String) :
    (∀ ps, Decomposes t ps ↔ ps = placeholders t) ∧
    (∀ before seg after, t.toList.splitOn '/' = before ++ seg :: after →
      (∀ pre key, hole? seg = some (pre, key) ↔ seg = pre ++ ':' :: key ∧ ':' ∉ pre ∧ key ≠ []) ∧
      startingIn (size (opened before)) (size seg) (placeholders t) =
        holeAt (size (opened before)) seg) ∧
    Offsets.scan t = some (placeholders t) ∧
    (∀ (σ : Type) (valueFor : σ → Placeholder → Except Refusal (String × σ)) (s : σ),
      (Offsets.substitute t valueFor s).isSome) ∧
    ∀ name values, Offsets.fill name t values = some (fillTemplate name t values) := by
  refine ⟨fun ps => decomposes_iff, ?_, Offsets.scan_eq t, ?_, fun name => Offsets.fill_eq name t⟩
  · intro before seg after h
    exact ⟨fun pre key => hole?_eq_some_iff, startingIn_segment h⟩
  · intro σ valueFor s
    rw [Offsets.substitute_eq]
    rfl

/-- A colon at the end of a segment is literal, and a later colon of a segment belongs to the key. -/
theorem scan_decomposes_colons :
    "/é:/b:x:y/:".toList.splitOn '/' = [[], ['é', ':']] ++ ['b', ':', 'x', ':', 'y'] :: [[':']] ∧
      startingIn 5 5 (placeholders "/é:/b:x:y/:") =
        [{ start := 6, stop := 10, token := ":x:y", key := "x:y" }] := by
  have hsplit : "/é:/b:x:y/:".toList.splitOn '/' =
      [[], ['é', ':']] ++ ['b', ':', 'x', ':', 'y'] :: [[':']] := by decide
  refine ⟨hsplit, ?_⟩
  exact ((scan_decomposes "/é:/b:x:y/:").2.1 _ _ _ hsplit).2

end RouteBook.Template
