import RouteBook.Config.Reading
import RouteBook.Proofs.Toml.Lines
import RouteBook.Proofs.Toml.Sections

/-!
# What a configuration is decoded to

A configuration says some of its settings, in any order and with unknown keys beside them
(`Settings.WrittenIn`). What it does not say keeps its default, and the whole is then looked through for
defects, the file first. Main statement: `decoded_exact`.
-/

namespace RouteBook

/-! ## Letters of either case -/

namespace Text

/-- The characters are the same, or one letter in both cases. -/
def SameButCase (c d : Char) : Prop :=
  c = d ∨ ('A' ≤ c ∧ c ≤ 'Z' ∧ d.toNat = c.toNat + 32) ∨ ('A' ≤ d ∧ d ≤ 'Z' ∧ c.toNat = d.toNat + 32)

theorem toNat_toLower (c : Char) :
    c.toLower.toNat = if 'A' ≤ c ∧ c ≤ 'Z' then c.toNat + 32 else c.toNat := by
  unfold Char.toLower
  split
  · next h =>
    have hletter : 'A' ≤ c ∧ c ≤ 'Z' := h
    have hle : c.toNat ≤ 90 := hletter.2
    have hadd : (c.val + ('a'.val - 'A'.val)).toNat = c.val.toNat + 32 := by
      have hstep : ('a'.val - 'A'.val).toNat = 32 := by decide
      rw [UInt32.toNat_add, hstep]
      exact Nat.mod_eq_of_lt (Nat.lt_of_le_of_lt (Nat.add_le_add_right hle 32) (by decide))
    rw [if_pos hletter]
    exact hadd
  · next h =>
    have hletter : ¬ ('A' ≤ c ∧ c ≤ 'Z') := h
    rw [if_neg hletter]

theorem sameButCase_iff {c d : Char} : SameButCase c d ↔ c.toLower = d.toLower := by
  have hcapital : ∀ e : Char, ('A' ≤ e ∧ e ≤ 'Z') ↔ (65 ≤ e.toNat ∧ e.toNat ≤ 90) := fun e => Iff.rfl
  rw [← Char.toNat_inj, toNat_toLower, toNat_toLower, SameButCase, ← Char.toNat_inj]
  simp only [← and_assoc, hcapital]
  split_ifs <;> omega

/-- A text is another one up to case if it is that one with its capital letters made small. -/
theorem lowercase_eq_iff {s t : String} (ht : lowercase t = t) :
    lowercase s = t ↔ List.Forall₂ SameButCase s.toList t.toList := by
  have hmap : List.Forall₂ SameButCase s.toList t.toList ↔
      s.toList.map Char.toLower = t.toList.map Char.toLower := by
    have hsame : SameButCase = fun c d => c.toLower = d.toLower := by
      funext c d
      exact propext sameButCase_iff
    rw [hsame, ← List.forall₂_eq_eq_eq, List.forall₂_map_left_iff, List.forall₂_map_right_iff]
  rw [hmap, ← String.ofList_inj]
  change _ ↔ lowercase s = lowercase t
  rw [ht]

end Text

namespace Config
open Toml (Members Item Spells Writable statementsOf tableItems)

/-! ## Settings -/

/-- What a configuration can say. -/
structure Settings where
  file : Option String := none
  root : Option String := none
  addScriptName : Option Bool := none
  strictNames : Option Bool := none
  logLevel : Option String := none
  metricsEnabled : Option Bool := none

/-- A member, if its setting is said. -/
def setting (key : String) (item : Option Item) : Members :=
  item.toList.map fun item => (key, item)

/-- The keys of the document, but for the table. -/
def topKeys : List String := ["file", "root", "add_script_name", "strict_names"]

/-- The keys of the table. -/
def innerKeys : List String := ["log_level", "metrics_enabled"]

namespace Settings

/-- The configuration that the settings describe. -/
def config (settings : Settings) : Config where
  file := settings.file.getD "routes.json"
  root := settings.root
  addScriptName := settings.addScriptName.getD false
  strictNames := settings.strictNames.getD false
  observability := {
    logLevel := settings.logLevel.getD "info"
    metricsEnabled := settings.metricsEnabled.getD true }

/-- The members of the document for what is said. -/
def top (settings : Settings) : Members :=
  setting "file" (settings.file.map .string) ++ setting "root" (settings.root.map .string) ++
    setting "add_script_name" (settings.addScriptName.map .boolean) ++
    setting "strict_names" (settings.strictNames.map .boolean)

/-- The members of the table for what is said. -/
def inner (settings : Settings) : Members :=
  setting "log_level" (settings.logLevel.map .string) ++
    setting "metrics_enabled" (settings.metricsEnabled.map .boolean)

/-- The sections say these settings, in any order: all else in them has unknown keys. No key is given
twice in one place. -/
structure SaidBy (settings : Settings) (top : Members) (tables : List (String × Members)) : Prop where
  distinct : (top.map Prod.fst ++ tables.map Prod.fst).Nodup
  distinctInner : ∀ table ∈ tables, (table.2.map Prod.fst).Nodup
  topSaid : (top.filter fun member => member.1 ∈ topKeys).Perm settings.top
  noTable : ∀ table ∈ tables, table.1 ∉ topKeys
  innerSaid : (((tables.lookup "observability").getD []).filter fun member => member.1 ∈ innerKeys).Perm
    settings.inner
  noValue : "observability" ∉ top.map Prod.fst

/-- The text is a document of such sections. -/
def WrittenIn (settings : Settings) (text : String) : Prop :=
  ∃ top tables, settings.SaidBy top tables ∧ Spells (statementsOf top tables) text.toList

end Settings

/-- The level is one of those that are known, in any case. -/
def KnownLevel (level : String) : Prop :=
  ∃ known ∈ ["trace", "debug", "info", "warn", "error"],
    List.Forall₂ Text.SameButCase level.toList known.toList

/-! ## Looking settings up -/

theorem lookup_setting (key k : String) (item : Option Item) :
    (setting key item).lookup k = if k = key then item else none := by
  cases item with
  | none => simp [setting]
  | some item =>
    by_cases h : k = key
    · simp [setting, h]
    · have hb : (k == key) = false := by simpa using h
      simp [setting, List.lookup_cons, h, hb]

theorem lookup_tableItems (tables : List (String × Members)) (key : String) :
    (tableItems tables).lookup key = (tables.lookup key).map (.table .header) := by
  induction tables with
  | nil => rfl
  | cons table tables ih =>
    obtain ⟨name, inner⟩ := table
    have hcons : tableItems ((name, inner) :: tables) =
        (name, .table .header inner) :: tableItems tables := rfl
    rw [hcons, List.lookup_cons, List.lookup_cons, ih]
    cases key == name <;> rfl

/-- Members with different keys of which some are settings give these. -/
theorem lookup_of_filter {members settings : Members} {keys : List String} {key : String}
    (hdistinct : (members.map Prod.fst).Nodup)
    (h : (members.filter fun member => member.1 ∈ keys).Perm settings) (hkey : key ∈ keys) :
    members.lookup key = settings.lookup key := by
  have hfilter : (members.filter fun member => member.1 ∈ keys).lookup key = members.lookup key :=
    Pairs.lookup_filter (fun k => decide (k ∈ keys)) (by simpa using hkey)
  have hdistinct' : ((members.filter fun member => member.1 ∈ keys).map Prod.fst).Nodup :=
    (List.filter_sublist.map Prod.fst).nodup hdistinct
  rw [← hfilter, Pairs.lookup_perm h hdistinct' key]

theorem stringOr_map (default : String) (said : Option String) :
    stringOr default (said.map .string) = some (said.getD default) := by
  cases said <;> rfl

theorem booleanOr_map (default : Bool) (said : Option Bool) :
    booleanOr default (said.map .boolean) = some (said.getD default) := by
  cases said <;> rfl

theorem string?_map (said : Option String) : string? (said.map .string) = some said := by
  cases said <;> rfl

theorem observability?_table (inner : Option Members) :
    observability? (inner.map (.table .header)) =
      observabilityOf ((inner.getD []).lookup "log_level") ((inner.getD []).lookup "metrics_enabled") := by
  cases inner <;> rfl

/-- **Defaults**: what is said is taken, and all else keeps its default. -/
theorem Settings.SaidBy.ofMembers {settings : Settings} {top : Members} {tables : List (String × Members)}
    (h : settings.SaidBy top tables) : ofMembers (top ++ tableItems tables) = some settings.config := by
  have hdistinct : (top.map Prod.fst).Nodup := h.distinct.of_append_left
  have hinner : (((tables.lookup "observability").getD []).map Prod.fst).Nodup := by
    cases hl : tables.lookup "observability" with
    | none => simp
    | some inner => exact h.distinctInner _ (Pairs.mem_of_lookup hl)
  have htop : ∀ key ∈ topKeys, (top ++ tableItems tables).lookup key = settings.top.lookup key := by
    intro key hkey
    have hnone : tables.lookup key = none := by
      rw [Pairs.lookup_eq_none_iff]
      intro hmem
      obtain ⟨table, ht, rfl⟩ := List.mem_map.1 hmem
      exact h.noTable table ht hkey
    rw [List.lookup_append, lookup_tableItems, hnone, lookup_of_filter hdistinct h.topSaid hkey]
    simp
  have htable : (top ++ tableItems tables).lookup "observability" =
      (tables.lookup "observability").map (.table .header) := by
    rw [List.lookup_append, Pairs.lookup_eq_none_iff.2 h.noValue, lookup_tableItems]
    simp
  have hsaid : ∀ key ∈ innerKeys, ((tables.lookup "observability").getD []).lookup key =
      settings.inner.lookup key := fun key hkey => lookup_of_filter hinner h.innerSaid hkey
  unfold Config.ofMembers
  rw [htop "file" (by simp [topKeys]), htop "root" (by simp [topKeys]),
    htop "add_script_name" (by simp [topKeys]), htop "strict_names" (by simp [topKeys]), htable,
    observability?_table, hsaid "log_level" (by simp [innerKeys]),
    hsaid "metrics_enabled" (by simp [innerKeys])]
  simp [Settings.top, Settings.inner, List.lookup_append, lookup_setting, stringOr_map, booleanOr_map,
    string?_map, observabilityOf, Settings.config]

/-! ## Defects -/

theorem knownLevel_iff {level : String} : Text.lowercase level ∈ logLevels ↔ KnownLevel level := by
  have hsmall : ∀ known ∈ logLevels, Text.lowercase known = known := by decide
  constructor
  · intro h
    exact ⟨_, h, (Text.lowercase_eq_iff (hsmall _ h)).1 rfl⟩
  · rintro ⟨known, hknown, h⟩
    rw [(Text.lowercase_eq_iff (hsmall known hknown)).2 h]
    exact hknown

theorem defects_eq (config : Config) :
    (config.file = "" → KnownLevel config.observability.logLevel → config.defects = [.emptyFile]) ∧
    (config.file = "" → ¬ KnownLevel config.observability.logLevel →
      config.defects = [.emptyFile, .unknownLevel config.observability.logLevel]) ∧
    (config.file ≠ "" → KnownLevel config.observability.logLevel → config.defects = []) ∧
    (config.file ≠ "" → ¬ KnownLevel config.observability.logLevel →
      config.defects = [.unknownLevel config.observability.logLevel]) := by
  simp only [defects, ← knownLevel_iff, String.isEmpty_iff]
  refine ⟨?_, ?_, ?_, ?_⟩ <;> intro hfile hlevel <;> simp [hfile, hlevel]

theorem ofText_of_sound {text : String} {config : Config}
    (h : (Toml.document? text).bind ofMembers = some config) (hnone : config.defects = []) :
    ofText text = .ok config := by
  unfold ofText
  rw [h]
  simp only [hnone]

theorem ofText_of_defects {text : String} {config : Config}
    (h : (Toml.document? text).bind ofMembers = some config) {defects : List Defect}
    (hdefects : config.defects = defects) (hne : defects ≠ []) :
    ofText text = .error (.defective defects) := by
  unfold ofText
  rw [h]
  simp only [hdefects]

theorem Settings.WrittenIn.decoded {settings : Settings} {text : String} (h : settings.WrittenIn text) :
    (Toml.document? text).bind ofMembers = some settings.config := by
  obtain ⟨top, tables, hsaid, hspells⟩ := h
  rw [Toml.document?_of_spells hspells, Toml.build_statementsOf hsaid.distinct hsaid.distinctInner]
  exact hsaid.ofMembers

/-! ## Writing settings -/

theorem exists_spells_sections {top inner : Members} (name : String)
    (htop : ∀ member ∈ top, Writable member.2) (hinner : ∀ member ∈ inner, Writable member.2) :
    ∃ text, Spells (statementsOf top [(name, inner)]) text := by
  apply Toml.exists_spells
  intro stmt hstmt
  simp only [statementsOf, Toml.sectionOf, Toml.assignments, List.flatMap_cons, List.flatMap_nil,
    List.append_nil, List.mem_append, List.mem_cons, List.mem_map] at hstmt
  rcases hstmt with ⟨member, hm, rfl⟩ | rfl | ⟨member, hm, rfl⟩
  · exact Toml.exists_assignment member.1 (htop member hm)
  · obtain ⟨text, hkey⟩ := Toml.exists_keyText name
    exact ⟨_, .header hkey Toml.blanks_nil Toml.blanks_nil⟩
  · exact Toml.exists_assignment member.1 (hinner member hm)

theorem keys_setting (key : String) (item : Option Item) :
    ((setting key item).map Prod.fst).Sublist [key] := by
  cases item <;> simp [setting]

theorem writable_string {key : String} {said : Option String} :
    ∀ member ∈ setting key (said.map .string), Writable member.2 := by
  intro member hm
  cases said with
  | none => simp [setting] at hm
  | some s =>
    obtain rfl : member = (key, .string s) := by simpa [setting] using hm
    obtain ⟨text, h⟩ := Toml.exists_stringText s
    exact ⟨text, .string h⟩

theorem writable_boolean {key : String} {said : Option Bool} :
    ∀ member ∈ setting key (said.map .boolean), Writable member.2 := by
  intro member hm
  cases said with
  | none => simp [setting] at hm
  | some b =>
    obtain rfl : member = (key, .boolean b) := by simpa [setting] using hm
    exact ⟨_, .boolean b⟩

namespace Settings

theorem keys_top (settings : Settings) : (settings.top.map Prod.fst).Sublist topKeys := by
  simp only [top, List.map_append]
  exact (((keys_setting _ _).append (keys_setting _ _)).append (keys_setting _ _)).append
    (keys_setting _ _)

theorem keys_inner (settings : Settings) : (settings.inner.map Prod.fst).Sublist innerKeys := by
  simp only [inner, List.map_append]
  exact (keys_setting _ _).append (keys_setting _ _)

theorem writable_top (settings : Settings) : ∀ member ∈ settings.top, Writable member.2 := by
  simp only [top, List.mem_append]
  rintro member (((hm | hm) | hm) | hm)
  · exact writable_string member hm
  · exact writable_string member hm
  · exact writable_boolean member hm
  · exact writable_boolean member hm

theorem writable_inner (settings : Settings) : ∀ member ∈ settings.inner, Writable member.2 := by
  simp only [inner, List.mem_append]
  rintro member (hm | hm)
  · exact writable_string member hm
  · exact writable_boolean member hm

/-- Members in another order have the same keys, and are all found again among them. -/
theorem filter_of_perm {members settings : Members} {keys : List String} (h : members.Perm settings)
    (hkeys : (settings.map Prod.fst).Sublist keys) :
    (members.filter fun member => member.1 ∈ keys).Perm settings := by
  have hall : ∀ member ∈ members, decide (member.1 ∈ keys) = true := by
    intro member hm
    have hmem : member.1 ∈ settings.map Prod.fst := List.mem_map_of_mem (h.mem_iff.1 hm)
    simpa using hkeys.subset hmem
  rw [List.filter_eq_self.2 hall]
  exact h

/-- What is said can be written, and in any order. -/
theorem exists_written {settings : Settings} {top inner : Members} (htop : top.Perm settings.top)
    (hinner : inner.Perm settings.inner) :
    ∃ text : String, Spells (statementsOf top [("observability", inner)]) text.toList ∧
      settings.WrittenIn text := by
  obtain ⟨text, hspells⟩ := exists_spells_sections "observability"
    (fun member hm => settings.writable_top member (htop.mem_iff.1 hm))
    (fun member hm => settings.writable_inner member (hinner.mem_iff.1 hm))
  rw [← String.toList_ofList (l := text)] at hspells
  have hkeys : ∀ key ∈ top.map Prod.fst, key ∈ topKeys := by
    intro key hkey
    exact settings.keys_top.subset ((htop.map Prod.fst).mem_iff.1 hkey)
  have hnone : "observability" ∉ top.map Prod.fst := by
    intro hmem
    have := hkeys _ hmem
    simp [topKeys] at this
  have hdistinct : (top.map Prod.fst).Nodup :=
    (htop.map Prod.fst).nodup_iff.2 (settings.keys_top.nodup (by decide))
  have hdistinctInner : (inner.map Prod.fst).Nodup :=
    (hinner.map Prod.fst).nodup_iff.2 (settings.keys_inner.nodup (by decide))
  refine ⟨String.ofList text, hspells, top, _, ?_, hspells⟩
  exact {
    distinct := by
      rw [List.nodup_append]
      refine ⟨hdistinct, by simp, ?_⟩
      rintro key hkey _ hkey' rfl
      simp only [List.map_cons, List.map_nil, List.mem_singleton] at hkey'
      exact hnone (hkey' ▸ hkey)
    distinctInner := by simpa using hdistinctInner
    topSaid := filter_of_perm htop settings.keys_top
    noTable := by simp [topKeys]
    innerSaid := by simpa using filter_of_perm hinner settings.keys_inner
    noValue := hnone }

end Settings

/-- **Decoding**: settings can be written in any order. A text that says some settings, in whichever order,
spelling and layout and beside unknown keys, is taken for the configuration with these settings and the
defaults for all others, if its file is not empty and its level is known in any case. Else it is refused
for its defects, the file first, and the level as it is written. -/
theorem decoded_exact :
    (∀ (settings : Settings) (top inner : Members), top.Perm settings.top → inner.Perm settings.inner →
      ∃ text : String, Spells (statementsOf top [("observability", inner)]) text.toList ∧
        settings.WrittenIn text) ∧
    ∀ (settings : Settings) (text : String), settings.WrittenIn text →
      let config := settings.config
      let level := config.observability.logLevel
      (ofText text = .ok config ↔ config.file ≠ "" ∧ KnownLevel level) ∧
      (config.file = "" → KnownLevel level → ofText text = .error (.defective [.emptyFile])) ∧
      (config.file = "" → ¬ KnownLevel level →
        ofText text = .error (.defective [.emptyFile, .unknownLevel level])) ∧
      (config.file ≠ "" → ¬ KnownLevel level →
        ofText text = .error (.defective [.unknownLevel level])) := by
  refine ⟨fun settings top inner => Settings.exists_written, ?_⟩
  intro settings text h config level
  obtain ⟨hempty, hboth, hsound, hunknown⟩ := defects_eq config
  have hempty' := fun hfile hlevel => ofText_of_defects h.decoded (hempty hfile hlevel) (by simp)
  have hboth' := fun hfile hlevel => ofText_of_defects h.decoded (hboth hfile hlevel) (by simp)
  have hunknown' := fun hfile hlevel => ofText_of_defects h.decoded (hunknown hfile hlevel) (by simp)
  refine ⟨⟨?_, ?_⟩, hempty', hboth', hunknown'⟩
  · intro hok
    by_contra hbad
    by_cases hfile : config.file = ""
    · by_cases hlevel : KnownLevel level
      · cases hok.symm.trans (hempty' hfile hlevel)
      · cases hok.symm.trans (hboth' hfile hlevel)
    · have hlevel : ¬ KnownLevel level := fun hlevel => hbad ⟨hfile, hlevel⟩
      cases hok.symm.trans (hunknown' hfile hlevel)
  · rintro ⟨hfile, hlevel⟩
    exact ofText_of_sound h.decoded (hsound hfile hlevel)

/-- A configuration with a comment, an unknown key, a key between quotes, and a level with an escape. -/
def loudText : String :=
  "#\nextra = []\n\"strict_names\" = true # yes\r\nfile = \"\"\n\n" ++
    "[observability]\nlog_level = \"\\u004cOUD\""

/-- Neither the file nor the level makes sense, and both are told. -/
theorem decoded_exact_loud :
    ofText loudText = .error (.defective [.emptyFile, .unknownLevel "LOUD"]) := by
  have hone : Toml.Blanks [' '] := by simp [Toml.Blanks, Toml.isBlank]
  have hextra : Toml.StatementText (.assignment [] "extra" (.array []))
      ("extra".toList ++ ([' '] ++ '=' :: ([' '] ++ ['[', ']']))) :=
    .assignment (.bare (by decide) (List.all_eq_true.1 rfl)) hone hone (.other rfl fun _ _ => rfl)
  have hstrict : Toml.StatementText (.assignment [] "strict_names" (.boolean true))
      ('"' :: ("strict_names".toList ++ ['"']) ++ ([' '] ++ '=' :: ([' '] ++ "true".toList))) :=
    .assignment (.quoted (Toml.stringText_of_bare (by simp [Toml.isTextChar]))) hone hone (.boolean true)
  have hfile : Toml.StatementText (.assignment [] "file" (.string ""))
      ("file".toList ++ ([' '] ++ '=' :: ([' '] ++ '"' :: ("".toList ++ ['"'])))) :=
    .assignment (.bare (by decide) (List.all_eq_true.1 rfl)) hone hone
      (.string (Toml.stringText_of_bare (by simp [Toml.isTextChar])))
  have hheader : Toml.StatementText (.header [] "observability")
      ('[' :: ([] ++ ("observability".toList ++ ([] ++ [']'])))) :=
    .header (.bare (by decide) (List.all_eq_true.1 rfl)) Toml.blanks_nil Toml.blanks_nil
  have hloud : Toml.StringText "LOUD" "\"\\u004cOUD\"".toList := by
    refine ⟨[['\\', 'u', '0', '0', '4', 'c'], ['O'], ['U'], ['D']], ?_, by decide⟩
    exact .cons (.four rfl (List.all_eq_true.1 rfl) rfl) (.cons (.bare rfl (by decide) (by decide))
      (.cons (.bare rfl (by decide) (by decide)) (.cons (.bare rfl (by decide) (by decide)) .nil)))
  have hlevel : Toml.StatementText (.assignment [] "log_level" (.string "LOUD"))
      ("log_level".toList ++ ([' '] ++ '=' :: ([' '] ++ "\"\\u004cOUD\"".toList))) :=
    .assignment (.bare (by decide) (List.all_eq_true.1 rfl)) hone hone (.string hloud)
  have hlast : Toml.LineEnd [] [] := .last Toml.blanks_nil (Or.inl rfl)
  have hend : ∀ rest, Toml.LineEnd ([] ++ ([] ++ (['\n'] ++ rest))) rest := fun rest =>
    .broken Toml.blanks_nil (Or.inl rfl) (Or.inl rfl) rest
  have hyes : ∀ rest, Toml.LineEnd ([' '] ++ ("# yes".toList ++ (['\r', '\n'] ++ rest))) rest :=
    fun rest => .broken hone (Or.inr ⟨" yes".toList, List.all_eq_true.1 rfl, rfl⟩) (Or.inr rfl) rest
  have htable := Spells.line Toml.blanks_nil hlevel hlast (.nil Toml.blanks_nil (Or.inl rfl))
  have hlines := Spells.idle Toml.blanks_nil (Or.inr ⟨"".toList, List.all_eq_true.1 rfl, rfl⟩) (Or.inl rfl)
    (.line Toml.blanks_nil hextra (hend _) (.line Toml.blanks_nil hstrict (hyes _)
      (.line Toml.blanks_nil hfile (hend _) (.idle Toml.blanks_nil (Or.inl rfl) (Or.inl rfl)
        (.line Toml.blanks_nil hheader (hend _) htable)))))
  obtain ⟨text, htext, hspells⟩ : ∃ text, text = loudText.toList ∧ Spells _ text :=
    ⟨_, by decide +kernel, hlines⟩
  have hsaid : Settings.SaidBy { file := some "", strictNames := some true, logLevel := some "LOUD" }
      [("extra", .array []), ("strict_names", .boolean true), ("file", .string "")]
      [("observability", [("log_level", .string "LOUD")])] := {
    distinct := by simp
    distinctInner := by simp
    topSaid := by simpa [topKeys, Settings.top, setting] using List.Perm.swap _ _ []
    noTable := by simp [topKeys]
    innerSaid := by simp [innerKeys, Settings.inner, setting]
    noValue := by simp }
  obtain ⟨_, _, hboth, _⟩ := decoded_exact.2 _ loudText ⟨_, _, hsaid, htext ▸ hspells⟩
  have hunknown : ¬ KnownLevel "LOUD" := fun h => absurd (knownLevel_iff.2 h) (by decide)
  exact hboth rfl hunknown

end Config

end RouteBook
