import EnvFiles.Config.Search

/-!
# What a file holds

A file holds settings, holds none or is malformed. A project file holds settings in the table of
the tool, and without such a table it holds none. Any other file is wholly settings, unless there is
nothing in it. The reader of its format decides what is in it, except that a blank JSON text is not
given to the reader. Everything else is malformed, and so are settings that are not valid.
-/

namespace EnvFiles

/-- How a text is read: in which format, and what the reader of the format gives for it. -/
inductive IsRead (formats : Formats) (path : Path) (text : Text) :
    DataFormat → ReadResult Data → Prop
  | toml : path.name = projectFileName → IsRead formats path text .toml (formats.toml text)
  | json : path.name ≠ projectFileName → path.suffix = (".json" : Text) →
      text.all Text.isBlank = false → IsRead formats path text .json (formats.json text)
  | yaml : path.name ≠ projectFileName → path.suffix ≠ (".json" : Text) →
      IsRead formats path text .yaml (formats.yaml text)

/-- A text holds no settings. -/
inductive HoldsNone (formats : Formats) (path : Path) (text : Text) : Prop
  | noTools {entries : List (Data × Data)} :
      IsRead formats path text .toml (.ok (.mapping entries)) →
        Data.lookup? "tool" entries = none → HoldsNone formats path text
  | noTable {entries tools : List (Data × Data)} :
      IsRead formats path text .toml (.ok (.mapping entries)) →
        Data.lookup? "tool" entries = some (.mapping tools) →
          entryOrNull toolName tools = .null → HoldsNone formats path text
  | blank : path.name ≠ projectFileName → path.suffix = (".json" : Text) →
      text.all Text.isBlank = true → HoldsNone formats path text
  | nothing {format : DataFormat} {data : Data} : format ≠ .toml →
      IsRead formats path text format (.ok data) → data.opened = .null →
        HoldsNone formats path text

/-- A text gives data for settings. -/
inductive GivesSettings (formats : Formats) (path : Path) (text : Text) : Data → Prop
  | table {entries tools : List (Data × Data)} {data : Data} :
      IsRead formats path text .toml (.ok (.mapping entries)) →
        Data.lookup? "tool" entries = some (.mapping tools) →
          Data.lookup? toolName tools = some data → data ≠ .null →
            GivesSettings formats path text data
  | whole {format : DataFormat} {data : Data} {entries : List (Data × Data)} : format ≠ .toml →
      IsRead formats path text format (.ok data) → data.opened = .mapping entries →
        GivesSettings formats path text (.mapping entries)

/-- A text gives valid settings. -/
def GivesConfig (formats : Formats) (path : Path) (text : Text) (config : Config) : Prop :=
  ∃ data, GivesSettings formats path text data ∧ Config.ofData data = .ok config

/-- A text cannot be used for settings. -/
inductive Malformed (formats : Formats) (path : Path) (text : Text) : Prop
  | unread {format : DataFormat} {fault : ReadFault} :
      IsRead formats path text format (.error fault) → Malformed formats path text
  | notTable {data : Data} : IsRead formats path text .toml (.ok data) →
      data.isMapping = false → Malformed formats path text
  | toolsNotTable {entries : List (Data × Data)} {tools : Data} :
      IsRead formats path text .toml (.ok (.mapping entries)) →
        Data.lookup? "tool" entries = some tools → tools.isMapping = false →
          Malformed formats path text
  | notMapping {format : DataFormat} {data : Data} : format ≠ .toml →
      IsRead formats path text format (.ok data) → data.opened ≠ .null →
        data.opened.isMapping = false → Malformed formats path text
  | invalid {data : Data} {issues : List Issue} : GivesSettings formats path text data →
      Config.ofData data = .error issues → Malformed formats path text

/-- A path can be passed over: if it leads to a file, this holds no settings. -/
def PassedOver (formats : Formats) (root : Node) (path : Path) : Prop :=
  root.hasFile path = true → ∃ text, root.readText path = .ok text ∧ HoldsNone formats path text

/-- A path leads to a file that holds valid settings. -/
def HoldsConfig (formats : Formats) (root : Node) (path : Path) (config : Config) : Prop :=
  root.hasFile path = true ∧ ∃ text, root.readText path = .ok text ∧
    GivesConfig formats path text config

/-- A path leads to a file that is malformed or not even text. -/
def IsMalformed (formats : Formats) (root : Node) (path : Path) : Prop :=
  root.hasFile path = true ∧ ∀ text, root.readText path = .ok text → Malformed formats path text

/-- The settings in data of a format: a table among the tools of a project file, or all data. -/
def settingsIn (path : Path) (format : DataFormat) (data : Data) : Except Failure Data :=
  match format with
  | .toml => projectSettings data
  | .json | .yaml => (mappingOrNull data).mapError (Failure.unusableConfig path)

section Texts

variable {formats : Formats} {path : Path} {text : Text} {format : DataFormat} {data : Data}
  {result : ReadResult Data}

/-- A value that is a mapping has entries. -/
theorem exists_mapping_of_isMapping (h : data.isMapping = true) :
    ∃ entries, data = .mapping entries := by
  cases data <;> simp_all [Data.isMapping]

/-- A text is read in some format, or it is blank. -/
theorem isRead_or_blank (formats : Formats) (path : Path) (text : Text) :
    (∃ result, IsRead formats path text .toml result) ∨
    (∃ format result, format ≠ .toml ∧ IsRead formats path text format result) ∨
    path.name ≠ projectFileName ∧ path.suffix = (".json" : Text) ∧
      text.all Text.isBlank = true := by
  by_cases hname : path.name = projectFileName
  · exact .inl ⟨_, .toml hname⟩
  · by_cases hsuffix : path.suffix = (".json" : Text)
    · cases hblank : text.all Text.isBlank with
      | true => exact .inr (.inr ⟨hname, hsuffix, rfl⟩)
      | false => exact .inr (.inl ⟨.json, _, by simp, .json hname hsuffix hblank⟩)
    · exact .inr (.inl ⟨.yaml, _, by simp, .yaml hname hsuffix⟩)

/-- The settings of a file are those in what is read. -/
theorem IsRead.rawSettings_eq (h : IsRead formats path text format result) :
    rawSettings formats path text = located path format result >>= settingsIn path format := by
  cases h with
  | toml hname =>
    rw [rawSettings, if_pos hname]
    rfl
  | json hname hsuffix hblank =>
    rw [rawSettings, if_neg hname, settingsData, if_pos hsuffix, if_neg (by simp [hblank])]
    rfl
  | yaml hname hsuffix =>
    rw [rawSettings, if_neg hname, settingsData, if_neg hsuffix]
    rfl

/-- The settings of a project file are those of its data. -/
theorem rawSettings_toml (h : IsRead formats path text .toml (.ok data)) :
    rawSettings formats path text = projectSettings data := h.rawSettings_eq

/-- The settings of another file are its data. -/
theorem rawSettings_whole (hformat : format ≠ .toml)
    (h : IsRead formats path text format (.ok data)) :
    rawSettings formats path text =
      (mappingOrNull data).mapError (Failure.unusableConfig path) := by
  rw [h.rawSettings_eq]
  cases format with
  | toml => exact absurd rfl hformat
  | json => rfl
  | yaml => rfl

/-- A text that cannot be read has no settings. -/
theorem rawSettings_unread {fault : ReadFault}
    (h : IsRead formats path text format (.error fault)) :
    ∃ failure, rawSettings formats path text = .error failure := ⟨_, h.rawSettings_eq⟩

/-- The settings of a project file stand in the table of the tool among its tools. -/
theorem projectSettings_tools {entries tools : List (Data × Data)}
    (h : Data.lookup? "tool" entries = some (.mapping tools)) :
    projectSettings (.mapping entries) = .ok (entryOrNull toolName tools) := by
  rw [projectSettings, h]
  rfl

/-- A project file need not have tools. -/
theorem projectSettings_noTools {entries : List (Data × Data)}
    (h : Data.lookup? "tool" entries = none) :
    projectSettings (.mapping entries) = .ok .null := by
  rw [projectSettings, h]
  rfl

/-- The tools of a project file stand in a table. -/
theorem projectSettings_noTable {entries : List (Data × Data)} {tools : Data}
    (h : Data.lookup? "tool" entries = some tools) (htools : tools.isMapping = false) :
    projectSettings (.mapping entries) = .error .toolsNotTable := by
  rw [projectSettings, h]
  cases tools <;> simp_all [Data.isMapping]

/-- The data of a whole file are refused if they are neither nothing nor a mapping. -/
theorem mappingOrNull_of_not_isMapping (hnull : data.opened ≠ .null)
    (hdata : data.opened.isMapping = false) :
    mappingOrNull data = .error (.notMapping data.opened.typeName) := by
  rw [mappingOrNull]
  cases hopened : data.opened <;> simp_all [Data.isMapping]

/-- Data for settings are not nothing. -/
theorem GivesSettings.ne_null (h : GivesSettings formats path text data) : data ≠ .null := by
  cases h with
  | table _ _ _ hdata => exact hdata
  | whole => simp

/-- A text that holds no settings is read as nothing. -/
theorem HoldsNone.rawSettings_eq (h : HoldsNone formats path text) :
    rawSettings formats path text = .ok .null := by
  cases h with
  | noTools hread htools => rw [rawSettings_toml hread, projectSettings_noTools htools]
  | noTable hread htools htable =>
    rw [rawSettings_toml hread, projectSettings_tools htools, htable]
  | blank hname hsuffix hblank =>
    rw [rawSettings, if_neg hname, settingsData, if_pos hsuffix, if_pos hblank]
    rfl
  | nothing hformat hread hdata =>
    rw [rawSettings_whole hformat hread, mappingOrNull, hdata]
    rfl

/-- The data that a text gives for settings are read. -/
theorem GivesSettings.rawSettings_eq (h : GivesSettings formats path text data) :
    rawSettings formats path text = .ok data := by
  cases h with
  | table hread htools htable _ =>
    rw [rawSettings_toml hread, projectSettings_tools htools, entryOrNull, htable]
    rfl
  | whole hformat hread hdata =>
    rw [rawSettings_whole hformat hread, mappingOrNull, hdata]
    rfl

/-- Where no settings are held none are found. -/
theorem HoldsNone.readSettings_eq (h : HoldsNone formats path text) :
    readSettings formats path text = .ok { path := some path } := by
  rw [readSettings, h.rawSettings_eq]
  rfl

/-- Data for settings are checked. -/
theorem GivesSettings.readSettings_eq (h : GivesSettings formats path text data) :
    readSettings formats path text = match Config.ofData data with
      | .ok config => .ok { config, path := some path, found := true }
      | .error issues => .error (.unusableConfig path (.invalid issues)) := by
  have hdata := h.ne_null
  rw [readSettings, h.rawSettings_eq]
  cases data <;> first | exact absurd rfl hdata | rfl

/-- What has no settings to read cannot be loaded. -/
theorem readSettings_of_rawSettings {failure : Failure}
    (h : rawSettings formats path text = .error failure) :
    readSettings formats path text = .error failure := by
  rw [readSettings, h]
  rfl

/-- A malformed text cannot be loaded. -/
theorem Malformed.readSettings_eq (h : Malformed formats path text) :
    ∃ failure, readSettings formats path text = .error failure := by
  cases h with
  | unread hread =>
    obtain ⟨failure, hraw⟩ := rawSettings_unread hread
    exact ⟨failure, readSettings_of_rawSettings hraw⟩
  | notTable hread hdata =>
    rename_i data
    refine ⟨.toolsNotTable, readSettings_of_rawSettings ?_⟩
    rw [rawSettings_toml hread]
    cases data <;> simp_all [projectSettings, Data.isMapping]
  | toolsNotTable hread htools hdata =>
    refine ⟨.toolsNotTable, readSettings_of_rawSettings ?_⟩
    rw [rawSettings_toml hread, projectSettings_noTable htools hdata]
  | notMapping hformat hread hnull hdata =>
    rename_i format data
    refine ⟨.unusableConfig path (.notMapping data.opened.typeName),
      readSettings_of_rawSettings ?_⟩
    rw [rawSettings_whole hformat hread, mappingOrNull_of_not_isMapping hnull hdata]
    rfl
  | invalid hgives hissues =>
    rw [hgives.readSettings_eq, hissues]
    exact ⟨_, rfl⟩

/-- A text of which data are given for settings holds a configuration or is malformed. -/
theorem GivesSettings.config_or_malformed (h : GivesSettings formats path text data) :
    (∃ config, GivesConfig formats path text config) ∨ Malformed formats path text := by
  cases hcheck : Config.ofData data with
  | ok config => exact .inl ⟨config, data, h, hcheck⟩
  | error issues => exact .inr (.invalid h hcheck)

/-- A project file holds no settings, holds a configuration or is malformed. -/
theorem IsRead.toml_cases (h : IsRead formats path text .toml result) :
    HoldsNone formats path text ∨ (∃ config, GivesConfig formats path text config) ∨
      Malformed formats path text := by
  cases result with
  | error fault => exact .inr (.inr (.unread h))
  | ok data =>
    cases hdata : data.isMapping with
    | false => exact .inr (.inr (.notTable h hdata))
    | true =>
      obtain ⟨entries, rfl⟩ := exists_mapping_of_isMapping hdata
      cases htools : Data.lookup? "tool" entries with
      | none => exact .inl (.noTools h htools)
      | some found =>
        cases hfound : found.isMapping with
        | false => exact .inr (.inr (.toolsNotTable h htools hfound))
        | true =>
          obtain ⟨tools, rfl⟩ := exists_mapping_of_isMapping hfound
          by_cases htable : entryOrNull toolName tools = .null
          · exact .inl (.noTable h htools htable)
          · obtain ⟨settings, hsettings⟩ : ∃ settings,
                Data.lookup? toolName tools = some settings := by
              rw [entryOrNull] at htable
              cases hlookup : Data.lookup? toolName tools with
              | none => simp [hlookup] at htable
              | some settings => exact ⟨settings, rfl⟩
            rw [entryOrNull, hsettings] at htable
            exact .inr (GivesSettings.table h htools hsettings htable).config_or_malformed

/-- Another file holds no settings, holds a configuration or is malformed. -/
theorem IsRead.whole_cases (h : IsRead formats path text format result) (hformat : format ≠ .toml) :
    HoldsNone formats path text ∨ (∃ config, GivesConfig formats path text config) ∨
      Malformed formats path text := by
  cases result with
  | error fault => exact .inr (.inr (.unread h))
  | ok data =>
    cases hdata : data.opened.isMapping with
    | true =>
      obtain ⟨entries, hentries⟩ := exists_mapping_of_isMapping hdata
      exact .inr (GivesSettings.whole hformat h hentries).config_or_malformed
    | false =>
      by_cases hnull : data.opened = .null
      · exact .inl (.nothing hformat h hnull)
      · exact .inr (.inr (.notMapping hformat h hnull hdata))

/-- A text holds no settings, holds a configuration or is malformed. -/
theorem holdsNone_or_malformed (formats : Formats) (path : Path) (text : Text) :
    HoldsNone formats path text ∨ (∃ config, GivesConfig formats path text config) ∨
      Malformed formats path text := by
  rcases isRead_or_blank formats path text with
    ⟨result, hread⟩ | ⟨format, result, hformat, hread⟩ | ⟨hname, hsuffix, hblank⟩
  · exact hread.toml_cases
  · exact hread.whole_cases hformat
  · exact .inl (.blank hname hsuffix hblank)

end Texts

section Files

variable {formats : Formats} {root : Node} {path : Path} {config : Config}

/-- What can be read of a file decides what is loaded of it. -/
theorem loadConfigFile_of_readText {text : Text} (h : root.readText path = .ok text) :
    loadConfigFile formats root path = readSettings formats path text := by
  rw [loadConfigFile, h]

/-- A file that cannot be read cannot be loaded. -/
theorem loadConfigFile_of_unreadable {failure : Failure} (h : root.readText path = .error failure) :
    ∃ failure, loadConfigFile formats root path = .error failure := by
  rw [loadConfigFile, h]
  split
  · cases ‹Except.error failure = Except.ok _›
  · exact ⟨_, rfl⟩
  · exact ⟨_, rfl⟩
  · exact ⟨_, rfl⟩

/-- A configuration that a file holds is loaded. -/
theorem HoldsConfig.loadConfigFile_eq (h : HoldsConfig formats root path config) :
    loadConfigFile formats root path = .ok { config, path := some path, found := true } := by
  obtain ⟨-, text, htext, data, hgives, hconfig⟩ := h
  rw [loadConfigFile_of_readText htext, hgives.readSettings_eq, hconfig]

/-- A malformed file cannot be loaded. -/
theorem IsMalformed.loadConfigFile_eq (h : IsMalformed formats root path) :
    ∃ failure, loadConfigFile formats root path = .error failure := by
  obtain ⟨-, hmalformed⟩ := h
  cases hread : root.readText path with
  | error failure => exact loadConfigFile_of_unreadable hread
  | ok text =>
    rw [loadConfigFile_of_readText hread]
    exact (hmalformed text hread).readSettings_eq

/-- Every path can be passed over, leads to a configuration or leads to something malformed. -/
theorem passedOver_or_isMalformed (formats : Formats) (root : Node) (path : Path) :
    PassedOver formats root path ∨ (∃ config, HoldsConfig formats root path config) ∨
      IsMalformed formats root path := by
  by_cases hfile : root.hasFile path = true
  · cases hread : root.readText path with
    | error failure => exact .inr (.inr ⟨hfile, by simp [hread]⟩)
    | ok text =>
      rcases holdsNone_or_malformed formats path text with
        hnone | ⟨config, hconfig⟩ | hmalformed
      · exact .inl fun _ => ⟨text, hread, hnone⟩
      · exact .inr (.inl ⟨config, hfile, text, hread, hconfig⟩)
      · exact .inr (.inr ⟨hfile, by simpa [hread] using hmalformed⟩)
  · exact .inl fun hthere => absurd hthere hfile

end Files
end EnvFiles
