import EnvFiles.Proofs.Config.Holding
import EnvFiles.Proofs.Store.OnTree
import EnvFiles.Proofs.Tree.Named

/-!
# What is wrong with a file

A file that cannot be used has one fault, which its bytes and the readers decide: it is not text,
it does not follow its format, it asks for a value that does not exist, it is not a mapping, or its
settings are not valid. Such a file is refused by its path, and nothing else is. Only a project
file whose tools are no table is refused otherwise: what tells of it names no file.
-/

namespace EnvFiles

/-- What a reader says about a text is its own: it gives data, or says that the text is malformed
or has no value, and the data of a project file are a mapping. -/
structure Formats.Serve (formats : Formats) (path : Path) (text : Text) : Prop where
  fault : ∀ format fault, IsRead formats path text format (.error fault) →
    fault ≠ .tooLarge ∧ fault ≠ .tooDeep
  table : ∀ data, IsRead formats path text .toml (.ok data) → data.isMapping = true

/-- What is wrong with the text of a file. -/
inductive TextFault (formats : Formats) (path : Path) (text : Text) : ConfigFault → Prop
  | malformed {format : DataFormat} : IsRead formats path text format (.error .malformed) →
      TextFault formats path text (.malformed format)
  | noValue {format : DataFormat} {fault : ValueFault} :
      IsRead formats path text format (.error (.noValue fault)) →
        TextFault formats path text (.noValue fault)
  | notMapping {format : DataFormat} {data : Data} : format ≠ .toml →
      IsRead formats path text format (.ok data) → data.opened ≠ .null →
        data.opened.isMapping = false →
          TextFault formats path text (.notMapping data.opened.typeName)
  | invalid {data : Data} {issues : List Issue} : GivesSettings formats path text data →
      Config.ofData data = .error issues → TextFault formats path text (.invalid issues)

/-- A project file in which something stands for the tools that is no table. -/
def ToolsNotTable (formats : Formats) (path : Path) (text : Text) : Prop :=
  ∃ entries tools, IsRead formats path text .toml (.ok (.mapping entries)) ∧
    Data.lookup? "tool" entries = some tools ∧ tools.isMapping = false

/-- What is wrong with the file at a path: no file can have the path, its bytes are not text, or
there is something wrong with the text. -/
inductive FileFault (formats : Formats) (root : Node) (path : Path) : ConfigFault → Prop
  | nullInPath : path.hasNull = true → FileFault formats root path (.noValue .nullInPath)
  | undecodable : root.readText path = .error .undecodable →
      FileFault formats root path .undecodable
  | text {text : Text} {fault : ConfigFault} : root.readText path = .ok text →
      TextFault formats path text fault → FileFault formats root path fault

/-- A failure to use settings that tells of the file at a path, by its path. -/
def Failure.TellsOf (path : Path) (failure : Failure) : Prop :=
  (∃ fault, failure = .unusableConfig path fault) ∧ path.written <:+: failure.message

/-- What the file at a path comes to. -/
inductive FileComesTo (formats : Formats) (root : Node) (path : Path) :
    Except Failure LoadedConfig → Prop
  | none {text : Text} : root.readText path = .ok text → HoldsNone formats path text →
      FileComesTo formats root path (.ok { path := some path })
  | config {config : Config} : HoldsConfig formats root path config →
      FileComesTo formats root path (.ok { config, path := some path, found := true })
  | fault {fault : ConfigFault} : FileFault formats root path fault →
      FileComesTo formats root path (.error (.unusableConfig path fault))
  | untold {text : Text} : root.readText path = .ok text → ToolsNotTable formats path text →
      FileComesTo formats root path (.error .toolsNotTable)

/-- A file is loaded, or is refused by its path and for its fault; only where the tools are no
table another failure comes through. -/
structure ReportsByName (formats : Formats) (root : Node) (path : Path)
    (result : Except Failure LoadedConfig) : Prop where
  /-- What is loaded are settings that the file holds, or the defaults if it holds none. -/
  loaded : ∀ loaded, result = .ok loaded →
    (loaded = { path := some path } ∧
        ∃ text, root.readText path = .ok text ∧ HoldsNone formats path text) ∨
      ∃ config, loaded = { config, path := some path, found := true } ∧
        HoldsConfig formats root path config
  /-- It is refused for the fault that it has. -/
  fault_iff : ∀ fault, result = .error (.unusableConfig path fault) ↔
    FileFault formats root path fault
  /-- Every failure tells of the file, but one. -/
  told : ∀ failure, result = .error failure → failure.TellsOf path ∨ failure = .toolsNotTable
  /-- This one comes through exactly where the tools are no table. -/
  untold_iff : result = .error .toolsNotTable ↔
    ∃ text, root.readText path = .ok text ∧ ToolsNotTable formats path text

section Texts

variable {formats : Formats} {path : Path} {text : Text} {fault : ConfigFault}

/-- A refusal of settings names the file. -/
theorem Failure.tellsOf_unusableConfig (path : Path) (fault : ConfigFault) :
    (Failure.unusableConfig path fault).TellsOf path :=
  ⟨⟨fault, rfl⟩, (List.suffix_append ..).isInfix⟩

/-- A text with a fault is refused for it. -/
theorem TextFault.readSettings_eq (h : TextFault formats path text fault) :
    readSettings formats path text = .error (.unusableConfig path fault) := by
  cases h with
  | malformed hread => exact readSettings_of_rawSettings (hread.rawSettings_eq.trans rfl)
  | noValue hread => exact readSettings_of_rawSettings (hread.rawSettings_eq.trans rfl)
  | notMapping hformat hread hnull hdata =>
    apply readSettings_of_rawSettings
    rw [rawSettings_whole hformat hread, mappingOrNull_of_not_isMapping hnull hdata]
    rfl
  | invalid hgives hissues => rw [hgives.readSettings_eq, hissues]

/-- Tools that are no table are refused without the path. -/
theorem ToolsNotTable.readSettings_eq (h : ToolsNotTable formats path text) :
    readSettings formats path text = .error .toolsNotTable := by
  obtain ⟨entries, tools, hread, htools, htable⟩ := h
  apply readSettings_of_rawSettings
  rw [rawSettings_toml hread, projectSettings_noTable htools htable]

/-- A malformed text has a fault, unless its tools are no table. -/
theorem Malformed.fault_or_toolsNotTable (hserve : formats.Serve path text)
    (h : Malformed formats path text) :
    (∃ fault, TextFault formats path text fault) ∨ ToolsNotTable formats path text := by
  cases h with
  | @unread format fault hread =>
    obtain ⟨hlarge, hdeep⟩ := hserve.fault format fault hread
    cases fault with
    | malformed => exact .inl ⟨_, .malformed hread⟩
    | noValue fault => exact .inl ⟨_, .noValue hread⟩
    | tooLarge => exact absurd rfl hlarge
    | tooDeep => exact absurd rfl hdeep
  | notTable hread hdata => exact absurd (hserve.table _ hread) (by simp [hdata])
  | toolsNotTable hread htools hdata => exact .inr ⟨_, _, hread, htools, hdata⟩
  | notMapping hformat hread hnull hdata =>
    exact .inl ⟨_, .notMapping hformat hread hnull hdata⟩
  | invalid hgives hissues => exact .inl ⟨_, .invalid hgives hissues⟩

end Texts

section Files

variable {formats : Formats} {root : Node} {path : Path} {content : ByteArray}
  {fault : ConfigFault}

/-- A file is read if its path can be one and its bytes are text. -/
theorem readText_cases (h : root.lookup? path = some (.file content)) :
    path.hasNull = true ∨ root.readText path = .error .undecodable ∨
      ∃ text, root.readText path = .ok text := by
  cases hnull : path.hasNull with
  | true => exact .inl rfl
  | false =>
    obtain ⟨place, hwalk⟩ := Node.exists_walk_of_lookup? h
    rw [readText_of_walk hnull hwalk, Node.decode]
    cases content.utf8Decode? with
    | none => exact .inr (.inl rfl)
    | some characters => exact .inr (.inr ⟨_, rfl⟩)

/-- A file with a fault is refused for it. -/
theorem FileFault.loadConfigFile_eq (h : FileFault formats root path fault) :
    loadConfigFile formats root path = .error (.unusableConfig path fault) := by
  cases h with
  | nullInPath hnull =>
    have hread : root.readText path = .error (.noValue .nullInPath) := by
      rw [Node.readText, Node.checkPath, hnull]
      rfl
    rw [loadConfigFile, hread]
  | undecodable hread => rw [loadConfigFile, hread]
  | text hread hfault => rw [loadConfigFile_of_readText hread, hfault.readSettings_eq]

/-- What a file comes to is what is loaded of it. -/
theorem FileComesTo.loadConfigFile_eq {result : Except Failure LoadedConfig}
    (h : FileComesTo formats root path result) : loadConfigFile formats root path = result := by
  cases h with
  | none hread hnone => rw [loadConfigFile_of_readText hread, hnone.readSettings_eq]
  | config hconfig => exact hconfig.loadConfigFile_eq
  | fault hfault => exact hfault.loadConfigFile_eq
  | untold hread htools => rw [loadConfigFile_of_readText hread, htools.readSettings_eq]

/-- A file whose readers tell only what is their own comes to something. -/
theorem exists_fileComesTo
    (hserve : ∀ text, root.readText path = .ok text → formats.Serve path text)
    (hfile : root.lookup? path = some (.file content)) :
    ∃ result, FileComesTo formats root path result := by
  rcases readText_cases hfile with hnull | hread | ⟨text, hread⟩
  · exact ⟨_, .fault (.nullInPath hnull)⟩
  · exact ⟨_, .fault (.undecodable hread)⟩
  · rcases holdsNone_or_malformed formats path text with hnone | ⟨config, hconfig⟩ | hmalformed
    · exact ⟨_, .none hread hnone⟩
    · have hthere : root.hasFile path = true := by
        rw [Node.hasFile, hfile]
        rfl
      exact ⟨_, .config ⟨hthere, text, hread, hconfig⟩⟩
    · rcases hmalformed.fault_or_toolsNotTable (hserve text hread) with ⟨fault, hfault⟩ | htools
      · exact ⟨_, .fault (.text hread hfault)⟩
      · exact ⟨_, .untold hread htools⟩

end Files

/-- A file of settings is loaded or refused by its path. Whatever its name and its bytes, and
however the readers read it, one failure alone does not tell of the file: that of a project file
whose tools are no table. -/
theorem loadConfigFile_reports {formats : Formats} {root : Node} {path : Path}
    {content : ByteArray}
    (hserve : ∀ text, root.readText path = .ok text → formats.Serve path text)
    (hfile : root.lookup? path = some (.file content)) :
    ReportsByName formats root path (loadConfigFile formats root path) := by
  have hiff (result : Except Failure LoadedConfig) :
      loadConfigFile formats root path = result ↔ FileComesTo formats root path result := by
    constructor
    · rintro rfl
      obtain ⟨result, hresult⟩ := exists_fileComesTo hserve hfile
      rwa [hresult.loadConfigFile_eq]
    · exact FileComesTo.loadConfigFile_eq
  constructor
  case loaded =>
    intro loaded h
    rw [hiff] at h
    cases h with
    | none hread hnone => exact .inl ⟨rfl, _, hread, hnone⟩
    | config hconfig => exact .inr ⟨_, rfl, hconfig⟩
  case fault_iff =>
    intro fault
    rw [hiff]
    constructor
    · intro h
      cases h with
      | fault hfault => exact hfault
    · exact .fault
  case told =>
    intro failure h
    rw [hiff] at h
    cases h with
    | fault hfault => exact .inl (Failure.tellsOf_unusableConfig path _)
    | untold => exact .inr rfl
  case untold_iff =>
    rw [hiff]
    constructor
    · intro h
      cases h with
      | untold hread htools => exact ⟨_, hread, htools⟩
    · rintro ⟨text, hread, htools⟩
      exact .untold hread htools

section Fixed

/-- A folder with a project file of the given text. -/
def projectTree (text : Text) : Node := .folder [(projectFileName, .file (Node.encode text))]

/-- The path of the project file. -/
def projectFile : Path := [projectFileName]

/-- The project file is read. -/
theorem readText_projectTree (text : Text) :
    (projectTree text).readText projectFile = .ok (Text.unifyNewlines text) := by
  have hwalk : (projectTree text).walk projectFile =
      .ok (.taken projectFile (.file (Node.encode text))) := rfl
  rw [readText_of_walk rfl hwalk, Node.decode_encode]
  rfl

/-- A reader that finds a table in a project file serves. -/
theorem Formats.serve_projectFile {formats : Formats} {text : Text}
    (h : (formats.toml text).toOption.any Data.isMapping = true) :
    formats.Serve projectFile text := by
  cases hread : formats.toml text with
  | error fault =>
    rw [hread] at h
    cases h
  | ok data =>
    rw [hread] at h
    constructor
    · intro format fault hfault
      generalize hresult : Except.error fault = result at hfault
      cases hfault with
      | toml => exact nomatch hread.symm.trans hresult.symm
      | json hother => exact absurd rfl hother
      | yaml hother => exact absurd rfl hother
    · intro other hother
      generalize hresult : Except.ok other = result at hother
      cases hother
      cases hread.symm.trans hresult.symm
      exact h

/-- A failure is found in a function of what is computed. -/
theorem eq_error_of_map {ε α β : Type} {result : Except ε α} {function : α → β} {failure : ε}
    (h : result.map function = .error failure) : result = .error failure := by
  cases result with
  | error other =>
    cases h
    rfl
  | ok value => cases h

/-- A project file whose tool settings are a number. -/
def numberText : Text := "[tool]\nenv-vars-doctor = 3\n"

/-- It is refused by its path, because a section is expected. -/
theorem loadConfigFile_reports_number :
    (∀ text, (projectTree numberText).readText projectFile = .ok text →
      Formats.standard.Serve projectFile text) ∧
    (projectTree numberText).lookup? projectFile = some (.file (Node.encode numberText)) ∧
    FileFault .standard (projectTree numberText) projectFile
      (.invalid [⟨[], .sectionExpected⟩]) := by
  have hserve : ∀ text, (projectTree numberText).readText projectFile = .ok text →
      Formats.standard.Serve projectFile text := by
    intro text htext
    cases (readText_projectTree numberText).symm.trans htext
    exact Formats.serve_projectFile (by decide +kernel)
  have hfile : (projectTree numberText).lookup? projectFile =
      some (.file (Node.encode numberText)) := rfl
  have hrefused : (loadConfigFile .standard (projectTree numberText) projectFile).map
      LoadedConfig.found =
        .error (.unusableConfig projectFile (.invalid [⟨[], .sectionExpected⟩])) := by
    decide +kernel
  refine ⟨hserve, hfile, ?_⟩
  rw [← (loadConfigFile_reports hserve hfile).fault_iff]
  exact eq_error_of_map hrefused

/-- A project file whose tools are a number. -/
def toolsText : Text := "tool = 1\n"

/-- It can be read, and is refused by a failure that does not tell of it. -/
theorem loadConfigFile_untold :
    projectFile.name ∈ searchPlaces ∧
    (projectTree toolsText).lookup? projectFile = some (.file (Node.encode toolsText)) ∧
    (projectTree toolsText).readText projectFile = .ok toolsText ∧
    Formats.standard.Serve projectFile toolsText ∧
    loadConfigFile .standard (projectTree toolsText) projectFile = .error .toolsNotTable ∧
    ¬ Failure.toolsNotTable.TellsOf projectFile := by
  have hrefused : (loadConfigFile .standard (projectTree toolsText) projectFile).map
      LoadedConfig.found = .error .toolsNotTable := by decide +kernel
  refine ⟨by decide, rfl, readText_projectTree toolsText,
    Formats.serve_projectFile (by decide +kernel), eq_error_of_map hrefused, ?_⟩
  rintro ⟨⟨fault, h⟩, -⟩
  cases h

end Fixed
end EnvFiles
