import EnvFiles.Proofs.Config.Spelling

/-!
# Configurations in other spellings

The fields of a configuration can be respelled one by one, in every section and in every reference
to a plugin, and it stands for the same settings or is refused for the same issues. What it leaves
out has its default, whatever else it gives.
-/

namespace EnvFiles

namespace Kind

/-- A section whose fields hold no sections. -/
def plain (names : List Text) : Kind := ofSection (names.map fun name => (name, value))

/-- The settings of workspaces. -/
def workspaces : Kind := plain ["detection", "patterns", "sourceDir"]

/-- The settings of a project. -/
def project : Kind :=
  ofSection [("rootEnvExample", value), ("rootEnvLocal", value), ("workspaces", workspaces)]

/-- The settings of scanning. -/
def scanning : Kind := plain ["extensions", "skipDirs", "ignoreMissing", "ignoreUnused"]

/-- The settings of continuous integration. The platforms are no fields. -/
def ci : Kind := plain ["skipEnvVar", "skipDirectives", "detection"]

/-- A reference to a plugin. The options are no fields. -/
def plugin : Kind := plain ["name", "options"]

/-- The section that names plugins. -/
def plugins : Kind := ofSection [("external", ofItems plugin)]

/-- A configuration. -/
def config : Kind := ofSection [("version", value), ("project", project), ("scanning", scanning),
  ("ci", ci), ("plugins", plugins)]

end Kind

section Sections

open Kind

variable {α : Type} {data data' : Data} {entries entries' : List (Data × Data)}

/-- A field that holds no section is read alike. -/
theorem SameSection.readValue {fields : List (Text × Kind)} (joined : Text)
    (h : SameSection fields data data' entries entries')
    (hfield : (joined, value) ∈ fields) (fallback : α) (read : Data → Checked α) :
    Agree (SectionPlace fields data data') (EnvFiles.readField joined fallback read entries)
      (EnvFiles.readField joined fallback read entries') :=
  h.readField joined hfield (readAlike_value read) fallback

/-- The settings of workspaces are read alike. -/
theorem readAlike_workspaces : workspaces.ReadAlike WorkspaceSettings.read := by
  refine readAlike_readSection (by decide) fun data data' entries entries' h => ?_
  have hdetection := h.readValue "detection" (.head _) .auto
    (readChoice .auto .fixedChoice Detection.ofWord?)
  have hpatterns := h.readValue "patterns" (.tail _ (.head _)) [] (readList readText)
  have hsource := h.readValue "sourceDir" (.tail _ (.tail _ (.head _)))
    ({} : WorkspaceSettings).sourceDir readText
  exact (hdetection.both hpatterns Prod.mk).both hsource fun first sourceDir =>
    ({ detection := first.1, patterns := first.2, sourceDir } : WorkspaceSettings)

/-- The settings of a project are read alike. -/
theorem readAlike_project : project.ReadAlike ProjectSettings.read := by
  refine readAlike_readSection (by decide) fun data data' entries entries' h => ?_
  have hexample := h.readValue "rootEnvExample" (.head _)
    ({} : ProjectSettings).exampleName readText
  have hvalues := h.readValue "rootEnvLocal" (.tail _ (.head _))
    ({} : ProjectSettings).valuesName readText
  have hworkspaces := h.readField "workspaces" (.tail _ (.tail _ (.head _)))
    readAlike_workspaces {}
  exact (hexample.both hvalues Prod.mk).both hworkspaces fun first workspaces =>
    ({ exampleName := first.1, valuesName := first.2, workspaces } : ProjectSettings)

/-- The settings of scanning are read alike. -/
theorem readAlike_scanning : scanning.ReadAlike ScanSettings.read := by
  refine readAlike_readSection (by decide) fun data data' entries entries' h => ?_
  have hextensions := h.readValue "extensions" (.head _)
    ({} : ScanSettings).extensions (readList readText)
  have hdirs := h.readValue "skipDirs" (.tail _ (.head _))
    ({} : ScanSettings).skipDirs (readList readText)
  have hmissing := h.readValue "ignoreMissing" (.tail _ (.tail _ (.head _)))
    [] (readList readText)
  have hunused := h.readValue "ignoreUnused" (.tail _ (.tail _ (.tail _ (.head _))))
    [] (readList readText)
  exact ((hextensions.both hdirs Prod.mk).both hmissing Prod.mk).both hunused
    fun first ignoreUnused =>
      ({ extensions := first.1.1, skipDirs := first.1.2, ignoreMissing := first.2,
         ignoreUnused } : ScanSettings)

/-- The settings of continuous integration are read alike. -/
theorem readAlike_ci : ci.ReadAlike CiSettings.read := by
  refine readAlike_readSection (by decide) fun data data' entries entries' h => ?_
  have hvariable := h.readValue "skipEnvVar" (.head _)
    ({} : CiSettings).skipVariable readText
  have hdirectives := h.readValue "skipDirectives" (.tail _ (.head _))
    ({} : CiSettings).skipDirectives (readList readText)
  have hdetection := h.readValue "detection" (.tail _ (.tail _ (.head _)))
    ({} : CiSettings).detection (readTable (readList readText))
  exact (hvariable.both hdirectives Prod.mk).both hdetection fun first detection =>
    ({ skipVariable := first.1, skipDirectives := first.2, detection } : CiSettings)

/-- A reference to a plugin is read alike. -/
theorem readAlike_plugin : plugin.ReadAlike PluginReference.read := by
  refine readAlike_readSection (by decide) fun data data' entries entries' h => ?_
  have hname := h.readRequired "name" (.head _) (readAlike_value readText) []
  have hoptions := h.readValue "options" (.tail _ (.head _)) []
    (readTable Checked.fine)
  exact hname.both hoptions PluginReference.mk

/-- The section that names plugins is read alike. -/
theorem readAlike_plugins : plugins.ReadAlike readPlugins :=
  readAlike_readSection (by decide) fun _ _ _ _ h =>
    h.readField "external" (.head _) (readAlike_readList readAlike_plugin) []

/-- A configuration is read alike. -/
theorem readAlike_config : config.ReadAlike Config.check := by
  refine readAlike_readSection (by decide) fun data data' entries entries' h => ?_
  have hversion := h.readValue "version" (.head _) () readVersion
  have hproject := h.readField "project" (.tail _ (.head _)) readAlike_project {}
  have hscanning := h.readField "scanning" (.tail _ (.tail _ (.head _)))
    readAlike_scanning {}
  have hci := h.readField "ci" (.tail _ (.tail _ (.tail _ (.head _)))) readAlike_ci {}
  have hplugins := h.readField "plugins"
    (.tail _ (.tail _ (.tail _ (.tail _ (.head _))))) readAlike_plugins []
  exact (((hversion.both hproject Prod.mk).both hscanning Prod.mk).both hci Prod.mk).both hplugins
    fun first plugins =>
      ({ project := first.1.1.2, scanning := first.1.2, ci := first.2, plugins } : Config)

end Sections

/-- Two configurations that come to the same: to the same settings, or to the same problems at the
same places, in order. -/
inductive SameReading (same : List Text → List Text → Prop) :
    Except (List Issue) Config → Except (List Issue) Config → Prop
  | settings (config : Config) : SameReading same (.ok config) (.ok config)
  | issues {issues issues' : List Issue} : List.Forall₂ (SameIssue same) issues issues' →
      SameReading same (.error issues) (.error issues')

/-- Readings that agree come to the same. -/
theorem Agree.sameReading {same : List Text → List Text → Prop} {checked checked' : Checked Config}
    (h : Agree same checked checked') : SameReading same checked.result checked'.result := by
  obtain ⟨config, issues⟩ := checked
  obtain ⟨config', issues'⟩ := checked'
  obtain ⟨rfl, hissues⟩ := h
  cases hissues with
  | nil => exact .settings _
  | cons hfirst hrest => exact .issues (.cons hfirst hrest)

/-- Data give a field that a path of fields and indexes leads to, each field under any spelling. -/
inductive Gives : Data → List Text → Prop
  | here {data : Data} : Gives data []
  | field {data value : Data} {entries : List (Data × Data)} {key : Data} {joined : Text}
      {rest : List Text} : data.opened = .mapping entries → (key, value) ∈ entries →
        Spells joined key → Gives value rest → Gives data (joined :: rest)
  | item {data value : Data} {items : List Data} {index : Nat} {rest : List Text} :
      data.opened = .list items → items[index]? = some value → Gives value rest →
        Gives data (Text.ofNat index :: rest)

/-- What a section gives at a path is below one of its entries. -/
theorem Gives.of_mapping {data : Data} {joined : Text} {rest : List Text}
    (h : Gives data (joined :: rest)) {entries : List (Data × Data)}
    (hopened : data.opened = .mapping entries) :
    ∃ key value, (key, value) ∈ entries ∧ Spells joined key ∧ Gives value rest := by
  generalize hpath : joined :: rest = path at h
  cases h with
  | here => cases hpath
  | field hopened' hmem hspells hgives =>
    cases hpath
    cases hopened.symm.trans hopened'
    exact ⟨_, _, hmem, hspells, hgives⟩
  | item hopened' _ _ => cases hopened.symm.trans hopened'

/-- The settings of a configuration, with the options of each plugin. -/
inductive Setting
  | rootEnvExample
  | rootEnvLocal
  | detection
  | patterns
  | sourceDir
  | extensions
  | skipDirs
  | ignoreMissing
  | ignoreUnused
  | skipEnvVar
  | skipDirectives
  | platforms
  | external
  | options (index : Nat)

namespace Setting

/-- Where data give a setting. -/
def path : Setting → List Text
  | .rootEnvExample => ["project", "rootEnvExample"]
  | .rootEnvLocal => ["project", "rootEnvLocal"]
  | .detection => ["project", "workspaces", "detection"]
  | .patterns => ["project", "workspaces", "patterns"]
  | .sourceDir => ["project", "workspaces", "sourceDir"]
  | .extensions => ["scanning", "extensions"]
  | .skipDirs => ["scanning", "skipDirs"]
  | .ignoreMissing => ["scanning", "ignoreMissing"]
  | .ignoreUnused => ["scanning", "ignoreUnused"]
  | .skipEnvVar => ["ci", "skipEnvVar"]
  | .skipDirectives => ["ci", "skipDirectives"]
  | .platforms => ["ci", "detection"]
  | .external => ["plugins", "external"]
  | .options index => ["plugins", "external", Text.ofNat index, "options"]

/-- The values of a setting. -/
abbrev Value : Setting → Type
  | .rootEnvExample | .rootEnvLocal | .sourceDir | .skipEnvVar => Text
  | .detection => Detection
  | .patterns | .extensions | .skipDirs | .ignoreMissing | .ignoreUnused | .skipDirectives =>
    List Text
  | .platforms => Table Text (List Text)
  | .external => List PluginReference
  | .options _ => Table Text Data

/-- The value of a setting in a configuration. A plugin that is not named has no options. -/
def get : (setting : Setting) → Config → setting.Value
  | .rootEnvExample, config => config.project.exampleName
  | .rootEnvLocal, config => config.project.valuesName
  | .detection, config => config.project.workspaces.detection
  | .patterns, config => config.project.workspaces.patterns
  | .sourceDir, config => config.project.workspaces.sourceDir
  | .extensions, config => config.scanning.extensions
  | .skipDirs, config => config.scanning.skipDirs
  | .ignoreMissing, config => config.scanning.ignoreMissing
  | .ignoreUnused, config => config.scanning.ignoreUnused
  | .skipEnvVar, config => config.ci.skipVariable
  | .skipDirectives, config => config.ci.skipDirectives
  | .platforms, config => config.ci.detection
  | .external, config => config.plugins
  | .options index, config => (config.plugins[index]?.map PluginReference.options).getD []

end Setting

section Defaults

variable {α β : Type} {data : Data} {entries : List (Data × Data)} {joined : Text}
  {rest : List Text} {read : Data → Checked α} {get : α → β} {value : β} {fallback : α}

/-- A reader leaves a value when data do not give the field at a path. -/
def Leaves (read : Data → Checked α) (path : List Text) (get : α → β) (value : β) : Prop :=
  ∀ data, ¬ Gives data path → get (read data).1 = value

/-- Data always give themselves. -/
theorem leaves_nil (read : Data → Checked α) (get : α → β) (value : β) :
    Leaves read [] get value :=
  fun _ h => absurd .here h

/-- A section leaves what it takes from a field that leaves it, if its default has it. -/
theorem leaves_readSection {γ : Type} {body : List (Data × Data) → Checked α}
    {read : Data → Checked γ} (take : γ → β) {fallback : γ} {whole : α}
    (hbody : ∀ entries, get (body entries).1 = take (readField joined fallback read entries).1)
    (h : Leaves read rest take value) (hfallback : take fallback = value)
    (hwhole : get whole = value) :
    Leaves (readSection whole body) (joined :: rest) get value := by
  intro data hno
  rw [readSection]
  split
  · rename_i entries hopened
    rw [hbody, readField]
    cases hfound : field? (.of joined) entries with
    | none => exact hfallback
    | some found =>
      obtain ⟨hspelling, hmem⟩ := mem_of_field? hfound
      exact h _ fun hgives => hno (.field hopened hmem ⟨_, hspelling, rfl⟩ hgives)
  · exact hwhole

/-- A section leaves the default of a field that is the value itself. -/
theorem leaves_field {body : List (Data × Data) → Checked α} {read : Data → Checked β}
    {fallback : β} {whole : α}
    (hbody : ∀ entries, get (body entries).1 = (readField joined fallback read entries).1)
    (hwhole : get whole = fallback) : Leaves (readSection whole body) [joined] get fallback :=
  leaves_readSection id hbody (leaves_nil _ _ _) rfl hwhole

/-- The members of a list are read one by one. -/
theorem fst_readItems (read : Data → Checked α) (start : Nat) (items : List Data) :
    (readItems read start items).1 = items.map fun item => (read item).1 := by
  induction items generalizing start with
  | nil => rfl
  | cons item rest ih =>
    rw [List.map_cons, ← ih (start + 1)]
    rfl

/-- A member of a list leaves its value. -/
theorem Leaves.readList (h : Leaves read rest get value) (index : Nat) :
    Leaves (readList read) (Text.ofNat index :: rest)
      (fun members => (members[index]?.map get).getD value) value := by
  intro data hno
  rw [EnvFiles.readList]
  split
  · rename_i items hopened
    dsimp only
    rw [fst_readItems, List.getElem?_map]
    cases hitem : items[index]? with
    | none => rfl
    | some item => exact h item fun hgives => hno (.item hopened hitem hgives)
  · rfl

/-- What is left out of the settings of a project is left out of the configuration. -/
theorem Leaves.inProject (take : ProjectSettings → β)
    (h : Leaves ProjectSettings.read rest take value) (hdefault : take {} = value) :
    Leaves Config.check ("project" :: rest) (fun config => take config.project) value :=
  leaves_readSection take (fun _ => rfl) h hdefault hdefault

/-- What is left out of the settings of workspaces is left out of the configuration. -/
theorem Leaves.inWorkspaces (take : WorkspaceSettings → β)
    (h : Leaves WorkspaceSettings.read rest take value) (hdefault : take {} = value) :
    Leaves Config.check ("project" :: "workspaces" :: rest)
      (fun config => take config.project.workspaces) value :=
  Leaves.inProject (fun project => take project.workspaces)
    (leaves_readSection take (fun _ => rfl) h hdefault hdefault) hdefault

/-- What is left out of the settings of scanning is left out of the configuration. -/
theorem Leaves.inScanning (take : ScanSettings → β) (h : Leaves ScanSettings.read rest take value)
    (hdefault : take {} = value) :
    Leaves Config.check ("scanning" :: rest) (fun config => take config.scanning) value :=
  leaves_readSection take (fun _ => rfl) h hdefault hdefault

/-- What is left out of the settings of continuous integration is left out of the configuration. -/
theorem Leaves.inCi (take : CiSettings → β) (h : Leaves CiSettings.read rest take value)
    (hdefault : take {} = value) :
    Leaves Config.check ("ci" :: rest) (fun config => take config.ci) value :=
  leaves_readSection take (fun _ => rfl) h hdefault hdefault

/-- What is left out of the section that names plugins is left out of the configuration. -/
theorem Leaves.inPlugins (take : List PluginReference → β) (h : Leaves readPlugins rest take value)
    (hdefault : take [] = value) :
    Leaves Config.check ("plugins" :: rest) (fun config => take config.plugins) value :=
  leaves_readSection take (fun _ => rfl) h hdefault hdefault

/-- A setting that is left out has its default. -/
theorem leaves_check (setting : Setting) :
    Leaves Config.check setting.path setting.get (setting.get {}) := by
  cases setting with
  | rootEnvExample =>
    exact Leaves.inProject ProjectSettings.exampleName (leaves_field (fun _ => rfl) rfl) rfl
  | rootEnvLocal =>
    exact Leaves.inProject ProjectSettings.valuesName (leaves_field (fun _ => rfl) rfl) rfl
  | detection =>
    exact Leaves.inWorkspaces WorkspaceSettings.detection (leaves_field (fun _ => rfl) rfl) rfl
  | patterns =>
    exact Leaves.inWorkspaces WorkspaceSettings.patterns (leaves_field (fun _ => rfl) rfl) rfl
  | sourceDir =>
    exact Leaves.inWorkspaces WorkspaceSettings.sourceDir (leaves_field (fun _ => rfl) rfl) rfl
  | extensions =>
    exact Leaves.inScanning ScanSettings.extensions (leaves_field (fun _ => rfl) rfl) rfl
  | skipDirs =>
    exact Leaves.inScanning ScanSettings.skipDirs (leaves_field (fun _ => rfl) rfl) rfl
  | ignoreMissing =>
    exact Leaves.inScanning ScanSettings.ignoreMissing (leaves_field (fun _ => rfl) rfl) rfl
  | ignoreUnused =>
    exact Leaves.inScanning ScanSettings.ignoreUnused (leaves_field (fun _ => rfl) rfl) rfl
  | skipEnvVar =>
    exact Leaves.inCi CiSettings.skipVariable (leaves_field (fun _ => rfl) rfl) rfl
  | skipDirectives =>
    exact Leaves.inCi CiSettings.skipDirectives (leaves_field (fun _ => rfl) rfl) rfl
  | platforms =>
    exact Leaves.inCi CiSettings.detection (leaves_field (fun _ => rfl) rfl) rfl
  | external =>
    exact Leaves.inPlugins id (leaves_field (fun _ => rfl) rfl) rfl
  | options index =>
    have hplugin : Leaves PluginReference.read ["options"] PluginReference.options [] :=
      leaves_field (fun _ => rfl) rfl
    exact Leaves.inPlugins _ (leaves_readSection _ (fun _ => rfl) (hplugin.readList index) rfl rfl)
      rfl

end Defaults

open Kind in
/-- A configuration that gives each field once can be spelled in other ways and comes to the same.
A setting that it leaves out has its default, whatever else it gives. -/
theorem ofData_respelled (data : Data) :
    (∀ data', config.Respelled data data' → config.Once data →
      SameReading (config.SamePlace data data') (Config.ofData data) (Config.ofData data')) ∧
    ∀ result, Config.ofData data = .ok result → ∀ setting : Setting, ¬ Gives data setting.path →
      setting.get result = setting.get {} := by
  refine ⟨fun data' hrespelled honce => (readAlike_config data data' hrespelled honce).sameReading,
    fun result hresult setting hno => ?_⟩
  rw [Config.ofData, Checked.result] at hresult
  split at hresult
  · cases hresult
    exact leaves_check setting data hno
  · cases hresult

section Fixed

open Kind

variable {fields : List (Text × Kind)} {spelling spelling' : Text} {kind : Kind}
  {given given' : Data}

/-- A section of one field can be spelled in another way. -/
theorem respelled_single (joined : Text) (hfield : (joined, kind) ∈ fields)
    (hspelling : spelling ∈ spellings joined)
    (hspelling' : spelling' ∈ spellings joined) (h : kind.Respelled given given') :
    (ofSection fields).Respelled (.mapping [(.text spelling, given)])
      (.mapping [(.text spelling', given')]) :=
  Or.inr ⟨_, _, rfl, rfl,
    .cons (Or.inr ⟨_, hfield, ⟨_, hspelling, rfl⟩, ⟨_, hspelling', rfl⟩, h⟩) .nil⟩

/-- A section of one field gives it once. -/
theorem once_single (joined : Text) (hapart : Apart (fields.map Prod.fst))
    (hfield : (joined, kind) ∈ fields) (hspelling : spelling ∈ spellings joined)
    (h : kind.Once given) :
    (ofSection fields).Once (.mapping [(.text spelling, given)]) := by
  intro entries hopened field hmem
  cases hopened
  refine ⟨fun entry hentry other hother _ _ => ?_, fun entry hentry hspells => ?_⟩
  · rw [List.mem_singleton.mp hentry, List.mem_singleton.mp hother]
  · cases List.mem_singleton.mp hentry
    cases eq_of_spells hapart hmem hfield hspells ⟨_, hspelling, rfl⟩
    exact h

/-- A configuration that tells which folders are not scanned. -/
def dirsData (spelling : Text) (dirs : Data) : Data :=
  .mapping [(.text "scanning", .mapping [(.text spelling, dirs)])]

/-- It can be spelled in two ways. -/
theorem respelled_dirsData (dirs : Data) :
    config.Respelled (dirsData "skip_dirs" dirs) (dirsData "skipDirs" dirs) :=
  respelled_single "scanning" (.tail _ (.tail _ (.head _))) (.head _) (.head _)
    (respelled_single "skipDirs" (.tail _ (.head _)) (by decide) (.head _) rfl)

/-- It gives each field once. -/
theorem once_dirsData (dirs : Data) : config.Once (dirsData "skip_dirs" dirs) :=
  once_single "scanning" (by decide) (.tail _ (.tail _ (.head _))) (.head _)
    (once_single "skipDirs" (by decide) (.tail _ (.head _)) (by decide) trivial)

/-- It does not give the names that are never reported as unused. -/
theorem not_gives_dirsData (dirs : Data) :
    ¬ Gives (dirsData "skip_dirs" dirs) Setting.ignoreUnused.path := by
  intro h
  obtain ⟨key, scanning, hmem, -, hscanning⟩ := h.of_mapping rfl
  obtain ⟨-, rfl⟩ := Prod.mk.inj (List.mem_singleton.mp hmem)
  obtain ⟨key, value, hmem, hspells, -⟩ := hscanning.of_mapping rfl
  obtain ⟨rfl, -⟩ := Prod.mk.inj (List.mem_singleton.mp hmem)
  exact absurd (spells_text_iff.mp hspells) (by decide)

/-- Both ways come to the same settings for a list, and to the same issue for a text, at the place
that each of them spells. -/
theorem ofData_respelled_dirs :
    (∃ result, Config.ofData (dirsData "skip_dirs" (.list [.text "out"])) = .ok result ∧
      Config.ofData (dirsData "skipDirs" (.list [.text "out"])) = .ok result ∧
      result.scanning.skipDirs = ["out"] ∧ result.scanning.ignoreUnused = []) ∧
    SameReading (config.SamePlace (dirsData "skip_dirs" (.text "out"))
        (dirsData "skipDirs" (.text "out")))
      (.error [⟨["scanning", "skip_dirs"], .listExpected⟩])
      (.error [⟨["scanning", "skipDirs"], .listExpected⟩]) := by
  constructor
  · obtain ⟨hsame, hdefaults⟩ := ofData_respelled (dirsData "skip_dirs" (.list [.text "out"]))
    have halike := hsame _ (respelled_dirsData _) (once_dirsData _)
    have hdirs : (Config.ofData (dirsData "skip_dirs" (.list [.text "out"]))).map
        (fun result => result.scanning.skipDirs) = .ok ["out"] := by decide +kernel
    cases hresult : Config.ofData (dirsData "skip_dirs" (.list [.text "out"])) with
    | error issues =>
      rw [hresult] at hdirs
      cases hdirs
    | ok result =>
      rw [hresult] at hdirs halike
      have hunused := hdefaults result hresult .ignoreUnused (not_gives_dirsData _)
      generalize hresult' : Config.ofData (dirsData "skipDirs" (.list [.text "out"])) = result'
        at halike
      cases halike
      exact ⟨result, rfl, rfl, Except.ok.inj hdirs, hunused⟩
  · exact (ofData_respelled (dirsData "skip_dirs" (.text "out"))).1 _ (respelled_dirsData _)
      (once_dirsData _)

end Fixed
end EnvFiles
