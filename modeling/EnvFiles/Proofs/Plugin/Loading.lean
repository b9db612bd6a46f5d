import EnvFiles.Plugin.Loading
import EnvFiles.Proofs.Plugin.Registry
import EnvFiles.Proofs.Text.Lines

/-!
# Plugins that fail to load

A reference can fail when its module is imported, when the module is asked for a plugin and when
the plugin is registered. Every such failure is noted and leaves the registry as it was, so it does
not matter for the references after it. Which plugins are loaded depends on the references that lead
to a sound plugin only, and on the names that are taken when their turn comes.
-/

namespace EnvFiles

/-- A module gives a plugin for the options of a reference: made by its creating function if it has
one, otherwise the plugin that it holds if there is one, otherwise made by its default function. -/
inductive ModuleExports.Gives (exports : ModuleExports) (options : Table Text Data) :
    Plugin → Prop
  | created {create : PluginFactory} {plugin : Plugin} : exports.create = some create →
      create options = .ok (.plugin plugin) → Gives exports options plugin
  | held {plugin : Plugin} : exports.create = none → exports.plugin = some plugin →
      Gives exports options plugin
  | byDefault {create : PluginFactory} {plugin : Plugin} : exports.create = none →
      exports.plugin = none → exports.byDefault = some create →
      create options = .ok (.plugin plugin) → Gives exports options plugin

/-- The modules that hold a module of the given name can be imported, and are packages: those whose
names end at a dot of it. -/
def HeldByPackages (modules : Table Text Module) (name : Text) : Prop :=
  ∀ holder held, name = holder ++ '.' :: held →
    ∃ package, modules.get? holder = some (.ok package) ∧ package.isPackage = true

/-- A reference leads to a plugin: its name is that of a module that can be imported and gives the
plugin. -/
structure PluginReference.LeadsTo (reference : PluginReference) (modules : Table Text Module)
    (plugin : Plugin) : Prop where
  isAbsolute : reference.name ≠ [] ∧ reference.name.head? ≠ some '.'
  heldByPackages : HeldByPackages modules reference.name
  gives : ∃ exports, modules.get? reference.name = some (.ok exports) ∧
    exports.Gives reference.options plugin

/-- What the module of a reference offers. -/
def PluginReference.offered (modules : Table Text Module) (reference : PluginReference) :
    Except Text Offer :=
  importModule modules reference.name >>= fun exports => exports.offer reference.options

/-- The plugin without unusable sources that a reference leads to, if it does. -/
def PluginReference.soundPlugin? (modules : Table Text Module) (reference : PluginReference) :
    Option Plugin :=
  match reference.offered modules with
  | .ok (.plugin plugin) => if plugin.isSound then some plugin else none
  | _ => none

section Offers

variable {modules : Table Text Module} {exports : ModuleExports} {options : Table Text Data}
  {plugin : Plugin} {reference : PluginReference} {name : Text}

/-- What a module gives is what it offers as a plugin. -/
theorem offer_eq_plugin_iff :
    exports.offer options = .ok (.plugin plugin) ↔ exports.Gives options plugin := by
  obtain ⟨create, held, byDefault⟩ := exports
  constructor
  · intro hoffer
    cases create with
    | some create => exact .created rfl hoffer
    | none =>
      cases held with
      | some other =>
        cases hoffer
        exact .held rfl rfl
      | none =>
        cases byDefault with
        | some create => exact .byDefault rfl rfl rfl hoffer
        | none => cases hoffer
  · intro hgives
    cases hgives with
    | created hcreate hmade =>
      cases hcreate
      exact hmade
    | held hnone hheld =>
      cases hnone
      cases hheld
      rfl
    | byDefault hnone hnone' hcreate hmade =>
      cases hnone
      cases hnone'
      cases hcreate
      exact hmade

/-- A module is found under its whole name. -/
theorem findModule_eq_ok_iff :
    findModule modules name = .ok exports ↔ modules.get? name = some (.ok exports) := by
  rw [findModule]
  cases modules.get? name with
  | none => simp
  | some found => simp

/-- A module is imported through others when all of these, from the given one on, are packages. -/
theorem importHeld_eq_ok_iff {parts : List Text} (hparts : ∀ part ∈ parts, '.' ∉ part) :
    importHeld modules name parts = .ok exports ↔
      (∀ more held, parts.flatMap ('.' :: ·) = more ++ '.' :: held →
        ∃ package, modules.get? (name ++ more) = some (.ok package) ∧ package.isPackage = true) ∧
      modules.get? (name ++ parts.flatMap ('.' :: ·)) = some (.ok exports) := by
  induction parts generalizing name with
  | nil =>
    rw [importHeld, findModule_eq_ok_iff]
    simp
  | cons part rest ih =>
    obtain ⟨hpart, hrest⟩ := List.forall_mem_cons.mp hparts
    have hstep : importHeld modules name (part :: rest) = .ok exports ↔
        (∃ package, modules.get? name = some (.ok package) ∧ package.isPackage = true) ∧
          importHeld modules (name ++ '.' :: part) rest = .ok exports := by
      rw [importHeld, bind_eq_ok_iff]
      simp only [findModule_eq_ok_iff, List.append_assoc]
      constructor
      · rintro ⟨package, hfound, hheld⟩
        split at hheld
        · exact ⟨⟨package, hfound, ‹_›⟩, hheld⟩
        · cases hheld
      · rintro ⟨⟨package, hfound, hpackage⟩, hheld⟩
        exact ⟨package, hfound, by rwa [if_pos hpackage]⟩
    rw [hstep, ih hrest, List.flatMap_cons, List.append_assoc, ← and_assoc]
    refine and_congr_left fun _ => ⟨fun ⟨hholder, hheld⟩ more held heq => ?_, fun hheld => ?_⟩
    · cases more with
      | nil => rwa [List.append_nil]
      | cons c more =>
        obtain ⟨rfl, htail⟩ := List.cons.inj heq
        obtain ⟨further, rfl, hfurther⟩ := (Text.append_eq_append_cons_iff hpart).mp htail
        have hpackage := hheld further held hfurther
        rwa [List.append_assoc] at hpackage
    · refine ⟨?_, fun more held heq => ?_⟩
      · have hpackage := hheld [] (part ++ rest.flatMap ('.' :: ·)) rfl
        rwa [List.append_nil] at hpackage
      · rw [List.append_assoc]
        exact hheld ('.' :: part ++ more) held (by rw [heq, List.append_assoc])

/-- A module is imported by its name, which is not empty and does not start with a dot, if packages
hold it and it is found. -/
theorem importModule_eq_ok_iff :
    importModule modules name = .ok exports ↔
      (name ≠ [] ∧ name.head? ≠ some '.') ∧ HeldByPackages modules name ∧
        modules.get? name = some (.ok exports) := by
  obtain ⟨first, parts, hsplit, htext, hfirst, hparts⟩ := Text.exists_splitAt '.' name
  have hheld : HeldByPackages modules name ↔ ∀ more held,
      parts.flatMap ('.' :: ·) = more ++ '.' :: held →
        ∃ package, modules.get? (first ++ more) = some (.ok package) ∧
          package.isPackage = true := by
    rw [HeldByPackages]
    constructor
    · exact fun h more held heq => h (first ++ more) held (by rw [htext, heq, List.append_assoc])
    · intro h holder held heq
      rw [htext] at heq
      obtain ⟨more, rfl, hmore⟩ := (Text.append_eq_append_cons_iff hfirst).mp heq
      exact h more held hmore
  have himport : importHeld modules first parts = .ok exports ↔ _ := importHeld_eq_ok_iff hparts
  rw [← htext, ← hheld] at himport
  rw [importModule.eq_def]
  split
  · simp
  · simp
  · rename_i hempty hdot
    rw [hsplit]
    refine himport.trans ⟨fun h => ⟨⟨hempty, fun hhead => ?_⟩, h⟩, And.right⟩
    cases name with
    | nil => exact hempty rfl
    | cons c rest => exact hdot rest (congrArg (· :: rest) (Option.some.inj hhead))

/-- A reference leads to a plugin exactly if its module offers it. -/
theorem offered_eq_plugin_iff :
    reference.offered modules = .ok (.plugin plugin) ↔ reference.LeadsTo modules plugin := by
  simp only [PluginReference.offered, bind_eq_ok_iff, importModule_eq_ok_iff, offer_eq_plugin_iff]
  constructor
  · rintro ⟨exports, ⟨hname, hheld, hexports⟩, hgives⟩
    exact ⟨hname, hheld, exports, hexports, hgives⟩
  · rintro ⟨hname, hheld, exports, hexports, hgives⟩
    exact ⟨exports, ⟨hname, hheld, hexports⟩, hgives⟩

/-- A reference leads to a sound plugin exactly if its module offers one. -/
theorem soundPlugin?_eq_some_iff :
    reference.soundPlugin? modules = some plugin ↔
      reference.LeadsTo modules plugin ∧ plugin.isSound = true := by
  rw [← offered_eq_plugin_iff, PluginReference.soundPlugin?]
  split
  · rename_i other hother
    by_cases hsound : other.isSound = true
    · simp only [hother, hsound, if_true, Option.some.injEq, Except.ok.injEq, Offer.plugin.injEq]
      constructor
      · rintro rfl
        exact ⟨rfl, hsound⟩
      · exact And.left
    · simp only [hother, hsound, if_false, reduceCtorEq, Except.ok.injEq, Offer.plugin.injEq,
        false_iff, not_and]
      rintro rfl
      exact hsound
  · rename_i hnone
    simp only [reduceCtorEq, false_iff, not_and]
    exact fun hoffered => (hnone plugin hoffered).elim

end Offers

section Loading

variable {modules : Table Text Module} {registry : Registry} {reference : PluginReference}

/-- The registry after some references, whether or not they fail. -/
def Registry.afterLoading (modules : Table Text Module) :
    Registry → List PluginReference → Registry
  | registry, [] => registry
  | registry, reference :: rest =>
    ((loadPlugin modules registry reference).toOption.getD registry).afterLoading modules rest

/-- The references with what each of them comes to when its turn comes. -/
def Registry.loadOutcomes (modules : Table Text Module) :
    Registry → List PluginReference → List (PluginReference × Except Notice Registry)
  | _, [] => []
  | registry, reference :: rest =>
    (reference, loadPlugin modules registry reference) ::
      ((loadPlugin modules registry reference).toOption.getD registry).loadOutcomes modules rest

/-- The references that do not fail. -/
def Registry.loaded (modules : Table Text Module) (registry : Registry)
    (references : List PluginReference) : List PluginReference :=
  ((registry.loadOutcomes modules references).filter fun outcome => outcome.2.isOk).map Prod.fst

/-- The notice for a reference that failed. -/
def noticeOf? : PluginReference × Except Notice Registry → Option Notice
  | (_, .error notice) => some notice
  | (_, .ok _) => none

/-- The notices for the references that fail. -/
def Registry.loadNotices (modules : Table Text Module) (registry : Registry)
    (references : List PluginReference) : List Notice :=
  (registry.loadOutcomes modules references).filterMap noticeOf?

/-- A reference adds the sound plugin that it leads to if the registry takes it. Otherwise it
fails. -/
theorem loadPlugin_cases (modules : Table Text Module) (registry : Registry)
    (reference : PluginReference) :
    (∃ plugin, reference.soundPlugin? modules = some plugin ∧ registry.Takes plugin ∧
        loadPlugin modules registry reference = .ok (registry.add plugin)) ∨
      (∃ notice, loadPlugin modules registry reference = .error notice) ∧
        ∀ plugin, reference.soundPlugin? modules = some plugin → ¬ registry.Takes plugin := by
  unfold loadPlugin PluginReference.soundPlugin? PluginReference.offered
  generalize importModule modules reference.name >>= (fun exports =>
    exports.offer reference.options) = offered
  rcases offered with message | nothing | plugin | other
  · exact Or.inr ⟨⟨_, rfl⟩, nofun⟩
  · exact Or.inr ⟨⟨_, rfl⟩, nofun⟩
  · rcases registry.register_cases plugin with ⟨htakes, hok⟩ | ⟨failure, hrefuses, herror⟩
    · left
      simp [htakes.sound, htakes, hok]
    · right
      simp only [herror]
      refine ⟨⟨_, rfl⟩, fun other hother htakes => hrefuses.not_takes ?_⟩
      split at hother
      · cases hother
        exact htakes
      · cases hother
  · exact Or.inr ⟨⟨_, rfl⟩, nofun⟩

/-- Nothing is added to a frozen registry. -/
theorem afterLoading_of_frozen (hfrozen : registry.frozen = true)
    (references : List PluginReference) : registry.afterLoading modules references = registry := by
  induction references with
  | nil => rfl
  | cons reference rest ih =>
    rw [Registry.afterLoading]
    rcases loadPlugin_cases modules registry reference with
      ⟨plugin, -, htakes, -⟩ | ⟨⟨notice, herror⟩, -⟩
    · simp [htakes.not_frozen] at hfrozen
    · rw [herror]
      exact ih

/-- The plugins added to a registry are the sound ones that the references lead to, under names
that are not taken. -/
theorem plugins_afterLoading (hfrozen : registry.frozen = false)
    (references : List PluginReference) :
    (registry.afterLoading modules references).plugins = registry.plugins ++
      newlyNamed registry.names
        (references.filterMap (PluginReference.soundPlugin? modules)) := by
  induction references generalizing registry with
  | nil => simp [Registry.afterLoading, newlyNamed]
  | cons reference rest ih =>
    rw [Registry.afterLoading]
    rcases loadPlugin_cases modules registry reference with
      ⟨plugin, hleads, htakes, hok⟩ | ⟨⟨notice, herror⟩, hrefused⟩
    · have hopen : (registry.add plugin).frozen = false := htakes.not_frozen
      rw [hok, List.filterMap_cons_some hleads, newlyNamed_of_notMem htakes.name_notMem]
      rw [Except.toOption, Option.getD_some, ih hopen]
      simp [Registry.add, Registry.names]
    · rw [herror, Except.toOption, Option.getD_none, ih hfrozen]
      cases hleads : reference.soundPlugin? modules with
      | none => rw [List.filterMap_cons_none hleads]
      | some plugin =>
        have hsound := (soundPlugin?_eq_some_iff.mp hleads).2
        have hname : plugin.name ∈ registry.names := by
          by_contra hnew
          exact hrefused plugin hleads ⟨hfrozen, hnew, hsound⟩
        rw [List.filterMap_cons_some hleads, newlyNamed_of_mem hname]

/-- Without the references that fail the registry comes to the same, and there is nothing to
note. -/
theorem afterLoading_loaded (modules : Table Text Module) (registry : Registry)
    (references : List PluginReference) :
    registry.afterLoading modules (registry.loaded modules references) =
        registry.afterLoading modules references ∧
      registry.loadNotices modules (registry.loaded modules references) = [] := by
  induction references generalizing registry with
  | nil => exact ⟨rfl, rfl⟩
  | cons reference rest ih =>
    rcases loadPlugin_cases modules registry reference with
      ⟨plugin, -, -, hok⟩ | ⟨⟨notice, herror⟩, -⟩
    · have hloaded : registry.loaded modules (reference :: rest) =
          reference :: (registry.add plugin).loaded modules rest := by
        simp [Registry.loaded, Registry.loadOutcomes, hok, Except.toOption, Except.isOk,
          Except.toBool]
      obtain ⟨hafter, hnotices⟩ := ih (registry.add plugin)
      rw [hloaded, Registry.afterLoading, Registry.afterLoading, hok]
      refine ⟨hafter, ?_⟩
      rw [Registry.loadNotices, Registry.loadOutcomes, hok]
      exact hnotices
    · have hloaded : registry.loaded modules (reference :: rest) =
          registry.loaded modules rest := by
        simp [Registry.loaded, Registry.loadOutcomes, herror, Except.toOption, Except.isOk,
          Except.toBool]
      rw [hloaded, Registry.afterLoading, herror]
      exact ih registry

/-- Loading references comes to an end whatever they lead to. -/
theorem runFrom_loadReferences (registry : Registry) (references : List PluginReference)
    (desk : Desk) :
    (loadReferences modules registry references).runFrom desk =
      (.ok (registry.afterLoading modules references),
        { desk with log := desk.log ++ registry.loadNotices modules references }) := by
  induction references generalizing registry desk with
  | nil =>
    rw [Registry.loadNotices, Registry.loadOutcomes, List.filterMap_nil, List.append_nil]
    rfl
  | cons reference rest ih =>
    rw [loadReferences, Registry.loadNotices, Registry.loadOutcomes, Registry.afterLoading]
    rcases loadPlugin_cases modules registry reference with
      ⟨plugin, -, -, hok⟩ | ⟨⟨notice, herror⟩, -⟩
    · rw [hok]
      exact ih (registry.add plugin) desk
    · have hnoted : (DeskStep.note notice).runFrom desk =
          (.ok (), { desk with log := desk.log ++ [notice] }) := rfl
      have hnotice : noticeOf? (reference, .error notice) = some notice := rfl
      rw [herror]
      simp only [Attempt.runFrom_bind, hnoted]
      rw [ih, List.filterMap_cons_some hnotice]
      simp [Registry.loadNotices, Except.toOption]

/-- Loading the plugins of a configuration always returns a frozen registry, whatever its references
lead to. A registry that was frozen before keeps its plugins. Otherwise they are followed, in the
order of the references, by the sound plugins that these lead to, each under a name that is not
taken yet. A reference leads to a plugin if its module can be imported and gives it. Every reference
that fails is noted and changes nothing: without these references the registry is the same and
nothing is noted. -/
theorem loadPlugins_isolates (modules : Table Text Module) (config : Config) (registry : Registry)
    (desk : Desk) :
    ∃ result,
      (loadPlugins modules config registry).runFrom desk =
        (.ok result,
          { desk with log := desk.log ++ registry.loadNotices modules config.plugins }) ∧
      result.frozen = true ∧
      result.plugins = registry.plugins ++
        (if registry.frozen then []
          else newlyNamed registry.names
            (config.plugins.filterMap (PluginReference.soundPlugin? modules))) ∧
      (∀ (reference : PluginReference) (plugin : Plugin),
        reference.soundPlugin? modules = some plugin ↔
          reference.LeadsTo modules plugin ∧ plugin.isSound = true) ∧
      (loadPlugins modules { config with plugins := registry.loaded modules config.plugins }
        registry).runFrom desk = (.ok result, desk) := by
  have hload (references : List PluginReference) :
      (loadPlugins modules { config with plugins := references } registry).runFrom desk =
        (.ok (registry.afterLoading modules references).freeze,
          { desk with log := desk.log ++ registry.loadNotices modules references }) := by
    rw [loadPlugins, Attempt.runFrom_bind, runFrom_loadReferences]
    rfl
  obtain ⟨hafter, hnotices⟩ := afterLoading_loaded modules registry config.plugins
  refine ⟨_, hload config.plugins, rfl, ?_, fun _ _ => soundPlugin?_eq_some_iff, ?_⟩
  · cases hfrozen : registry.frozen with
    | true =>
      rw [afterLoading_of_frozen hfrozen]
      simp [Registry.freeze]
    | false => exact plugins_afterLoading hfrozen config.plugins
  · rw [hload, hafter, hnotices, List.append_nil]

end Loading

section Packaged

/-- A plugin of the vault. -/
def heldPlugin : Plugin := { name := "vault" }

/-- A package that exports nothing, a module in it that holds a plugin, and a module that holds one
but is no package. -/
def packagedModules : Table Text Module := [
  ("acme", .ok { isPackage := true }),
  ("acme.vault", .ok { plugin := some heldPlugin }),
  ("plain", .ok { plugin := some { name := "plain" } }),
  ("plain.vault", .ok { plugin := some { name := "hidden" } })]

/-- References to the modules, one of which is not there. -/
def packagedConfig : Config where
  plugins := [{ name := "acme" }, { name := "acme.vault" }, { name := "acme.none.vault" },
    { name := "plain.vault" }, { name := "plain" }, { name := "acme.vault" }]

/-- A module in a package is loaded by its dotted name, and one below a module that is no package is
not. -/
theorem loadPlugins_isolates_packaged :
    ∃ result after,
      (loadPlugins packagedModules packagedConfig {}).runFrom {} = (.ok result, after) ∧
      result.frozen = true ∧ result.plugins.map Plugin.name = ["vault", "plain"] ∧
      PluginReference.LeadsTo { name := "acme.vault" } packagedModules heldPlugin ∧
      after.log = [.pluginNotOffered "acme",
        .pluginNotLoaded "acme.none.vault" "No module named 'acme.none'",
        .pluginNotLoaded "plain.vault" "No module named 'plain.vault'; 'plain' is not a package",
        .pluginNotLoaded "acme.vault" (Failure.duplicatePlugin "vault").message] := by
  obtain ⟨result, hrun, hfrozen, hplugins, hleads, -⟩ :=
    loadPlugins_isolates packagedModules packagedConfig {} {}
  refine ⟨result, _, hrun, hfrozen, ?_, ((hleads _ heldPlugin).mp rfl).1, by decide +kernel⟩
  rw [hplugins]
  decide +kernel

end Packaged
end EnvFiles
