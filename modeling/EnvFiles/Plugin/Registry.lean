import EnvFiles.Plugin.Basic

/-!
# The registry of plugins

Plugins are registered once, before any work, and listed in that order. A name is registered once
only. A plugin with anything that cannot serve as a value source is refused whole. A frozen
registry takes no plugin.
-/

namespace EnvFiles

/-- The registered plugins. -/
structure Registry where
  plugins : List Plugin := []
  frozen : Bool := false

namespace Registry

/-- The plugins' value sources in order. -/
def valueSources (registry : Registry) : List ValueSource :=
  registry.plugins.flatMap Plugin.valueSources

/-- The patterns by which comments name the plugins' directives. -/
def patterns (registry : Registry) : List DirectivePattern :=
  registry.valueSources.map ValueSource.pattern

/-- The plugins' deployment providers in order. -/
def providers (registry : Registry) : List Text := registry.plugins.flatMap Plugin.providers

/-- The names that plugins ask not to be reported missing. -/
def ignoreMissing (registry : Registry) : List Text :=
  registry.plugins.flatMap Plugin.ignoreMissing

/-- Add a plugin. -/
def register (registry : Registry) (plugin : Plugin) : Except Failure Registry :=
  if registry.frozen then .error .registryFrozen
  else if registry.plugins.any fun other => other.name == plugin.name then
    .error (.duplicatePlugin plugin.name)
  else match plugin.sources.findSome? fun
      | .unusable shown => some shown
      | .usable _ => none with
    | some shown => .error (.unusableSource plugin.name shown)
    | none => .ok { registry with plugins := registry.plugins ++ [plugin] }

/-- Take no more plugins. -/
def freeze (registry : Registry) : Registry := { registry with frozen := true }

/-- The first value source that claims the kind. -/
def findSource (registry : Registry) (kind : Text) : Option ValueSource :=
  registry.valueSources.find? fun source => source.kind == kind

/-- The position of the first value source that claims the kind. -/
def findPosition (registry : Registry) (kind : Text) : Nat :=
  registry.valueSources.findIdx fun source => source.kind == kind

/-- Call a hook of every plugin that has it, in order. -/
def callHooks (registry : Registry) (hook : Hooks → Option (Except Text Unit))
    (event : Text → Event) : DeskStep Unit :=
  registry.plugins.forM fun plugin =>
    match hook plugin.hooks with
    | none => pure ()
    | some answer => do
      DeskStep.record (event plugin.name)
      DeskStep.ofPlugin answer

/-- Call the hooks for the start of the program. -/
def onInit (registry : Registry) (config : Config) : DeskStep Unit :=
  registry.callHooks (fun hooks => hooks.onInit.map (· config))
    fun plugin => .onInit plugin config.ci.skipVariable

/-- Call the hooks before workspaces are synced. -/
def beforeSync (registry : Registry) (workspaces : List Workspace) : DeskStep Unit :=
  registry.callHooks (fun hooks => hooks.beforeSync.map (· workspaces))
    fun plugin => .beforeSync plugin (workspaces.map Workspace.name)

/-- Call the hooks after workspaces are synced. -/
def afterSync (registry : Registry) (results : List Comparison) : DeskStep Unit :=
  registry.callHooks (fun hooks => hooks.afterSync.map (· results))
    fun plugin => .afterSync plugin (results.map fun result => result.workspace.name)

end Registry
end EnvFiles
