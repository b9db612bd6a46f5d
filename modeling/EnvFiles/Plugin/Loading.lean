import EnvFiles.Plugin.Registry

/-!
# Loading the plugins that a configuration names

Each reference names a module, which may be held by a package, as `acme.vault` is held by `acme`.
What is looked for in a module is a function that creates a plugin from the options of the
reference, then a plugin itself, then a default function. A reference that does not lead to a
plugin that can be registered is noted and passed over, and the others are loaded all the same.
After loading, the registry is frozen.

What a module exports does not depend on which modules were imported before it.
-/

namespace EnvFiles

/-- What a module gives when asked for a plugin. -/
inductive Offer
  | nothing
  | plugin (plugin : Plugin)
  /-- A value without any of a plugin's parts. -/
  | other

/-- A function from options to a plugin; it may fail with a message. -/
abbrev PluginFactory := Table Text Data → Except Text Offer

/-- What a module exports. What is exported under a name but is of no use there counts as not
exported. -/
structure ModuleExports where
  create : Option PluginFactory := none
  plugin : Option Plugin := none
  byDefault : Option PluginFactory := none
  /-- The module is a package: it can hold other modules. -/
  isPackage : Bool := false

/-- What importing a module gives: its exports or the message of its failure. -/
abbrev Module := Except Text ModuleExports

/-- What a module offers under the given options. -/
def ModuleExports.offer (exports : ModuleExports) (options : Table Text Data) :
    Except Text Offer :=
  match exports.create, exports.plugin, exports.byDefault with
  | some create, _, _ => create options
  | none, some plugin, _ => .ok (.plugin plugin)
  | none, none, some create => create options
  | none, none, none => .ok .nothing

/-- The message for a name that no module has. -/
def noModule (name : Text) : Text := "No module named " ++ Text.quoted name

/-- Import a module whose holders are imported. Modules are found by their whole names. -/
def findModule (modules : Table Text Module) (name : Text) : Module :=
  match modules.get? name with
  | some found => found
  | none => .error (noModule name)

/-- Import a module, and one after the other the modules that the given parts name in it. Each module
on the way must be a package. -/
def importHeld (modules : Table Text Module) (name : Text) : List Text → Module
  | [] => findModule modules name
  | part :: rest => do
    let holder ← findModule modules name
    let held := name ++ "." ++ part
    if holder.isPackage then importHeld modules held rest
    else throw (noModule held ++ "; " ++ Text.quoted name ++ " is not a package")

/-- Import a module by its name, which must not be empty or start with a dot. With a dotted name the
packages that hold the module are imported before it. -/
def importModule (modules : Table Text Module) (name : Text) : Module :=
  match name with
  | [] => .error "Empty module name"
  | '.' :: _ =>
    .error ("the 'package' argument is required to perform a relative import for " ++
      Text.quoted name)
  | _ =>
    match Text.splitAt '.' name with
    | [] => findModule modules name
    | first :: parts => importHeld modules first parts

/-- The registry after one reference, or the reason why it leads to no registered plugin; the
reason is empty when the module offers nothing. -/
def loadPlugin (modules : Table Text Module) (registry : Registry)
    (reference : PluginReference) : Except Notice Registry :=
  let offered := importModule modules reference.name >>= fun exports =>
    exports.offer reference.options
  match offered with
  | .error message => .error (.pluginNotLoaded reference.name message)
  | .ok .nothing => .error (.pluginNotOffered reference.name)
  | .ok .other =>
    let failure := if registry.frozen then Failure.registryFrozen else .notAPlugin
    .error (.pluginNotLoaded reference.name failure.message)
  | .ok (.plugin plugin) =>
    match registry.register plugin with
    | .ok registry => .ok registry
    | .error failure => .error (.pluginNotLoaded reference.name failure.message)

/-- Register the plugins of all references, in order, noting those that fail. -/
def loadReferences (modules : Table Text Module) :
    Registry → List PluginReference → DeskStep Registry
  | registry, [] => pure registry
  | registry, reference :: rest =>
    match loadPlugin modules registry reference with
    | .ok registry => loadReferences modules registry rest
    | .error notice => do
      DeskStep.note notice
      loadReferences modules registry rest

/-- Load the plugins of a configuration and freeze the registry. -/
def loadPlugins (modules : Table Text Module) (config : Config) (registry : Registry := {}) :
    DeskStep Registry := do
  return (← loadReferences modules registry config.plugins).freeze

/-- Load the plugins and call their hooks for the start. -/
def initPlugins (modules : Table Text Module) (config : Config) (registry : Registry := {}) :
    DeskStep Registry := do
  let registry ← loadPlugins modules config registry
  registry.onInit config
  return registry

end EnvFiles
