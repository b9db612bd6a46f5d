import EnvFiles.Plugin.Registry
import EnvFiles.Resolution.Builtin

/-!
# Resolving the missing variables of a pass

A pass goes through definitions in order and knows the values found so far, so that a later
variable can take the value of an earlier one. A variable that has a value by its turn keeps it.
Otherwise the hooks before it are called, then the first plugin source that claims its directive,
or the built-in source if none does, then the hooks after it. A plugin source that cannot be
used leaves the example value and a warning.
-/

namespace EnvFiles

/-- The state of a pass: the values known so far, and the desk. -/
structure Pass where
  values : Table Text Text := []
  desk : Desk := {}
  deriving Inhabited

/-- A step of a pass. -/
abbrev Resolving := Attempt Pass

namespace Resolving

/-- A step that only needs the desk. -/
def atDesk {α : Type} (task : DeskStep α) : Resolving α :=
  task.onPart Pass.desk fun desk pass => { pass with desk }

/-- What a plugin called now would see. -/
def circumstances (scope : Scope) : Resolving Circumstances := do
  let pass ← get
  return ⟨scope, pass.values, pass.desk.trace⟩

/-- Replace the values known so far. -/
def setValues (values : Table Text Text) : Resolving Unit :=
  modify fun pass => { pass with values }

end Resolving

namespace Registry

/-- Call a hook around a variable of every plugin that has it, in order. -/
def callVariableHooks (registry : Registry) (scope : Scope)
    (hook : Hooks → Option (Circumstances → Except Text (Table Text Text)))
    (event : Text → Event) : Resolving Unit :=
  registry.plugins.forM fun plugin =>
    match hook plugin.hooks with
    | none => pure ()
    | some answer => do
      Resolving.atDesk (DeskStep.record (event plugin.name))
      let values ← Resolving.atDesk (DeskStep.ofPlugin (answer (← Resolving.circumstances scope)))
      Resolving.setValues values

/-- Call the hooks before a variable is resolved. -/
def beforeResolve (registry : Registry) (scope : Scope) (definition : Definition) :
    Resolving Unit :=
  registry.callVariableHooks scope (fun hooks => hooks.beforeResolve.map (· definition))
    fun plugin => .beforeResolve plugin definition.name

/-- Call the hooks after a variable is resolved. -/
def afterResolve (registry : Registry) (scope : Scope) (definition : Definition)
    (resolved : Resolved) : Resolving Unit :=
  registry.callVariableHooks scope (fun hooks => hooks.afterResolve.map (· definition resolved))
    fun plugin =>
      .afterResolve plugin definition.name resolved.value resolved.source resolved.skipped

end Registry

/-- The reason given when a source cannot be used. -/
def ValueSource.unavailableReason (source : ValueSource) : Text :=
  match source.unavailableMessage with
  | some (c :: rest) => c :: rest
  | _ => "Plugin source \"" ++ source.kind ++ "\" is not available"

/-- The event of asking the source at a position whether it can be used. -/
def ValueSource.checkEvent (source : ValueSource) (position : Nat) (scope : Scope) : Event :=
  @Event.availability position source.kind scope.workspace.name

/-- The event of asking the source at a position for the value of a variable. -/
def ValueSource.callEvent (source : ValueSource) (position : Nat) (definition : Definition) :
    Event :=
  @Event.sourceCalled position source.kind definition.name

/-- The example value, because the source cannot be used. -/
def ValueSource.unavailable (source : ValueSource) (definition : Definition) : Resolved where
  value := definition.exampleValue
  source := "placeholder"
  warning := some source.unavailableReason

/-- Ask the source at a position whether it can be used. -/
def ValueSource.checkAvailable (source : ValueSource) (position : Nat) (scope : Scope) :
    Resolving Bool :=
  match source.isAvailable with
  | none => pure true
  | some check => do
    Resolving.atDesk (DeskStep.record (source.checkEvent position scope))
    Resolving.atDesk (DeskStep.ofPlugin (check (← Resolving.circumstances scope)))

/-- Resolve a variable by the plugins' source at a position. -/
def ValueSource.supply (source : ValueSource) (position : Nat) (scope : Scope)
    (definition : Definition) : Resolving Resolved := do
  if ← source.checkAvailable position scope then
    Resolving.atDesk (DeskStep.record (source.callEvent position definition))
    Resolving.atDesk (DeskStep.ofPlugin (source.resolve definition (← Resolving.circumstances scope)))
  else
    Resolving.atDesk (DeskStep.note
      (.sourceUnavailable definition.name source.unavailableReason))
    return source.unavailable definition

/-- Resolve a variable by the source that its directive leads to. -/
def dispatch (registry : Registry) (scope : Scope) (definition : Definition) :
    Resolving Resolved :=
  match registry.findSource definition.directive.kind with
  | some source =>
    source.supply (registry.findPosition definition.directive.kind) scope definition
  | none => do
    Resolving.atDesk (resolveBuiltin scope (← get).values definition)

/-- Resolve one variable. -/
def resolve (registry : Registry) (scope : Scope) (definition : Definition) :
    Resolving Resolved := do
  Resolving.atDesk (DeskStep.record (.consulted scope.shared scope.workspace definition))
  match (← get).values.filled? definition.name with
  | some value => return { value, source := "existing" }
  | none =>
    registry.beforeResolve scope definition
    let resolved ← dispatch registry scope definition
    registry.afterResolve scope definition resolved
    return resolved

/-- What a pass leaves: the values to write and what is to be reported. -/
structure PassOutcome where
  updates : Table Text Text := []
  warnings : List Text := []
  skippedRequired : List Text := []
  skippedOptional : List Text := []
  deriving DecidableEq, Repr, Inhabited

/-- The outcome with one more variable resolved. -/
def PassOutcome.add (outcome : PassOutcome) (definition : Definition) (resolved : Resolved) :
    PassOutcome :=
  let warnings := match resolved.warning with
    | some (c :: rest) => outcome.warnings ++ [c :: rest]
    | _ => outcome.warnings
  if resolved.skipped then
    if definition.isRequired then
      { outcome with warnings, skippedRequired := outcome.skippedRequired ++ [definition.name] }
    else
      { outcome with warnings, skippedOptional := outcome.skippedOptional ++ [definition.name] }
  else
    { outcome with warnings, updates := outcome.updates.put definition.name resolved.value }

/-- Make a resolved value known to the rest of the pass. -/
def Resolving.learn (definition : Definition) (resolved : Resolved) : Resolving Unit :=
  if resolved.skipped then pure ()
  else modify fun pass => { pass with values := pass.values.put definition.name resolved.value }

/-- Resolve definitions in order, given the outcome of those before them. -/
def resolveMissing (registry : Registry) (scope : Scope) :
    PassOutcome → List Definition → Resolving PassOutcome
  | outcome, [] => pure outcome
  | outcome, definition :: rest => do
    let resolved ← resolve registry scope definition
    Resolving.learn definition resolved
    resolveMissing registry scope (outcome.add definition resolved) rest

/-- Run a pass at the desk, from the given values. -/
def DeskStep.ofPass {α : Type} (values : Table Text Text) (pass : Resolving α) : DeskStep α :=
  pass.onPart (fun desk => ⟨values, desk⟩) fun pass _ => pass.desk

end EnvFiles
