import EnvFiles.Config.Basic
import EnvFiles.Comment.Meaning
import EnvFiles.Desk

/-!
# Plugins

A plugin is a bundle of value sources, deployment providers and hooks. A value source claims a
directive kind by a pattern in comments and supplies values for it. Sources and hooks see the
circumstances of a pass, which include everything that plugins did so far; beyond that they
have no memory of their own.
-/

namespace EnvFiles

/-- The outcome of resolving one variable. -/
structure Resolved where
  value : Text := []
  source : Text
  /-- Nothing will be written for the variable. -/
  skipped : Bool := false
  warning : Option Text := none
  deriving DecidableEq, Repr, Inhabited

/-- What stays the same during a pass over the variables of one workspace, or over the shared
variables, for which the first workspace stands. -/
structure Scope where
  workspace : Workspace
  shared : Bool := false
  interactive : Bool := false
  config : Config := {}
  root : Path := []
  environ : Table Text Text := []
  deriving Repr, Inhabited

/-- The circumstances under which a plugin is called: the scope of the pass, the values known so
far, and what happened before. -/
structure Circumstances where
  scope : Scope
  values : Table Text Text
  history : List Event
  deriving Repr, Inhabited

/-- A source of values for one directive kind. -/
structure ValueSource where
  kind : Text
  find : Text → Option Text
  resolve : Definition → Circumstances → Except Text Resolved
  /-- Whether the source can be used; a source without this check always can. -/
  isAvailable : Option (Circumstances → Except Text Bool) := none
  unavailableMessage : Option Text := none

/-- The pattern by which a source's directive is found in comments. -/
def ValueSource.pattern (source : ValueSource) : DirectivePattern := ⟨source.kind, source.find⟩

/-- What a plugin lists as a value source: one, or something that cannot serve as one. -/
inductive OfferedSource
  | usable (source : ValueSource)
  | unusable (shown : Text)

/-- The value source that is offered, if it can serve as one. -/
def OfferedSource.source? : OfferedSource → Option ValueSource
  | .usable source => some source
  | .unusable _ => none

/-- What is called at fixed points of a run. The two hooks around a variable give back the values
known after them. -/
structure Hooks where
  onInit : Option (Config → Except Text Unit) := none
  beforeSync : Option (List Workspace → Except Text Unit) := none
  afterSync : Option (List Comparison → Except Text Unit) := none
  beforeResolve : Option (Definition → Circumstances → Except Text (Table Text Text)) := none
  afterResolve :
    Option (Definition → Resolved → Circumstances → Except Text (Table Text Text)) := none

/-- A plugin. -/
structure Plugin where
  name : Text
  version : Data := .text "0.0.0"
  description : Data := .text ""
  sources : List OfferedSource := []
  providers : List Text := []
  hooks : Hooks := {}
  ignoreMissing : List Text := []

/-- The value sources of a plugin. -/
def Plugin.valueSources (plugin : Plugin) : List ValueSource :=
  plugin.sources.filterMap OfferedSource.source?

end EnvFiles
