import EnvFiles.Comparison
import EnvFiles.Notice

/-!
# The desk of a run

A run works at a desk: the replies that questions will get, the questions asked, the trace of what
plugins did, and the notices. All of it is data, so that two runs can be compared. An attempt is
a step that may fail; what it did before it failed stays done.
-/

namespace EnvFiles

/-- What can be seen of plugins, and of the resolver calling on a variable. -/
inductive Event
  /-- The resolver was asked for a variable. In a shared pass the workspace stands for all. -/
  | consulted (shared : Bool) (workspace : Workspace) (definition : Definition)
  | onInit (plugin skipVariable : Text)
  | beforeSync (plugin : Text) (workspaces : List Text)
  | afterSync (plugin : Text) (workspaces : List Text)
  | beforeResolve (plugin name : Text)
  | afterResolve (plugin name value source : Text) (skipped : Bool)
  /-- A source was asked whether it can be used for a workspace. It shows its kind only, which other
  sources may claim too; its position among the sources of all plugins tells which one it was. -/
  | availability {position : Nat} (kind workspace : Text)
  /-- A source was asked for the value of a variable. -/
  | sourceCalled {position : Nat} (kind name : Text)
  deriving DecidableEq, Repr, Inhabited

/-- The desk. -/
structure Desk where
  replies : List Text := []
  asked : List Text := []
  trace : List Event := []
  log : List Notice := []
  deriving DecidableEq, Repr, Inhabited

/-- A step on a state that may fail and keeps what it did. -/
abbrev Attempt (σ : Type) := ExceptT Failure (StateM σ)

namespace Attempt

variable {σ τ α : Type}

/-- The outcome of an attempt and the state after it. -/
def runFrom (attempt : Attempt σ α) (state : σ) : Except Failure α × σ :=
  (ExceptT.run attempt).run state

/-- The attempt with the given outcome and state after it. -/
def ofFunction (step : σ → Except Failure α × σ) : Attempt σ α :=
  ExceptT.mk (fun state => step state)

/-- An attempt on a part of the state. -/
def onPart (get : σ → τ) (set : τ → σ → σ) (attempt : Attempt τ α) : Attempt σ α :=
  ofFunction fun state =>
    let (outcome, part) := attempt.runFrom (get state)
    (outcome, set part state)

end Attempt

/-- A step at the desk. -/
abbrev DeskStep := Attempt Desk

namespace DeskStep

/-- Add an event to the trace. -/
def record (event : Event) : DeskStep Unit :=
  modify fun desk => { desk with trace := desk.trace ++ [event] }

/-- Add a notice to the log. -/
def note (notice : Notice) : DeskStep Unit :=
  modify fun desk => { desk with log := desk.log ++ [notice] }

/-- Ask a question and take the next reply. The question counts as asked even when there is no
reply left. -/
def ask (question : Text) : DeskStep Text :=
  Attempt.ofFunction fun desk =>
    let desk := { desk with asked := desk.asked ++ [question] }
    match desk.replies with
    | [] => (.error .outOfReplies, desk)
    | reply :: rest => (.ok reply, { desk with replies := rest })

/-- What a plugin answered. -/
def ofPlugin {α : Type} : Except Text α → DeskStep α
  | .ok value => pure value
  | .error message => throw (.pluginFailed message)

end DeskStep
end EnvFiles
