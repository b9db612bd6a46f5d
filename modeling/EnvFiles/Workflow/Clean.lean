import EnvFiles.Store.Rehearsal
import EnvFiles.Workflow.Files

/-!
# Deleting values files

The values files of the workspaces, and of the root if asked for, are deleted if they exist, each
once. An interactive run asks before it deletes, unless it is forced.
-/

namespace EnvFiles

/-- What was deleted, or that it was declined. -/
structure CleanReport where
  deleted : List Path := []
  cancelled : Bool := false
  deriving DecidableEq, Repr, Inhabited

variable {σ : Type}

/-- The values files to delete: those of the candidates that the store holds, without
repetition. -/
def cleanTargets (store : Store σ) (candidates : List Path) (state : σ) : List Path :=
  firstOccurrences (candidates.filter fun path => store.holds path state)

/-- The question before deleting. -/
def cleanQuestion (count : Nat) : Text :=
  "Delete " ++ Text.ofNat count ++ " values file(s)? (y/N): "

/-- Whether a reply agrees to deleting. -/
def agreesToClean (reply : Text) : Bool := Text.lower (Text.trim reply) == ("y" : Text)

/-- Delete files in order. -/
def deleteAll (store : Store σ) : List Path → Run σ Unit
  | [] => pure ()
  | path :: rest => do
    Run.delete store path
    deleteAll store rest

/-- Delete the values files that the store holds. -/
def cleanIn (store : Store σ) (candidates : List Path) (asking : Bool) : Run σ CleanReport := do
  let targets := cleanTargets store candidates (← get).store
  if targets.isEmpty then return {}
  let agreed ← if asking then
      agreesToClean <$> Run.atDesk (DeskStep.ask (cleanQuestion targets.length))
    else pure true
  if agreed then
    deleteAll store targets
    return { deleted := targets }
  else return { cancelled := true }

/-- Delete the values files of workspaces. A rehearsal deletes nothing and reports what would be
deleted. -/
def clean (store : Store σ) (options : RunOptions) (workspaces : List Workspace)
    (includeRoot : Bool := true) (force : Bool := false) (rehearsal : Bool := false) :
    Run σ CleanReport :=
  let root := if includeRoot then [options.rootValues] else []
  let candidates := root ++ workspaces.map Workspace.valuesPath
  let asking := options.interactive && !force
  if rehearsal then do
    let (report, _) ← Run.rehearse (cleanIn store.rehearsed candidates asking)
    return report
  else cleanIn store candidates asking

end EnvFiles
