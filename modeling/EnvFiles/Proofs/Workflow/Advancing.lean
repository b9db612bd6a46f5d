import EnvFiles.Proofs.Attempt
import EnvFiles.Workflow.Sync

/-!
# Runs that advance as their reads and writes do

What holds of reading a path, and of writing to certain paths, holds of the runs that are put
together of these: reading schemas and values, and updating and filling values files.
-/

namespace EnvFiles.Attempt.Advance

variable {σ : Type} {store : Store σ} {targets : Path → Prop} {advance : Advance (World σ)}

/-- An advance that reads make, and writes to the given paths. -/
structure Allows (advance : Advance (World σ)) (store : Store σ) (targets : Path → Prop) :
    Prop where
  read : ∀ path, (Run.read store path).Advances advance
  write : ∀ path, targets path → ∀ text, (Run.write store path text).Advances advance

namespace Allows

variable (h : advance.Allows store targets)

include h

/-- Reading an example file. -/
theorem readExampleFile (patterns : List DirectivePattern) (path : Path) :
    (EnvFiles.readExampleFile store patterns path).Advances advance := by
  refine (h.read path).bind fun content => ?_
  cases content with
  | none => exact .pure _
  | some text => exact .ofExcept _

/-- Reading a values file. -/
theorem readValuesFile (path : Path) :
    (EnvFiles.readValuesFile store path).Advances advance :=
  (h.read path).bind fun _ => .pure _

/-- Reading the effective schema of a workspace. -/
theorem workspaceSchema (patterns : List DirectivePattern) (rootExample : Path)
    (workspace : Workspace) :
    (EnvFiles.workspaceSchema store patterns rootExample workspace).Advances advance := by
  refine (h.readExampleFile patterns rootExample).bind fun shared => ?_
  split
  · exact .pure _
  · exact (h.readExampleFile patterns _).bind fun _ => .pure _

/-- Reading several values files. -/
theorem readAllValues (paths : List Path) :
    (EnvFiles.readAllValues store paths).Advances advance := by
  induction paths with
  | nil => exact .pure _
  | cons path rest ih => exact (h.readValuesFile path).bind fun _ => ih.bind fun _ => .pure _

/-- Reading the names that workspaces own. -/
theorem readMembers (patterns : List DirectivePattern) (rootExample : Path)
    (workspaces : List Workspace) :
    (EnvFiles.readMembers store patterns rootExample workspaces).Advances advance := by
  induction workspaces with
  | nil => exact .pure _
  | cons workspace rest ih =>
    rw [EnvFiles.readMembers]
    split
    · exact (Advances.pure []).bind fun _ => ih.bind fun _ => .pure _
    · exact ((h.readExampleFile patterns _).map _).bind fun _ => ih.bind fun _ => .pure _

/-- Updating a values file. -/
theorem applyUpdates {path : Path} (hpath : targets path) (updates : Table Text Text)
    (schema : List Definition) :
    (EnvFiles.applyUpdates store path updates schema).Advances advance := by
  refine (h.readValuesFile path).bind fun file => ?_
  dsimp only
  split
  · exact .pure _
  · exact (h.write path hpath _).bind fun _ => .pure _

/-- Filling a values file. -/
theorem fillFile {path : Path} (hpath : targets path) (values : Table Text Text)
    (schema : List Definition) :
    (EnvFiles.fillFile store path values schema).Advances advance :=
  (h.readValuesFile path).bind fun _ => (h.applyUpdates hpath _ _).map _

/-- Distributing shared values. -/
theorem fillMembers (registry : Registry) (options : RunOptions) (values : Table Text Text)
    {members : List Member} (hpaths : ∀ member ∈ members, targets member.workspace.valuesPath) :
    (EnvFiles.fillMembers store registry options values members).Advances advance := by
  induction members with
  | nil => exact .pure _
  | cons member rest ih =>
    obtain ⟨hpath, hrest⟩ := List.forall_mem_cons.mp hpaths
    exact (h.workspaceSchema _ _ _).bind fun _ =>
      (h.fillFile hpath _ _).bind fun _ => ih hrest

end Allows

end EnvFiles.Attempt.Advance
