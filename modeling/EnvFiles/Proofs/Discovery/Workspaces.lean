import EnvFiles.Discovery.Workspaces
import EnvFiles.Proofs.Attempt
import EnvFiles.Proofs.Table
import Mathlib.Data.List.Nodup

/-!
# The workspaces that are found

Workspaces are told apart by the folders where they stand: each folder is found once, and the
workspace is the one in that folder. The name of a workspace is the last component of its folder
alone, so two workspaces can have one name; those in folders side by side cannot.
-/

namespace EnvFiles

variable {config : Config} {disk : Node} {project : Path} {desk after : Desk}
  {workspaces : List Workspace}

/-- A project has no more than itself as its single workspace. -/
theorem endsIn_singleWorkspace (config : Config) (disk : Node) (project : Path) :
    (singleWorkspace config disk project).EndsIn desk
      (fun found _ => found = [] ∨ found = [workspaceAt config project]) fun _ _ => True := by
  rw [singleWorkspace, Attempt.endsIn_bind]
  refine Attempt.endsIn_of_forall _ (fun monorepo after => ?_) fun _ _ => trivial
  cases monorepo with
  | true => exact Or.inl rfl
  | false =>
    change (if _ then _ else _) = _ ∨ (if _ then _ else _) = _
    split
    · exact Or.inr rfl
    · exact Or.inl rfl

/-- The workspaces found are those in some folders, each folder once. -/
theorem perm_of_discoverWorkspaces
    (h : (discoverWorkspaces config disk project).runFrom desk = (.ok workspaces, after)) :
    ∃ folders : List Path, folders.Nodup ∧ workspaces.Perm (folders.map (workspaceAt config)) := by
  obtain ⟨patterns, middle, -, h⟩ := Attempt.exists_of_runFrom_bind h
  obtain ⟨found, middle', hfound, h⟩ := Attempt.exists_of_runFrom_bind h
  split at h
  · rcases (endsIn_singleWorkspace config disk project).of_runFrom_ok h with rfl | rfl
    · exact ⟨[], List.nodup_nil, .refl _⟩
    · exact ⟨[project], List.nodup_singleton _, .refl _⟩
  · rw [Attempt.runFrom_ofExcept, packagesFound] at hfound
    have hnodup : found.Nodup := by
      cases hlists : patterns.mapM (packagesUnder disk project) with
      | error failure =>
        rw [hlists] at hfound
        cases hfound
      | ok lists =>
        rw [hlists] at hfound
        cases hfound
        exact nodup_firstOccurrences _
    have hsame : workspaces = byName (found.map (workspaceAt config)) := by
      cases h
      rfl
    exact ⟨found, hnodup, hsame ▸ List.mergeSort_perm ..⟩

/-- Packages in the order of their names are found in that order. -/
theorem runFrom_discoverWorkspaces {patterns : List Text} {folders : List Path}
    (hpatterns : (projectPatterns config disk project).runFrom desk = (.ok patterns, after))
    (hfound : packagesFound disk project patterns = .ok folders) (hne : folders ≠ [])
    (hsorted : (folders.map (workspaceAt config)).Pairwise fun first second =>
      Text.precedes first.name second.name) :
    (discoverWorkspaces config disk project).runFrom desk =
      (.ok (folders.map (workspaceAt config)), after) := by
  rw [discoverWorkspaces, Attempt.runFrom_bind, hpatterns]
  dsimp only
  rw [Attempt.runFrom_bind, Attempt.runFrom_ofExcept, hfound]
  dsimp only
  rw [if_neg (by simpa using hne), byName, List.mergeSort_of_pairwise hsorted]
  rfl

/-- Workspaces that were found stand in different folders. -/
theorem nodup_of_discoverWorkspaces
    (h : (discoverWorkspaces config disk project).runFrom desk = (.ok workspaces, after)) :
    (workspaces.map Workspace.path).Nodup := by
  obtain ⟨folders, hnodup, hperm⟩ := perm_of_discoverWorkspaces h
  have hpaths : (folders.map (workspaceAt config)).map Workspace.path = folders := by
    rw [List.map_map]
    exact List.map_id _
  rw [(hperm.map Workspace.path).nodup_iff, hpaths]
  exact hnodup

/-- A workspace that was found is the one in its folder. -/
theorem eq_workspaceAt_of_discoverWorkspaces
    (h : (discoverWorkspaces config disk project).runFrom desk = (.ok workspaces, after))
    {workspace : Workspace} (hmem : workspace ∈ workspaces) :
    workspace = workspaceAt config workspace.path := by
  obtain ⟨folders, -, hperm⟩ := perm_of_discoverWorkspaces h
  obtain ⟨folder, -, rfl⟩ := List.mem_map.mp (hperm.mem_iff.mp hmem)
  rfl

/-- All workspaces stand side by side in one folder. -/
def SideBySide (workspaces : List Workspace) : Prop :=
  ∃ folder : Path, ∀ workspace ∈ workspaces, ∃ name : Text,
    name ≠ [] ∧ workspace.path = folder ++ [name]

/-- The name of a workspace is the last component of its folder. -/
theorem name_workspaceAt_concat (config : Config) (folder : Path) {name : Text} (h : name ≠ []) :
    (workspaceAt config (folder ++ [name])).name = name := by
  have hname : (folder ++ [name] : Path).name = name := by simp [Path.name]
  simp [workspaceAt, hname, h]

/-- Workspaces that were found side by side have different names. -/
theorem nodup_names_of_sideBySide
    (h : (discoverWorkspaces config disk project).runFrom desk = (.ok workspaces, after))
    (hside : SideBySide workspaces) : (workspaces.map Workspace.name).Nodup := by
  obtain ⟨folder, hside⟩ := hside
  have hpath : ∀ workspace ∈ workspaces, workspace.path = folder ++ [workspace.name] := by
    intro workspace hmem
    obtain ⟨name, hname, hpath⟩ := hside workspace hmem
    rw [eq_workspaceAt_of_discoverWorkspaces h hmem, hpath, name_workspaceAt_concat _ _ hname]
    rfl
  have hnodup : (workspaces.map Workspace.path).Nodup := nodup_of_discoverWorkspaces h
  rw [List.map_congr_left hpath, ← Function.comp_def (fun name => folder ++ [name]),
    ← List.map_map] at hnodup
  exact List.Nodup.of_map _ hnodup

end EnvFiles
