import EnvFiles.Proofs.Discovery.Workspaces
import EnvFiles.Proofs.Example.Reading
import EnvFiles.Proofs.Scan.Files
import EnvFiles.Proofs.Tree.LinkFree

/-!
# The workspace around a folder

Workspaces can lie in one another, and all those around a folder are at different depths of one
path. The workspaces found come in the order of their names, and the first one around the folder is
taken. So which one is taken hangs on the names: it is the innermost one only if the name of that
one comes first.
-/

namespace EnvFiles

/-- A folder is the one of a workspace or lies below it. -/
def Workspace.Around (workspace : Workspace) (folder : Path) : Prop :=
  Node.withoutUp workspace.path <+: Node.withoutUp folder

instance (workspace : Workspace) (folder : Path) : Decidable (workspace.Around folder) :=
  inferInstanceAs (Decidable (_ <+: _))

/-- How deep the folder of a workspace lies. -/
def Workspace.depth (workspace : Workspace) : Nat := (Node.withoutUp workspace.path).length

/-- One of some workspaces is around a folder, and none around it lies deeper. -/
structure IsInnermost (folder : Path) (workspaces : List Workspace) (workspace : Workspace) :
    Prop where
  mem : workspace ∈ workspaces
  around : workspace.Around folder
  deepest : ∀ other ∈ workspaces, other.Around folder → other.depth ≤ workspace.depth

/-- Of some workspaces the first one by name that is around a folder is taken. -/
structure TakesFirst (folder : Path) (workspaces : List Workspace) (found : Option Workspace) :
    Prop where
  /-- One is taken if one is around the folder. -/
  some_iff : found.isSome = true ↔ ∃ workspace ∈ workspaces, workspace.Around folder
  /-- The one that is taken is around the folder, and none before it is. -/
  first : ∀ workspace, found = some workspace ↔ ∃ before after,
    workspaces = before ++ workspace :: after ∧ workspace.Around folder ∧
      ∀ earlier ∈ before, ¬ earlier.Around folder
  /-- No other one around the folder has a name that comes before its own. -/
  name : ∀ workspace, found = some workspace → ∀ other ∈ workspaces, other.Around folder →
    Text.precedes workspace.name other.name = true
  /-- The innermost one is taken if its name comes first, unless another one has its name. -/
  innermost_iff : ∀ workspace, IsInnermost folder workspaces workspace →
    (∀ other ∈ workspaces, other.Around folder → other.name = workspace.name →
      other = workspace) →
      (found = some workspace ↔ ∀ other ∈ workspaces, other.Around folder →
        Text.precedes workspace.name other.name = true)

section Finding

variable {config : Config} {root : Node} {project : Path} {desk : Desk} {patterns : List Text}
  {folders : List Path} {workspaces : List Workspace}

/-- What a pattern leads to are packages. -/
theorem isPackage_of_packagesUnder {pattern : Text}
    (h : packagesUnder root project pattern = .ok folders) {package : Path}
    (hmem : package ∈ folders) : isPackage root package = true := by
  rw [packagesUnder] at h
  cases hglob : Glob.ofText pattern with
  | error failure =>
    rw [hglob] at h
    cases h
  | ok glob =>
    rw [hglob] at h
    cases h
    exact (List.mem_filter.mp hmem).2

/-- What patterns lead to are packages. -/
theorem isPackage_of_packagesFound (h : packagesFound root project patterns = .ok folders)
    {package : Path} (hmem : package ∈ folders) : isPackage root package = true := by
  rw [packagesFound] at h
  cases hlists : patterns.mapM (packagesUnder root project) with
  | error failure =>
    rw [hlists] at h
    cases h
  | ok lists =>
    rw [hlists] at h
    cases h
    rw [mem_firstOccurrences, List.mem_flatten] at hmem
    obtain ⟨found, hfound, hpackage⟩ := hmem
    have hall := mapM_eq_ok_iff.mp hlists
    clear hlists
    induction hall with
    | nil => cases hfound
    | cons hunder _ ih =>
      rcases List.mem_cons.mp hfound with rfl | hrest
      · exact isPackage_of_packagesUnder hunder hpackage
      · exact ih hrest

/-- By name, each workspace has a name that comes no later than that of one after it. -/
theorem pairwise_byName (workspaces : List Workspace) :
    (byName workspaces).Pairwise fun first second =>
      Text.precedes first.name second.name = true := by
  apply List.pairwise_mergeSort
  · exact fun _ _ _ => Text.precedes_trans
  · exact fun first second => Text.precedes_total first.name second.name

/-- A workspace that is found is the project or a package, and they are found by name. -/
theorem endsIn_discoverWorkspaces (config : Config) (root : Node) (project : Path) (desk : Desk) :
    (discoverWorkspaces config root project).EndsIn desk
      (fun found _ => (∀ workspace ∈ found, workspace.path = project ∨
          isPackage root workspace.path = true) ∧
        found.Pairwise fun first second => Text.precedes first.name second.name = true)
      fun _ _ => True := by
  rw [discoverWorkspaces, Attempt.endsIn_bind]
  refine Attempt.endsIn_of_forall _ (fun patterns after => ?_) fun _ _ => trivial
  rw [Attempt.endsIn_bind, Attempt.EndsIn, Attempt.runFrom_ofExcept]
  cases hfound : packagesFound root project patterns with
  | error failure => trivial
  | ok folders =>
    dsimp only
    split
    · refine (endsIn_singleWorkspace config root project).mono (fun found after h => ?_)
        fun _ _ h => h
      rcases h with rfl | rfl
      · exact ⟨by simp, List.Pairwise.nil⟩
      · exact ⟨by simp [workspaceAt], List.pairwise_singleton ..⟩
    · refine ⟨fun workspace hmem => Or.inr ?_, pairwise_byName _⟩
      obtain ⟨folder, hfolder, rfl⟩ := List.mem_map.mp (List.mem_mergeSort.mp hmem)
      exact isPackage_of_packagesFound hfound hfolder

/-- The folder of a package holds no character that no name holds. -/
theorem hasNull_eq_of_isPackage (hnames : root.NullFree) {package : Path}
    (h : isPackage root package = true) : package.hasNull = false := by
  rw [isPackage, Bool.and_eq_true] at h
  obtain ⟨node, hnode⟩ := Option.isSome_iff_exists.mp (Option.isSome_of_any h.1)
  rw [Node.lookup?] at hnode
  split at hnode
  · rename_i place there hwalk
    exact hnames.hasNull_eq hwalk
  · cases hnode

end Finding

section Taking

variable {root : Node} {folder : Path} {workspaces : List Workspace}

/-- Without links the first workspace around a folder is told by the paths. -/
theorem firstAround_eq (hfree : root.linkCount = 0)
    (hnull : ∀ workspace ∈ workspaces, workspace.path.hasNull = false) :
    firstAround root (Node.withoutUp folder) workspaces =
      .ok (workspaces.find? fun workspace => decide (workspace.Around folder)) := by
  induction workspaces with
  | nil => rfl
  | cons workspace rest ih =>
    have hrest := ih fun other hmem => hnull other (.tail _ hmem)
    rw [firstAround, Node.resolve_of_linkFree hfree (hnull workspace (.head _)),
      List.find?_cons]
    by_cases haround : workspace.Around folder
    · rw [decide_eq_true haround]
      change (if _ then _ else _) = _
      rw [below?_of_isPrefix haround]
      rfl
    · rw [decide_eq_false haround]
      change (if _ then _ else _) = _
      rw [below?_of_not_isPrefix haround]
      exact hrest

/-- In workspaces by name the first one around a folder is taken. -/
theorem takesFirst_find? (h : workspaces.Pairwise fun first second =>
      Text.precedes first.name second.name = true) :
    TakesFirst folder workspaces
      (workspaces.find? fun workspace => decide (workspace.Around folder)) := by
  have hname : ∀ workspace,
      workspaces.find? (fun workspace => decide (workspace.Around folder)) = some workspace →
        ∀ other ∈ workspaces, other.Around folder →
          Text.precedes workspace.name other.name = true := by
    intro workspace hfound other hmem haround
    obtain ⟨-, before, after, rfl, hbefore⟩ := List.find?_eq_some_iff_append.mp hfound
    rw [List.mem_append, List.mem_cons] at hmem
    rcases hmem with hearlier | rfl | hlater
    · simpa [haround] using hbefore other hearlier
    · exact Text.precedes_iff.mpr (Or.inl rfl)
    · exact (List.pairwise_cons.mp (List.pairwise_append.mp h).2.1).1 other hlater
  refine ⟨by simp, fun workspace => ?_, hname, fun workspace hinner hsame => ?_⟩
  · simp only [List.find?_eq_some_iff_append, decide_eq_true_eq, Bool.not_eq_true',
      decide_eq_false_iff_not]
    exact ⟨fun ⟨haround, before, after, heq, hbefore⟩ => ⟨before, after, heq, haround, hbefore⟩,
      fun ⟨before, after, heq, haround, hbefore⟩ => ⟨haround, before, after, heq, hbefore⟩⟩
  · refine ⟨hname workspace, fun hfirst => ?_⟩
    have hsome : (workspaces.find? fun workspace => decide (workspace.Around folder)).isSome := by
      rw [List.find?_isSome]
      exact ⟨workspace, hinner.mem, decide_eq_true hinner.around⟩
    obtain ⟨found, hfound⟩ := Option.isSome_iff_exists.mp hsome
    have hmem := List.mem_of_find?_eq_some hfound
    have haround : found.Around folder := by
      simpa using List.find?_some hfound
    have hsamename : found.name = workspace.name :=
      Text.precedes_antisymm (hname found hfound workspace hinner.mem hinner.around)
        (hfirst found hmem haround)
    rw [hfound, hsame found hmem haround hsamename]

end Taking

variable {config : Config} {root : Node} {project folder : Path} {desk : Desk}

/-- Without links the current workspace is looked for in those that are found. -/
theorem runFrom_currentWorkspace (hfree : root.linkCount = 0) (hfolder : folder.hasNull = false) :
    (currentWorkspace config root project folder).runFrom desk =
      match (discoverWorkspaces config root project).runFrom desk with
      | (.ok workspaces, after) => (firstAround root (Node.withoutUp folder) workspaces, after)
      | (.error failure, after) => (.error failure, after) := by
  rw [currentWorkspace, Node.resolve_of_linkFree hfree hfolder]
  change (discoverWorkspaces config root project >>= fun found => MonadExcept.ofExcept
    (firstAround root (Node.withoutUp folder) found) : DeskStep _).runFrom desk = _
  rw [Attempt.runFrom_bind]
  rcases (discoverWorkspaces config root project).runFrom desk with ⟨failure | found, after⟩
  · rfl
  · exact Attempt.runFrom_ofExcept _

/-- In a tree without links the current workspace of a folder is the first one by name of those
found around it, so it is the innermost one if no other one's name comes first. It is not told only
if the workspaces cannot be found. -/
theorem currentWorkspace_takesFirst (config : Config) (root : Node) (project folder : Path)
    (desk : Desk) (hfree : root.linkCount = 0) (hnames : root.NullFree)
    (hproject : project.hasNull = false) (hfolder : folder.hasNull = false) :
    match (discoverWorkspaces config root project).runFrom desk with
    | (.ok workspaces, after) => ∃ found,
      (currentWorkspace config root project folder).runFrom desk = (.ok found, after) ∧
        TakesFirst folder workspaces found
    | (.error failure, after) =>
      (currentWorkspace config root project folder).runFrom desk = (.error failure, after) := by
  have hends := endsIn_discoverWorkspaces config root project desk
  rw [runFrom_currentWorkspace hfree hfolder]
  rcases hrun : (discoverWorkspaces config root project).runFrom desk with
    ⟨failure | workspaces, after⟩
  · rfl
  · obtain ⟨hplaces, hsorted⟩ := hends.of_runFrom_ok hrun
    have hnull : ∀ workspace ∈ workspaces, workspace.path.hasNull = false := by
      intro workspace hmem
      rcases hplaces workspace hmem with hpath | hpackage
      · rw [hpath, hproject]
      · exact hasNull_eq_of_isPackage hnames hpackage
    refine ⟨_, ?_, takesFirst_find? hsorted⟩
    dsimp only
    rw [firstAround_eq hfree hnull]

section Fixed

/-- The package file of a package. -/
def packageFile : Text × Node := ("package.json", .file (Node.encode "\x7b\x7d"))

/-- A package that holds two others. -/
def packTree : Node := .folder [("b", .folder [
  packageFile, ("a", .folder [packageFile]), ("z", .folder [packageFile])])]

/-- A configuration that names the three of them. -/
def packConfig : Config := { project := { workspaces := { patterns := ["b/a", "b", "b/z"] } } }

/-- The workspace in a folder there. -/
def packAt (folder : Path) : Workspace := workspaceAt packConfig folder

/-- No name there holds the null character. -/
theorem nullFree_packTree : packTree.NullFree := by
  have hfile : packageFile.1.contains '\x00' = false ∧ packageFile.2.NullFree :=
    ⟨by decide, .file _⟩
  have hpackage : (Node.folder [packageFile]).NullFree := .folder (by simpa using hfile)
  have hholder : (Node.folder [packageFile, ("a", .folder [packageFile]),
      ("z", .folder [packageFile])]).NullFree := by
    refine .folder fun entry hentry => ?_
    simp only [List.mem_cons, List.not_mem_nil, or_false] at hentry
    rcases hentry with rfl | rfl | rfl
    · exact hfile
    · exact ⟨by decide, hpackage⟩
    · exact ⟨by decide, hpackage⟩
  refine .folder fun entry hentry => ?_
  obtain rfl := List.mem_singleton.mp hentry
  exact ⟨by decide, hholder⟩

/-- The three packages are found in the order of their names. -/
theorem discoverWorkspaces_packTree :
    (discoverWorkspaces packConfig packTree []).runFrom {} =
      (.ok [packAt ["b", "a"], packAt ["b"], packAt ["b", "z"]], {}) := by
  have hfound : packagesFound packTree [] ["b/a", "b", "b/z"] =
      .ok [["b", "a"], ["b"], ["b", "z"]] := by decide +kernel
  exact runFrom_discoverWorkspaces rfl hfound (List.cons_ne_nil _ _) (by decide)

/-- Each of the two inner packages is the innermost one around its own folder. -/
theorem isInnermost_packAt {folder : Path} (h : folder = ["b", "a"] ∨ folder = ["b", "z"]) :
    IsInnermost folder [packAt ["b", "a"], packAt ["b"], packAt ["b", "z"]] (packAt folder) := by
  rcases h with rfl | rfl <;> exact ⟨by decide, by decide, by decide⟩

/-- In the inner package whose name comes first the innermost workspace is the current one. -/
theorem currentWorkspace_takesFirst_inner :
    packTree.linkCount = 0 ∧ packTree.NullFree ∧
    (currentWorkspace packConfig packTree [] ["b", "a"]).runFrom {} =
      (.ok (some (packAt ["b", "a"])), {}) := by
  have htakes := currentWorkspace_takesFirst packConfig packTree [] ["b", "a"] {}
    (by decide +kernel) nullFree_packTree rfl rfl
  rw [discoverWorkspaces_packTree] at htakes
  obtain ⟨found, hrun, htaken⟩ := htakes
  have hinner := isInnermost_packAt (Or.inl rfl)
  have hfound : found = some (packAt ["b", "a"]) :=
    (htaken.innermost_iff _ hinner (by decide)).mpr (by decide)
  exact ⟨by decide +kernel, nullFree_packTree, hfound ▸ hrun⟩

/-- In the other one the outer workspace is taken, because its name comes before that of the
innermost one. -/
theorem currentWorkspace_outer :
    packTree.linkCount = 0 ∧ packTree.NullFree ∧ packTree.hasFolder ["b", "z"] = true ∧
    (discoverWorkspaces packConfig packTree []).runFrom {} =
      (.ok [packAt ["b", "a"], packAt ["b"], packAt ["b", "z"]], {}) ∧
    IsInnermost ["b", "z"] [packAt ["b", "a"], packAt ["b"], packAt ["b", "z"]]
      (packAt ["b", "z"]) ∧
    (currentWorkspace packConfig packTree [] ["b", "z"]).runFrom {} =
      (.ok (some (packAt ["b"])), {}) ∧
    ¬ IsInnermost ["b", "z"] [packAt ["b", "a"], packAt ["b"], packAt ["b", "z"]]
      (packAt ["b"]) := by
  have hfree : packTree.linkCount = 0 := by decide +kernel
  refine ⟨hfree, nullFree_packTree, by decide +kernel, discoverWorkspaces_packTree,
    isInnermost_packAt (Or.inr rfl), ?_, fun h => ?_⟩
  · rw [runFrom_currentWorkspace hfree rfl, discoverWorkspaces_packTree]
    dsimp only
    rw [firstAround_eq hfree (by decide)]
    rfl
  · exact absurd (h.deepest (packAt ["b", "z"]) (by decide) (by decide)) (by decide)

end Fixed
end EnvFiles
