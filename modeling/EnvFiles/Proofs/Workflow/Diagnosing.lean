import EnvFiles.Proofs.Discovery.Workspaces
import EnvFiles.Proofs.Scan.Files
import EnvFiles.Proofs.Store.OnTree
import EnvFiles.Workflow.Diagnose

/-!
# What a diagnosis counts

A diagnosis with the usual settings scans every workspace and every shared package. Its report
tells of all visits of these scans, so a file counts once exactly when one visit only leads to
it. A workspace that is a shared package at the same time is scanned as both, and all files of
its source folder count twice. In a tree without links, and with paths that have no steps up,
there is one other reason for it: a scanned folder that stands in the source folder of another.
-/

namespace EnvFiles

open Node

/-- The source folder of a workspace or package. -/
def sourceFolder (base : Path) : Path := base ++ [("src" : Text)]

/-- The files that the scan of a workspace visits. -/
def workspaceFiles (disk : Node) (workspace : Path) : List SourceFile :=
  filesUnder {} disk (sourceFolder workspace) ++ filesIn {} disk workspace

/-- The files that the scan of a package visits. -/
def packageFiles (disk : Node) (package : Path) : List SourceFile :=
  if disk.hasFolder package then filesUnder {} disk (sourceFolder package) else []

/-- What stands in the folder of shared packages. -/
def packagePaths (disk : Node) (project : Path) : List Path :=
  (disk.listing (project ++ [("packages" : Text)])).map fun entry =>
    project ++ [("packages" : Text)] ++ [entry.1]

/-- The scans of a diagnosis in order: the base of each and the files that it visits. -/
def projectScans (disk : Node) (project : Path) (workspaces : List Workspace) :
    List (Path × List SourceFile) :=
  (workspaces.map fun workspace => (workspace.path, workspaceFiles disk workspace.path)) ++
    (packagePaths disk project).map fun package => (package, packageFiles disk package)

/-- The folders that a diagnosis scans from. -/
def scannedFolders (disk : Node) (project : Path) (workspaces : List Workspace) : List Path :=
  workspaces.map Workspace.path ++ packagePaths disk project

/-- The visits of some scans in order. -/
def visitsOfScans (disk : Node) (scans : List (Path × List SourceFile)) : List Visit :=
  scans.flatMap fun scan => visitsOf disk scan.1 scan.2

/-- All visits of a diagnosis. -/
def projectVisits (disk : Node) (project : Path) (workspaces : List Workspace) : List Visit :=
  visitsOfScans disk (projectScans disk project workspaces)

/-- The report tells of the visits: one file for each of them, the lines of all of them, and for
each missing name the references to it in order. -/
structure DiagnoseReport.Tells (report : DiagnoseReport) (registry : Registry)
    (declared : List Text) (visits : List Visit) : Prop where
  files : report.files = visits.length
  lines : report.lines = (visits.flatMap Visit.lines).length
  missing : report.diagnosis.missing.keys =
    (firstOccurrences ((visits.flatMap Visit.references).map Prod.fst)).filter fun name =>
      !declared.contains name && !(ignoredMissing {} registry).contains name
  evidence : ∀ entry ∈ report.diagnosis.missing,
    entry.2 = usagesOf entry.1 (visits.flatMap Visit.references)

/-- The report counts every file once: it tells of the visits to one copy of each. -/
def DiagnoseReport.CountsOnce (report : DiagnoseReport) (visits : List Visit) : Prop :=
  ∃ once, once ⊆ visits ∧
    once.map Visit.place = firstOccurrences (visits.map Visit.place) ∧
      report.files = once.length ∧
        report.lines = (once.flatMap Visit.lines).length ∧
          ∀ entry ∈ report.diagnosis.missing,
            entry.2 = usagesOf entry.1 (once.flatMap Visit.references)

/-- No workspace is a shared package with a file to visit in its source folder. -/
def NoneShared (disk : Node) (project : Path) (workspaces : List Workspace) : Prop :=
  ∀ package ∈ packagePaths disk project, package ∈ workspaces.map Workspace.path →
    visitsOf disk package (packageFiles disk package) = []

/-- There are no links in the tree and no steps up in the paths of a project, and no scanned folder
stands in the source folder of another. -/
structure ScannedApart (disk : Node) (project : Path) (workspaces : List Workspace) : Prop where
  linkFree : disk.linkCount = 0
  project_plain : upPart ∉ project
  plain : ∀ workspace ∈ workspaces, upPart ∉ workspace.path
  notInside : ∀ first ∈ scannedFolders disk project workspaces,
    ∀ second ∈ scannedFolders disk project workspaces, ¬ sourceFolder first <+: second

section Report

variable {registry : Registry} {declared : List Text}
  {visits : List Visit} {result : ScanResult}

/-- A report that tells of visits counts every file once exactly when no file is visited
twice. -/
theorem DiagnoseReport.Tells.countsOnce_iff {report : DiagnoseReport}
    (h : report.Tells registry declared visits) :
    report.CountsOnce visits ↔ (visits.map Visit.place).Nodup := by
  refine ⟨fun hcounts => ?_, fun hnodup => ?_⟩
  · obtain ⟨once, -, hplaces, hfiles, -⟩ := hcounts
    refine nodup_of_length_le_firstOccurrences (Nat.le_of_eq ?_)
    rw [← hplaces, List.length_map, List.length_map, ← h.files, hfiles]
  · exact ⟨visits, List.Subset.refl _, (firstOccurrences_of_nodup hnodup).symm, h.files, h.lines,
      h.evidence⟩

/-- The comparison of what scans came to with the declared names tells of their visits. -/
theorem ScanResult.Tells.report (h : result.Tells visits) (registry : Registry)
    (declared : List Text) :
    DiagnoseReport.Tells {
      files := result.files
      lines := result.lines
      declared
      diagnosis := diagnose result.usages declared (ignoredMissing {} registry) [] }
        registry declared visits where
  files := h.files
  lines := h.lines
  missing := by
    rw [← h.usages.keys]
    exact Table.keys_filter result.usages fun name =>
      !declared.contains name && !(ignoredMissing {} registry).contains name
  evidence entry hentry := h.usages.entry (List.mem_of_mem_filter hentry)

end Report

section Scans

variable {disk : Node} {project base : Path} {workspaces : List Workspace} {desk : Desk}
  {file : SourceFile} {found : ScanResult} {visits : List Visit}

/-- The files that a workspace scan visits stand directly in the base or below its source
folder. -/
theorem walk_of_mem_workspaceFiles (h : disk.WellNamed) (hfile : file ∈ workspaceFiles disk base) :
    ∃ below, upPart ∉ below ∧ file.1 = base ++ below ∧
      (file.1.parent = base ∨ sourceFolder base <+: file.1.parent) ∧
        ∃ place, disk.walk file.1 = .ok (.taken place (.file file.2)) := by
  rcases List.mem_append.mp hfile with hsource | hdirect
  · obtain ⟨below, hbelow, hup, hpath, hwalk⟩ := walk_of_mem_filesUnder h hsource
    have hsrc : upPart ∉ [("src" : Text)] := by decide
    rw [sourceFolder, List.append_assoc] at hpath
    refine ⟨[("src" : Text)] ++ below, fun hmem => (List.mem_append.mp hmem).elim hsrc hup, hpath,
      Or.inr ?_, hwalk⟩
    rw [hpath, Path.parent, List.dropLast_append_of_ne_nil (by simp),
      List.dropLast_append_of_ne_nil hbelow, ← List.append_assoc]
    exact List.prefix_append _ _
  · obtain ⟨name, hname, hpath, hwalk⟩ := walk_of_mem_filesIn h hdirect
    refine ⟨[name], by simpa using hname.symm, hpath, Or.inl ?_, hwalk⟩
    rw [hpath, Path.parent, List.dropLast_concat]

/-- A package scan visits no more than the scan of a workspace there would. -/
theorem packageFiles_sublist (disk : Node) (package : Path) :
    (packageFiles disk package).Sublist (workspaceFiles disk package) := by
  rw [packageFiles]
  split
  · exact List.sublist_append_left ..
  · exact List.nil_sublist _

/-- No scan finds more than a workspace scan from the same base would. -/
theorem sublist_of_mem_projectScans {scan : Path × List SourceFile}
    (h : scan ∈ projectScans disk project workspaces) :
    scan.2.Sublist (workspaceFiles disk scan.1) := by
  rcases List.mem_append.mp h with hmem | hmem
  · obtain ⟨workspace, -, rfl⟩ := List.mem_map.mp hmem
    exact List.Sublist.refl _
  · obtain ⟨package, -, rfl⟩ := List.mem_map.mp hmem
    exact packageFiles_sublist disk package

/-- A workspace scan finds every file once. -/
theorem nodup_workspaceFiles (h : disk.WellNamed) (base : Path) :
    ((workspaceFiles disk base).map Prod.fst).Nodup := by
  rw [workspaceFiles, List.map_append, List.nodup_append]
  refine ⟨nodup_filesUnder h _ _, nodup_filesIn h _ _, ?_⟩
  rintro path hsource _ hdirect rfl
  obtain ⟨file, hfile, rfl⟩ := List.mem_map.mp hsource
  obtain ⟨other, hother, heq⟩ := List.mem_map.mp hdirect
  obtain ⟨below, hbelow, -, hpath, -⟩ := walk_of_mem_filesUnder h hfile
  obtain ⟨name, -, hpath', -⟩ := walk_of_mem_filesIn h hother
  -- What stands below the source folder is at least two steps below the base.
  have hlength := congrArg List.length ((hpath'.symm.trans heq).trans hpath)
  have hpositive := List.length_pos_iff.mpr hbelow
  simp only [sourceFolder, List.length_append, List.length_singleton] at hlength
  omega

/-- The scan of a workspace tells of its visits. -/
theorem endsIn_scanWorkspace (h : disk.WellNamed) (base : Path) :
    (scanWorkspace {} disk base).EndsIn desk
      (fun result _ => result.Tells (visitsOf disk base (workspaceFiles disk base)))
        fun _ _ => False := by
  refine endsIn_scanFiles disk (fun file hfile => ?_) ScanResult.Tells.empty
  obtain ⟨below, -, hpath, -⟩ := walk_of_mem_workspaceFiles h hfile
  exact ⟨below, hpath.symm⟩

/-- The scans of workspaces tell of their visits, each of its own. -/
theorem endsIn_scanWorkspaces (h : disk.WellNamed) (workspaces : List Workspace) :
    (scanWorkspaces {} disk workspaces).EndsIn desk
      (fun results _ => List.Forall₂ ScanResult.Tells results (workspaces.map fun workspace =>
        visitsOf disk workspace.path (workspaceFiles disk workspace.path)))
          fun _ _ => False := by
  induction workspaces generalizing desk with
  | nil => exact List.Forall₂.nil
  | cons workspace rest ih =>
    rw [scanWorkspaces, Attempt.endsIn_bind]
    refine (endsIn_scanWorkspace h _).mono (fun result after hresult => ?_) fun _ _ h => h
    rw [Attempt.endsIn_bind]
    exact ih.mono (fun results _ hresults => List.Forall₂.cons hresult hresults) fun _ _ h => h

/-- The scans of packages tell of their visits, after those before. -/
theorem endsIn_scanPackages (h : disk.WellNamed) (packages : List Path)
    (hfound : found.Tells visits) :
    (scanPackages {} disk found packages).EndsIn desk
      (fun result _ => result.Tells (visits ++
        packages.flatMap fun package => visitsOf disk package (packageFiles disk package)))
          fun _ _ => False := by
  induction packages generalizing found visits desk with
  | nil =>
    change found.Tells (visits ++ [])
    rwa [List.append_nil]
  | cons package rest ih =>
    rw [scanPackages, Attempt.endsIn_bind, List.flatMap_cons, ← List.append_assoc]
    have hbase : ∀ file ∈ packageFiles disk package, package <+: file.1 := fun file hfile => by
      obtain ⟨below, -, hpath, -⟩ :=
        walk_of_mem_workspaceFiles h ((packageFiles_sublist disk package).subset hfile)
      exact ⟨below, hpath.symm⟩
    exact (endsIn_scanFiles disk hbase hfound).mono (fun _ _ hresult => ih hresult)
      fun _ _ h => h

/-- The folder of shared packages by the usual patterns. -/
theorem packageFolders_usual (project : Path) :
    packageFolders {} project = [project ++ [("packages" : Text)]] := rfl

/-- Results merged after others tell of all visits. -/
theorem tells_foldl {results : List ScanResult} {parts : List (List Visit)}
    (h : List.Forall₂ ScanResult.Tells results parts) (hfound : found.Tells visits) :
    (results.foldl ScanResult.append found).Tells (visits ++ parts.flatten) := by
  induction h generalizing found visits with
  | nil =>
    rw [List.flatten_nil, List.append_nil]
    exact hfound
  | cons hfirst hrest ih =>
    rw [List.foldl_cons, List.flatten_cons, ← List.append_assoc]
    exact ih (hfound.append hfirst)

/-- A diagnosis whose declared names can be read returns a report that tells of all visits. -/
theorem endsIn_diagnoseProject {σ : Type} {store : Store σ} {registry : Registry}
    {world : World σ} {declared : List Text} (h : disk.WellNamed)
    (hdeclared : ((declaredNames store registry []
      (Path.join project ({} : Config).project.exampleName ::
        workspaces.map Workspace.examplePath)).runFrom world).1 = .ok declared) :
    (diagnoseProject store disk registry {} project workspaces).EndsIn world
      (fun report _ => report.Tells registry declared (projectVisits disk project workspaces))
        fun _ _ => False := by
  have hread := Attempt.runFrom_eq_of_fst hdeclared
  rw [diagnoseProject, Attempt.endsIn_bind, Attempt.EndsIn, hread]
  simp only
  rw [Attempt.endsIn_bind, Run.endsIn_atDesk]
  refine (endsIn_scanWorkspaces h workspaces).mono (fun results after hresults => ?_)
    fun _ _ h => h
  rw [Attempt.endsIn_bind, Run.endsIn_atDesk]
  refine Attempt.EndsIn.mono (endsIn_scanPackages h _ ScanResult.Tells.empty)
    (fun packages after hpackages => ?_) fun _ _ h => h
  have hvisits : projectVisits disk project workspaces =
      ([] ++ (workspaces.map fun workspace =>
        visitsOf disk workspace.path (workspaceFiles disk workspace.path)).flatten) ++
          ([] ++ (packagePaths disk project).flatMap fun package =>
            visitsOf disk package (packageFiles disk package)) := by
    rw [projectVisits, visitsOfScans, projectScans, List.flatMap_append, List.flatMap_map,
      List.flatMap_map, List.flatMap_def (l := workspaces)]
    rfl
  have hmerge : ScanResult.merge (results ++ [packages]) =
      (results.foldl ScanResult.append {}).append packages := List.foldl_concat ..
  rw [packageFolders_usual, List.flatMap_singleton] at hpackages
  rw [Attempt.endsIn_pure, hmerge, hvisits]
  exact ((tells_foldl hresults ScanResult.Tells.empty).append hpackages).report registry declared

end Scans

section Places

variable {disk : Node} {project : Path} {workspaces : List Workspace}

/-- Every visit reads the file at its place. -/
theorem contentAt_of_mem_visitsOf {base : Path} {files : List SourceFile} {visit : Visit}
    (hwalk : ∀ file ∈ files, ∃ place, disk.walk file.1 = .ok (.taken place (.file file.2)))
    (hvisit : visit ∈ visitsOf disk base files) :
    disk.contentAt visit.place = .ok (some visit.text) := by
  obtain ⟨file, hfile, hvisit⟩ := List.mem_filterMap.mp hvisit
  obtain ⟨place, hplace⟩ := hwalk file hfile
  cases hdecode : Node.decode file.2 with
  | error failure => simp [hdecode] at hvisit
  | ok text =>
    simp only [hdecode, Option.some.injEq] at hvisit
    subst hvisit
    have hthere : disk.placeOf file.1 = place := by rw [placeOf, hplace]
    rw [hthere, contentAt, shapeAt, at?_of_walkWithin hplace]
    change (Node.decode file.2).map _ = _
    rw [hdecode]
    rfl

/-- Where paths spell the places that they lead to, the places visited are some of the paths. -/
theorem map_place_visitsOf_sublist {base : Path} {files : List SourceFile}
    (h : ∀ file ∈ files, disk.placeOf file.1 = file.1) :
    ((visitsOf disk base files).map Visit.place).Sublist (files.map Prod.fst) := by
  rw [map_place_visitsOf]
  refine (List.filter_sublist.map Prod.fst).trans ?_
  have hpaths : (files.map (SourceFile.placed disk)).map Prod.fst = files.map Prod.fst := by
    rw [List.map_map]
    exact List.map_congr_left h
  rw [hpaths]

/-- A place directly in a base or below its source folder belongs to one base only, if no base
stands in the source folder of the other. -/
theorem base_unique {first second place : Path}
    (hfirst : place = first ∨ sourceFolder first <+: place)
    (hsecond : place = second ∨ sourceFolder second <+: place)
    (hapart : ¬ sourceFolder first <+: second) (hapart' : ¬ sourceFolder second <+: first) :
    first = second := by
  rcases hfirst with rfl | hfirst
  · rcases hsecond with heq | hsecond
    · exact heq
    · exact absurd hsecond hapart'
  · rcases hsecond with rfl | hsecond
    · exact absurd hfirst hapart
    · -- Of two source folders above one place one is the other or stands in the other.
      rcases List.prefix_or_prefix_of_prefix hfirst hsecond with hprefix | hprefix
      · rcases List.prefix_concat_iff.mp hprefix with heq | hbelow
        · exact List.append_cancel_right heq
        · exact absurd hbelow hapart
      · rcases List.prefix_concat_iff.mp hprefix with heq | hbelow
        · exact (List.append_cancel_right heq).symm
        · exact absurd hbelow hapart'

/-- The packages are distinct and have no steps up but those of the project. -/
theorem nodup_packagePaths (h : disk.WellNamed) (project : Path) :
    (packagePaths disk project).Nodup ∧
      (upPart ∉ project → ∀ package ∈ packagePaths disk project, upPart ∉ package) := by
  obtain ⟨hnodup, hup⟩ := nodup_listing h (project ++ [("packages" : Text)])
  refine ⟨?_, fun hproject package hpackage => ?_⟩
  · refine List.pairwise_map.mpr ((List.pairwise_map.mp hnodup).imp fun hne heq => hne ?_)
    exact (List.append_cancel_left heq |> List.cons.inj).1
  · obtain ⟨entry, hentry, rfl⟩ := List.mem_map.mp hpackage
    have hname : upPart ≠ entry.1 := fun heq => hup (heq ▸ List.mem_map_of_mem hentry)
    have hpackages : upPart ≠ ("packages" : Text) := by decide
    rw [List.mem_append, List.mem_append, List.mem_singleton, List.mem_singleton]
    exact fun hmem => hmem.elim (fun hmem => hmem.elim hproject hpackages) hname

/-- The visits of a workspace that is a shared package too, and of the package. -/
theorem two_le_count_of_shared {package : Path} {visit : Visit}
    (hpackage : package ∈ packagePaths disk project)
    (hworkspace : package ∈ workspaces.map Workspace.path)
    (hvisit : visit ∈ visitsOf disk package (packageFiles disk package)) :
    2 ≤ ((projectVisits disk project workspaces).map Visit.place).count visit.place := by
  obtain ⟨workspace, hmem, rfl⟩ := List.mem_map.mp hworkspace
  have hsub := (packageFiles_sublist disk workspace.path).subset
  have hagain : visit ∈ visitsOf disk workspace.path (workspaceFiles disk workspace.path) := by
    obtain ⟨file, hfile, hvisit⟩ := List.mem_filterMap.mp hvisit
    exact List.mem_filterMap.mpr ⟨file, hsub hfile, hvisit⟩
  have hfirst : visit ∈ visitsOfScans disk (workspaces.map fun workspace =>
      (workspace.path, workspaceFiles disk workspace.path)) :=
    List.mem_flatMap.mpr ⟨_, List.mem_map_of_mem hmem, hagain⟩
  have hsecond : visit ∈ visitsOfScans disk ((packagePaths disk project).map fun package =>
      (package, packageFiles disk package)) :=
    List.mem_flatMap.mpr ⟨_, List.mem_map_of_mem hpackage, hvisit⟩
  have hone := List.count_pos_iff.mpr (List.mem_map_of_mem (f := Visit.place) hfirst)
  have hother := List.count_pos_iff.mpr (List.mem_map_of_mem (f := Visit.place) hsecond)
  rw [projectVisits, projectScans, visitsOfScans, List.flatMap_append, List.map_append,
    List.count_append]
  exact Nat.add_le_add hone hother

/-- The scans start from the scanned folders. -/
theorem map_fst_projectScans (disk : Node) (project : Path) (workspaces : List Workspace) :
    (projectScans disk project workspaces).map Prod.fst =
      scannedFolders disk project workspaces := by
  simp [projectScans, scannedFolders, Function.comp_def]

/-- Folders that stand apart have no steps up in their paths. -/
theorem ScannedApart.upPart_notMem (hapart : ScannedApart disk project workspaces)
    (h : disk.WellNamed) {base : Path} (hbase : base ∈ scannedFolders disk project workspaces) :
    upPart ∉ base := by
  rcases List.mem_append.mp hbase with hworkspace | hpackage
  · obtain ⟨workspace, hmem, rfl⟩ := List.mem_map.mp hworkspace
    exact hapart.plain workspace hmem
  · exact (nodup_packagePaths h project).2 hapart.project_plain base hpackage

/-- So a file that a scan finds has no path but the place where it stands, which is directly in
the base or below its source folder. -/
theorem ScannedApart.placeOf_eq (hapart : ScannedApart disk project workspaces)
    (h : disk.WellNamed) {scan : Path × List SourceFile}
    (hscan : scan ∈ projectScans disk project workspaces) {file : SourceFile}
    (hfile : file ∈ scan.2) :
    disk.placeOf file.1 = file.1 ∧
      (file.1.parent = scan.1 ∨ sourceFolder scan.1 <+: file.1.parent) := by
  obtain ⟨below, hup, hpath, hwithin, place, hwalk⟩ :=
    walk_of_mem_workspaceFiles h ((sublist_of_mem_projectScans hscan).subset hfile)
  have hbase : scan.1 ∈ scannedFolders disk project workspaces :=
    map_fst_projectScans disk project workspaces ▸ List.mem_map_of_mem hscan
  have hplain : upPart ∉ file.1 := by
    rw [hpath]
    exact fun hmem => (List.mem_append.mp hmem).elim (hapart.upPart_notMem h hbase) hup
  refine ⟨?_, hwithin⟩
  rw [placeOf, hwalk]
  exact place_of_linkFree (fun below => shapeAt_ne_link hapart.linkFree _) hplain hwalk

/-- The places that a scan visits are paths that it finds. -/
theorem ScannedApart.map_place_sublist (hapart : ScannedApart disk project workspaces)
    (h : disk.WellNamed) {scan : Path × List SourceFile}
    (hscan : scan ∈ projectScans disk project workspaces) :
    ((visitsOf disk scan.1 scan.2).map Visit.place).Sublist (scan.2.map Prod.fst) :=
  map_place_visitsOf_sublist fun _ hfile => (hapart.placeOf_eq h hscan hfile).1

/-- Scans from different folders that stand apart visit different places. -/
theorem ScannedApart.disjoint (hapart : ScannedApart disk project workspaces)
    (h : disk.WellNamed) {first second : Path × List SourceFile}
    (hfirst : first ∈ projectScans disk project workspaces)
    (hsecond : second ∈ projectScans disk project workspaces) (hne : first.1 ≠ second.1) :
    List.Disjoint ((visitsOf disk first.1 first.2).map Visit.place)
      ((visitsOf disk second.1 second.2).map Visit.place) := by
  intro place hplace hother
  have hbases := map_fst_projectScans disk project workspaces
  have hbase := hbases ▸ List.mem_map_of_mem (f := Prod.fst) hfirst
  have hbase' := hbases ▸ List.mem_map_of_mem (f := Prod.fst) hsecond
  obtain ⟨file, hfile, rfl⟩ :=
    List.mem_map.mp ((hapart.map_place_sublist h hfirst).subset hplace)
  obtain ⟨other, hfile', heq⟩ :=
    List.mem_map.mp ((hapart.map_place_sublist h hsecond).subset hother)
  have hwithin := (hapart.placeOf_eq h hsecond hfile').2
  rw [heq] at hwithin
  exact hne (base_unique (hapart.placeOf_eq h hfirst hfile).2 hwithin
    (hapart.notInside _ hbase _ hbase') (hapart.notInside _ hbase' _ hbase))

/-- Scans from folders that stand apart visit no file twice, if no workspace is shared. -/
theorem ScannedApart.nodup (hapart : ScannedApart disk project workspaces) (h : disk.WellNamed)
    (hnodup : (workspaces.map Workspace.path).Nodup)
    (hnone : NoneShared disk project workspaces) :
    ((projectVisits disk project workspaces).map Visit.place).Nodup := by
  rw [projectVisits, visitsOfScans, List.map_flatMap, List.nodup_flatMap]
  refine ⟨fun scan hscan => ?_, ?_⟩
  · have hfiles := (sublist_of_mem_projectScans hscan).map Prod.fst
    exact ((nodup_workspaceFiles h scan.1).sublist hfiles).sublist
      (hapart.map_place_sublist h hscan)
  · have hworkspace {workspace : Workspace} (hmem : workspace ∈ workspaces) :
        (workspace.path, workspaceFiles disk workspace.path) ∈
          projectScans disk project workspaces :=
      List.mem_append_left _ (List.mem_map_of_mem hmem)
    have hpackage {package : Path} (hmem : package ∈ packagePaths disk project) :
        (package, packageFiles disk package) ∈ projectScans disk project workspaces :=
      List.mem_append_right _ (List.mem_map_of_mem hmem)
    refine List.pairwise_append.mpr ⟨List.pairwise_map.mpr ?_, List.pairwise_map.mpr ?_, ?_⟩
    · exact (List.pairwise_map.mp hnodup).imp_of_mem fun hfirst hsecond hne =>
        hapart.disjoint h (hworkspace hfirst) (hworkspace hsecond) hne
    · exact (nodup_packagePaths h project).1.imp_of_mem fun hfirst hsecond hne =>
        hapart.disjoint h (hpackage hfirst) (hpackage hsecond) hne
    · intro first hfirst second hsecond
      obtain ⟨workspace, hmem, rfl⟩ := List.mem_map.mp hfirst
      obtain ⟨package, hmem', rfl⟩ := List.mem_map.mp hsecond
      by_cases hsame : workspace.path = package
      · change List.Disjoint _
          ((visitsOf disk package (packageFiles disk package)).map Visit.place)
        rw [hnone package hmem' (hsame ▸ List.mem_map_of_mem hmem)]
        exact List.disjoint_nil_right _
      · exact hapart.disjoint h (hworkspace hmem) (hpackage hmem') hsame

end Places

/-- A diagnosis with the usual settings returns as soon as the declared names can be read, and
its report tells of every visit to a file. So it counts each file once exactly when it visits
none twice. It does visit a file twice when a workspace is a shared package with a file in its
source folder, and where the scanned folders stand apart this is the only way. -/
theorem diagnoseProject_counts {σ : Type} (store : Store σ) (disk : Node) (registry : Registry)
    (project : Path) (workspaces : List Workspace) (declared : List Text) (desk after : Desk)
    (world : World σ) (hnamed : disk.WellNamed)
    (hfound : (discoverWorkspaces {} disk project).runFrom desk = (.ok workspaces, after))
    (hdeclared : ((declaredNames store registry []
      (Path.join project ({} : Config).project.exampleName ::
        workspaces.map Workspace.examplePath)).runFrom world).1 = .ok declared) :
    ∃ report final,
      (diagnoseProject store disk registry {} project workspaces).runFrom world =
        (.ok report, final) ∧
      report.Tells registry declared (projectVisits disk project workspaces) ∧
      (∀ visit ∈ projectVisits disk project workspaces,
        disk.contentAt visit.place = .ok (some visit.text)) ∧
      (report.CountsOnce (projectVisits disk project workspaces) ↔
        ((projectVisits disk project workspaces).map Visit.place).Nodup) ∧
      (report.CountsOnce (projectVisits disk project workspaces) →
        NoneShared disk project workspaces) ∧
      (ScannedApart disk project workspaces → NoneShared disk project workspaces →
        report.CountsOnce (projectVisits disk project workspaces)) := by
  obtain ⟨report, final, hrun, htells⟩ := (endsIn_diagnoseProject hnamed hdeclared).returns
  have hcounts := htells.countsOnce_iff
  refine ⟨report, final, hrun, htells, fun visit hvisit => ?_, hcounts, ?_, fun hapart hnone => ?_⟩
  · obtain ⟨scan, hscan, hvisit⟩ := List.mem_flatMap.mp hvisit
    refine contentAt_of_mem_visitsOf (fun file hfile => ?_) hvisit
    obtain ⟨-, -, -, -, hwalk⟩ :=
      walk_of_mem_workspaceFiles hnamed ((sublist_of_mem_projectScans hscan).subset hfile)
    exact hwalk
  · intro honce package hpackage hworkspace
    refine List.eq_nil_iff_forall_not_mem.mpr fun visit hvisit => ?_
    have htwice := two_le_count_of_shared hpackage hworkspace hvisit
    have hatMost := List.nodup_iff_count_le_one.mp (hcounts.mp honce) visit.place
    omega
  · exact hcounts.mpr (hapart.nodup hnamed (nodup_of_discoverWorkspaces hfound) hnone)

/-- A workspace and a package that is none. -/
def apartTree : Node := .folder [
  ("apps", .folder [("web", .folder [
    ("package.json", .file (encode "{}")),
    ("src", .folder [("index.ts", .file (encode "process.env.X"))])])]),
  ("packages", .folder [("db", .folder [
    ("src", .folder [("client.ts", .file (encode "process.env.X"))])])])]

/-- The names in this tree are distinct. -/
theorem wellNamed_apartTree : apartTree.WellNamed := by
  repeat' first | exact .nil | exact .file _ | refine .cons (by decide) (by decide) ?_ ?_

/-- In this tree each file counts once. -/
theorem diagnoseProject_counts_apart :
    ∃ report final,
      (diagnoseProject treeStore apartTree {} {} [] [workspaceAt {} ["apps", "web"]]).runFrom
        ⟨apartTree, {}⟩ = (.ok report, final) ∧
      report.CountsOnce (projectVisits apartTree [] [workspaceAt {} ["apps", "web"]]) := by
  have hfound : ((discoverWorkspaces {} apartTree []).runFrom {}).1 =
      .ok [workspaceAt {} ["apps", "web"]] := by decide +kernel
  have hdeclared : ((declaredNames treeStore {} []
      (Path.join [] ({} : Config).project.exampleName ::
        [workspaceAt {} ["apps", "web"]].map Workspace.examplePath)).runFrom
          ⟨apartTree, {}⟩).1 = .ok [] := by decide +kernel
  have hapart : ScannedApart apartTree [] [workspaceAt {} ["apps", "web"]] := {
    linkFree := rfl
    project_plain := by decide
    plain := by decide
    notInside := by decide +kernel }
  have hnone : NoneShared apartTree [] [workspaceAt {} ["apps", "web"]] := by
    have hnotShared : ∀ package ∈ packagePaths apartTree [],
        package ∉ [workspaceAt {} ["apps", "web"]].map Workspace.path := by decide +kernel
    exact fun package hpackage hworkspace => absurd hworkspace (hnotShared package hpackage)
  obtain ⟨report, final, hrun, -, -, -, -, honce⟩ :=
    diagnoseProject_counts treeStore apartTree {} [] _ [] {} _ ⟨apartTree, {}⟩
      wellNamed_apartTree (Attempt.runFrom_eq_of_fst hfound) hdeclared
  exact ⟨report, final, hrun, honce hapart hnone⟩

/-- A workspace that is a shared package too. -/
def sharedTree : Node := .folder [
  ("lerna.json", .file (encode "{}")),
  ("packages", .folder [("ui", .folder [
    ("package.json", .file (encode "{}")),
    ("src", .folder [("a.ts", .file (encode "process.env.X"))])])])]

/-- The names in this tree are distinct. -/
theorem wellNamed_sharedTree : sharedTree.WellNamed := by
  repeat' first | exact .nil | exact .file _ | refine .cons (by decide) (by decide) ?_ ?_

/-- In this tree a diagnosis visits the one source file as part of the workspace and as part of
the package. -/
theorem projectVisits_sharedTree :
    projectVisits sharedTree [] [workspaceAt {} ["packages", "ui"]] =
      List.replicate 2 ⟨["packages", "ui", "src", "a.ts"], "src/a.ts", "process.env.X"⟩ := by
  have hdirect : filesIn {} sharedTree ["packages", "ui"] = [] := by
    rw [filesIn, listing_of_pairwise rfl (by decide)]
    decide +kernel
  change visitsOf sharedTree ["packages", "ui"]
    (filesUnder {} sharedTree (sourceFolder ["packages", "ui"]) ++
      filesIn {} sharedTree ["packages", "ui"]) ++
        visitsOfScans sharedTree ((packagePaths sharedTree []).map fun package =>
          (package, packageFiles sharedTree package)) = _
  rw [hdirect]
  decide +kernel

/-- There the file and its line are counted twice, and so is its one reference. -/
theorem diagnoseProject_counts_shared :
    sharedTree.WellNamed ∧
    ∃ workspaces desk report final,
      (discoverWorkspaces {} sharedTree []).runFrom {} = (.ok workspaces, desk) ∧
      (diagnoseProject treeStore sharedTree {} {} [] workspaces).runFrom ⟨sharedTree, {}⟩ =
        (.ok report, final) ∧
      (firstOccurrences ((projectVisits sharedTree [] workspaces).map Visit.place)).length = 1 ∧
      report.files = 2 ∧ report.lines = 2 ∧
      report.diagnosis.missing =
        [(("X" : Text), List.replicate 2 ⟨"src/a.ts", 1, "process.env.X"⟩)] ∧
      ¬ report.CountsOnce (projectVisits sharedTree [] workspaces) := by
  have hfound : ((discoverWorkspaces {} sharedTree []).runFrom {}).1 =
      .ok [workspaceAt {} ["packages", "ui"]] := by decide +kernel
  have hdeclared : ((declaredNames treeStore {} []
      (Path.join [] ({} : Config).project.exampleName ::
        [workspaceAt {} ["packages", "ui"]].map Workspace.examplePath)).runFrom
          ⟨sharedTree, {}⟩).1 = .ok [] := by decide +kernel
  obtain ⟨report, final, hrun, htells⟩ :=
    (endsIn_diagnoseProject wellNamed_sharedTree hdeclared).returns
  have honce := htells.countsOnce_iff
  rw [projectVisits_sharedTree] at htells honce
  refine ⟨wellNamed_sharedTree, _, _, report, final, Attempt.runFrom_eq_of_fst hfound, hrun, ?_,
    htells.files, htells.lines.trans (by decide +kernel), ?_, ?_⟩
  · rw [projectVisits_sharedTree]
    decide +kernel
  · have hkeys : report.diagnosis.missing.keys = ["X"] :=
      htells.missing.trans (by decide +kernel)
    obtain ⟨entry, hentry, hname⟩ := List.map_eq_singleton_iff.mp hkeys
    have hevidence := htells.evidence entry (hentry ▸ List.mem_singleton_self entry)
    rw [hname] at hevidence
    rw [hentry]
    exact congrArg (fun entry => [entry]) (Prod.ext hname (hevidence.trans (by decide +kernel)))
  · rw [projectVisits_sharedTree, honce]
    decide +kernel

end EnvFiles
