import EnvFiles.Proofs.Scan.Sightings

/-!
# The two parts of a workspace scan

The scan of a workspace visits the files below its source folder, and then those directly in the
workspace. The parts share no file, unless the source folder is the workspace itself or holds it,
with folders on the way that a scan enters. Then each file directly in the workspace is visited by
both parts and counts twice.
-/

namespace EnvFiles

open Node

/-- The source folder of a workspace. -/
def sourceOf (config : Config) (workspace : Path) : Path :=
  Path.join workspace config.project.workspaces.sourceDir

/-- The files that the scan of a workspace visits: those below its source folder and those directly
in it. -/
def scannedFiles (config : Config) (root : Node) (workspace : Path) : List SourceFile :=
  filesUnder config.scanning root (sourceOf config workspace) ++
    filesIn config.scanning root workspace

/-- The references that the visit records, at the place of its file. -/
def Visit.sightings (visit : Visit) : List Sighting := sightingsOfText visit.place visit.text

/-- The result counts every file once: it tells of the visits to one copy of each, so that no
reference at one position of a file is recorded twice. -/
def ScanResult.CountsOnce (result : ScanResult) (visits : List Visit) : Prop :=
  ∃ once, once ⊆ visits ∧
    once.map Visit.place = firstOccurrences (visits.map Visit.place) ∧
      result.Tells once ∧ ((once.flatMap Visit.sightings).map Sighting.spot).Nodup

/-- No links stand in the folder that a path leads to. -/
def Node.LinkFreeAt (root : Node) (path : Path) : Prop :=
  ∀ folder, root.lookup? path = some folder → folder.linkCount = 0

/-- A scan from the source folder comes to the workspace: it is the source folder itself or stands
below it, and the folders down to it are entered. -/
def Reenters (settings : ScanSettings) (root : Node) (source workspace : Path) : Prop :=
  ∃ top node between folder, root.walk source = .ok (.taken top node) ∧
    root.walk workspace = .ok (.taken (top ++ between) folder) ∧
      ∀ name ∈ between, settings.enters name = true

section Counts

variable {result : ScanResult} {visits : List Visit}

/-- Visits to different places meet no reference twice. -/
theorem nodup_map_spot_sightings (h : (visits.map Visit.place).Nodup) :
    ((visits.flatMap Visit.sightings).map Sighting.spot).Nodup := by
  have hplace : ∀ visit : Visit, ∀ spot ∈ visit.sightings.map Sighting.spot,
      spot.1 = visit.place := by
    intro visit spot hspot
    obtain ⟨sighting, hsighting, rfl⟩ := List.mem_map.mp hspot
    exact (mem_sightingsOfText_iff.mp hsighting).1
  rw [List.map_flatMap, List.nodup_flatMap]
  refine ⟨fun visit _ => nodup_map_spot_sightingsOfText visit.place visit.text, ?_⟩
  refine (List.pairwise_map.mp h).imp fun {first second} hne spot hfirst hsecond => hne ?_
  exact (hplace first spot hfirst).symm.trans (hplace second spot hsecond)

/-- A result that tells of visits counts every file once exactly when no file is visited
twice. -/
theorem ScanResult.Tells.countsOnce_iff (h : result.Tells visits) :
    result.CountsOnce visits ↔ (visits.map Visit.place).Nodup := by
  refine ⟨fun hcounts => ?_, fun hnodup => ?_⟩
  · obtain ⟨once, -, hplaces, htells, -⟩ := hcounts
    refine nodup_of_length_le_firstOccurrences (Nat.le_of_eq ?_)
    rw [← hplaces, List.length_map, List.length_map, ← h.files, htells.files]
  · exact ⟨visits, List.Subset.refl _, (firstOccurrences_of_nodup hnodup).symm, h,
      nodup_map_spot_sightings hnodup⟩

end Counts

section Parts

variable {settings : ScanSettings} {root node folder : Node} {path top workspace source : Path}
  {entries : List (Text × Node)} {file other : SourceFile}

/-- The files below a folder stand below the place of the folder. -/
theorem map_placed_filesUnder (h : root.WellNamed)
    (hwalk : root.walk path = .ok (.taken top node)) (settings : ScanSettings) :
    (filesUnder settings root path).map (SourceFile.placed root) =
      filesBelow settings top node := by
  have hnode := h.at? (at?_of_walkWithin hwalk)
  have hfound : root.lookup? path = some node := by rw [lookup?, hwalk]
  rw [filesUnder, hfound]
  dsimp only
  rw [filesBelow_eq_map hnode settings path, filesBelow_eq_map hnode settings top, List.map_map]
  refine List.map_congr_left fun file hfile => ?_
  obtain ⟨below, hpath, hsource⟩ := (mem_filesBelow_iff hnode).mp hfile
  rw [List.nil_append] at hpath
  have hfile := walk_append_of_at? hwalk hsource.at? (hsource.upPart_notMem hnode) (by simp)
  simp [SourceFile.placed, SourceFile.under, placeOf, hpath, hfile]

/-- Without links in a folder its entries stand at their names. -/
theorem walk_concat_of_mem (h : root.WellNamed)
    (hwalk : root.walk path = .ok (.taken top (.folder entries)))
    (hfree : (Node.folder entries).linkCount = 0) {entry : Text × Node} (hentry : entry ∈ entries) :
    root.walk (path ++ [entry.1]) = .ok (.taken (top ++ [entry.1]) entry.2) := by
  have hnamed := h.at? (at?_of_walkWithin hwalk)
  have hentry' := hnamed.named? hentry
  refine walk_append_of_at? hwalk ?_ ?_ ?_
  · simp [Node.at?, child?, hentry']
  · cases hnamed with
    | folder _ hup _ =>
      rintro hmem
      rw [List.mem_singleton] at hmem
      exact hup (hmem ▸ List.mem_map_of_mem hentry)
  · rintro target htarget
    have hle := linkCount_le_of_named? hentry'
    rw [htarget, linkCount] at hle
    rw [linkCount] at hfree
    omega

/-- The files directly in a folder without links are its source files there. -/
theorem mem_filesIn_iff (h : root.WellNamed)
    (hwalk : root.walk path = .ok (.taken top folder)) (hfree : folder.linkCount = 0) :
    file ∈ filesIn settings root path ↔ ∃ name, file.1 = path ++ [name] ∧
      root.placeOf file.1 = top ++ [name] ∧ IsSource settings folder [name] file.2 := by
  have hfound : root.lookup? path = some folder := by rw [lookup?, hwalk]
  obtain ⟨there, content⟩ := file
  cases folder with
  | file other => simp [filesIn, listing, hfound]
  | link target => simp [filesIn, listing, hfound]
  | folder entries =>
    have hperm := List.mergeSort_perm entries fun a b => Text.precedes a.1 b.1
    have hentry {name : Text} {child : Node} (hmem : (name, child) ∈ entries) :
        root.placeOf (path ++ [name]) = top ++ [name] ∧
          root.lookup? (path ++ [name]) = some child := by
      have hchild := walk_concat_of_mem h hwalk hfree hmem
      exact ⟨by rw [placeOf, hchild], by rw [lookup?, hchild]⟩
    change (there, content) ∈ (root.listing path).filterMap
      (fun entry => fileNamed? settings root path entry.1) ↔ _
    rw [listing, hfound]
    simp only [List.mem_filterMap, Prod.exists, hperm.mem_iff, isSource_singleton]
    constructor
    · rintro ⟨name, child, hmem, hread⟩
      obtain ⟨hplace, hlookup⟩ := hentry hmem
      rw [fileNamed?, hlookup] at hread
      cases child with
      | file other =>
        simp only [Option.ite_none_right_eq_some, Option.some.injEq, Prod.mk.injEq] at hread
        obtain ⟨htakes, rfl, rfl⟩ := hread
        exact ⟨name, rfl, hplace, (h.lookup? hfound).named? hmem, htakes⟩
      | link target => cases hread
      | folder inner => cases hread
    · rintro ⟨name, rfl, -, hnamed, htakes⟩
      rw [named?_eq_get?] at hnamed
      have hmem := Table.mem_of_get? hnamed
      refine ⟨name, _, hmem, ?_⟩
      rw [fileNamed?, (hentry hmem).2]
      simp [htakes]

/-- A scan that reenters the workspace finds every file directly in it. -/
theorem Reenters.subset (hreenters : Reenters settings root source workspace) (h : root.WellNamed)
    (hfree : root.LinkFreeAt workspace) :
    (filesIn settings root workspace).map (SourceFile.placed root) ⊆
      (filesUnder settings root source).map (SourceFile.placed root) := by
  obtain ⟨top, node, between, folder, hsource, hworkspace, henters⟩ := hreenters
  have hnode := at?_of_walkWithin hsource
  have hthere : node.at? between = some folder := by
    have hfolder := at?_of_walkWithin hworkspace
    rwa [at?_append, hnode] at hfolder
  intro file hfile
  obtain ⟨direct, hdirect, rfl⟩ := List.mem_map.mp hfile
  have hfound : root.lookup? workspace = some folder := by rw [lookup?, hworkspace]
  obtain ⟨name, -, hplace, hread⟩ := (mem_filesIn_iff h hworkspace (hfree _ hfound)).mp hdirect
  rw [map_placed_filesUnder h hsource, mem_filesBelow_iff (h.at? hnode)]
  refine ⟨between ++ [name], ?_, (isSource_append_iff hthere (by simp)).mpr ⟨henters, hread⟩⟩
  rw [← List.append_assoc]
  exact hplace

/-- If both parts find a file at one place, the scan reenters the workspace. -/
theorem reenters_of_mem (h : root.WellNamed) (hfree : root.LinkFreeAt workspace)
    (hfile : file ∈ (filesUnder settings root source).map (SourceFile.placed root))
    (hother : other ∈ (filesIn settings root workspace).map (SourceFile.placed root))
    (hplace : file.1 = other.1) : Reenters settings root source workspace := by
  obtain ⟨found, hfound, rfl⟩ := List.mem_map.mp hfile
  obtain ⟨direct, hdirect, rfl⟩ := List.mem_map.mp hother
  obtain ⟨node, hnode⟩ := exists_lookup?_of_mem_filesUnder hfound
  obtain ⟨folder, hfolder⟩ := exists_lookup?_of_mem_filesIn hdirect
  obtain ⟨top, hsource⟩ := exists_walk_of_lookup? hnode
  obtain ⟨place, hworkspace⟩ := exists_walk_of_lookup? hfolder
  rw [map_placed_filesUnder h hsource] at hfile
  obtain ⟨below, hbelow, hread⟩ := (mem_filesBelow_iff (h.lookup? hnode)).mp hfile
  obtain ⟨name, -, hname, -⟩ := (mem_filesIn_iff h hworkspace (hfree _ hfolder)).mp hdirect
  rcases List.eq_nil_or_concat below with rfl | ⟨between, last, rfl⟩
  · exact absurd rfl hread.ne_nil
  · -- The two places end in the same name, so the workspace stands where the folders lead.
    have hends : top ++ between ++ [last] = place ++ [name] := by
      rw [List.append_assoc, ← List.concat_eq_append, ← hbelow, hplace]
      exact hname
    obtain ⟨hplace, -⟩ := List.append_inj' hends rfl
    refine ⟨top, node, between, folder, hsource, hplace ▸ hworkspace, fun part hpart => ?_⟩
    refine hread.enters part ?_
    rw [Path.parent, List.concat_eq_append, List.dropLast_concat]
    exact hpart

/-- The files below one folder stand at different places. -/
theorem nodup_placed_filesUnder (h : root.WellNamed) (settings : ScanSettings) (path : Path) :
    (((filesUnder settings root path).map (SourceFile.placed root)).map Prod.fst).Nodup := by
  cases hfound : root.lookup? path with
  | none =>
    rw [filesUnder, hfound]
    exact List.nodup_nil
  | some node =>
    obtain ⟨top, hwalk⟩ := exists_walk_of_lookup? hfound
    rw [map_placed_filesUnder h hwalk]
    exact nodup_filesBelow (h.lookup? hfound) settings top

/-- So do those directly in a folder without links. -/
theorem nodup_placed_filesIn (h : root.WellNamed) (settings : ScanSettings)
    (hfree : root.LinkFreeAt path) :
    (((filesIn settings root path).map (SourceFile.placed root)).map Prod.fst).Nodup := by
  rw [List.map_map]
  cases hfound : root.lookup? path with
  | none =>
    rw [filesIn, listing, hfound]
    exact List.nodup_nil
  | some folder =>
    obtain ⟨top, hwalk⟩ := exists_walk_of_lookup? hfound
    refine List.pairwise_map.mpr
      ((List.pairwise_map.mp (nodup_filesIn h settings path)).imp_of_mem ?_)
    intro first second hfirst hsecond hne hplaces
    obtain ⟨name, hpath, hplace, -⟩ := (mem_filesIn_iff h hwalk (hfree _ hfound)).mp hfirst
    obtain ⟨name', hpath', hplace', -⟩ := (mem_filesIn_iff h hwalk (hfree _ hfound)).mp hsecond
    have hnames : top ++ [name] = top ++ [name'] := hplace.symm.trans (hplaces.trans hplace')
    rw [hpath, hpath', List.append_cancel_left hnames] at hne
    exact hne rfl

/-- A scan of a folder further down does not reenter the folder, if no links stand in it. -/
theorem not_reenters_append (parts : Path) (hparts : parts ≠ []) (hup : upPart ∉ parts)
    (hfree : root.LinkFreeAt workspace) :
    ¬ Reenters settings root (workspace ++ parts) workspace := by
  rintro ⟨top, node, between, folder, hsource, hworkspace, -⟩
  have hfound : root.lookup? workspace = some folder := by rw [lookup?, hworkspace]
  obtain ⟨left, hleft⟩ := exists_walkWithin_append hworkspace
  rw [walk, hleft true parts hparts] at hsource
  have htop := place_of_linkFree (fun below target => ?_) hup hsource
  · have hlength := congrArg List.length htop
    have hpositive := List.length_pos_iff.mpr hparts
    simp only [List.length_append] at hlength
    omega
  · rw [shapeAt, at?_append, at?_of_walkWithin hworkspace]
    exact shapeAt_ne_link (hfree _ hfound) below target

end Parts

section Scan

variable {settings : ScanSettings} {root : Node} {base source workspace : Path}
  {files : List SourceFile} {visit : Visit}

/-- Files at different places are visited at different places. -/
theorem nodup_map_place_visitsOf (base : Path)
    (h : ((files.map (SourceFile.placed root)).map Prod.fst).Nodup) :
    ((visitsOf root base files).map Visit.place).Nodup := by
  rw [map_place_visitsOf]
  exact h.sublist (List.filter_sublist.map Prod.fst)

/-- A scan that reenters the workspace visits every file directly in it that is text. -/
theorem Reenters.place_mem (hreenters : Reenters settings root source workspace)
    (h : root.WellNamed) (hfree : root.LinkFreeAt workspace)
    (hvisit : visit ∈ visitsOf root base (filesIn settings root workspace)) :
    visit.place ∈ (visitsOf root base (filesUnder settings root source)).map Visit.place := by
  have hplace := List.mem_map_of_mem (f := Visit.place) hvisit
  rw [map_place_visitsOf] at hplace ⊢
  exact List.map_subset _ (List.filter_subset _ (hreenters.subset h hfree)) hplace

/-- The two parts of a workspace scan visit no file twice, unless the scan reenters the workspace
and there is a file to visit in it. -/
theorem nodup_places_iff (settings : ScanSettings) (source : Path) (h : root.WellNamed)
    (hfree : root.LinkFreeAt workspace) :
    ((visitsOf root base
      (filesUnder settings root source ++ filesIn settings root workspace)).map
        Visit.place).Nodup ↔
      (Reenters settings root source workspace →
        visitsOf root base (filesIn settings root workspace) = []) := by
  rw [visitsOf_append, List.map_append, List.nodup_append]
  constructor
  · rintro ⟨-, -, hapart⟩ hreenters
    refine List.eq_nil_iff_forall_not_mem.mpr fun visit hvisit => ?_
    exact hapart _ (hreenters.place_mem h hfree hvisit) _ (List.mem_map_of_mem hvisit) rfl
  · intro hnone
    refine ⟨nodup_map_place_visitsOf base (nodup_placed_filesUnder h settings source),
      nodup_map_place_visitsOf base (nodup_placed_filesIn h settings hfree), ?_⟩
    rintro place hsource _ hdirect rfl
    have hreenters : Reenters settings root source workspace := by
      rw [map_place_visitsOf] at hsource hdirect
      obtain ⟨file, hfile, rfl⟩ := List.mem_map.mp hsource
      obtain ⟨other, hother, heq⟩ := List.mem_map.mp hdirect
      exact reenters_of_mem h hfree (List.mem_of_mem_filter hfile) (List.mem_of_mem_filter hother)
        heq.symm
    rw [hnone hreenters] at hdirect
    cases hdirect

/-- If the scan reenters the workspace, the files directly in it are visited twice. -/
theorem Reenters.count_place (hreenters : Reenters settings root source workspace)
    (h : root.WellNamed) (hfree : root.LinkFreeAt workspace)
    (hvisit : visit ∈ visitsOf root base (filesIn settings root workspace)) :
    ((visitsOf root base
      (filesUnder settings root source ++ filesIn settings root workspace)).map
        Visit.place).count visit.place = 2 := by
  have hsource := nodup_map_place_visitsOf base (nodup_placed_filesUnder h settings source)
  have hdirect := nodup_map_place_visitsOf base (nodup_placed_filesIn h settings hfree)
  rw [visitsOf_append, List.map_append, List.count_append,
    List.count_eq_one_of_mem hsource (hreenters.place_mem h hfree hvisit),
    List.count_eq_one_of_mem hdirect (List.mem_map_of_mem hvisit)]

end Scan

/-- The scan of a workspace without links returns, unless its source folder holds text that does
not lie below the workspace. Its result tells of the visits of both parts. It counts every file
once exactly if the scan does not reenter the workspace or no file directly in it is text. If the
scan reenters it, each of these files is visited twice. -/
theorem scanWorkspace_counts (config : Config) (root : Node) (workspace : Path) (desk : Desk)
    (h : root.WellNamed) (hfree : root.LinkFreeAt workspace) :
    (scanWorkspace config root workspace).EndsIn desk
      (fun result _ =>
        (∀ file ∈ scannedFiles config root workspace, ¬ Strays workspace file) ∧
        result.Tells (visitsOf root workspace (scannedFiles config root workspace)) ∧
        (result.CountsOnce (visitsOf root workspace (scannedFiles config root workspace)) ↔
          (Reenters config.scanning root (sourceOf config workspace) workspace →
            visitsOf root workspace (filesIn config.scanning root workspace) = [])) ∧
        (Reenters config.scanning root (sourceOf config workspace) workspace →
          ∀ visit ∈ visitsOf root workspace (filesIn config.scanning root workspace),
            ((visitsOf root workspace (scannedFiles config root workspace)).map
              Visit.place).count visit.place = 2))
      fun failure _ => failure = .outsideBase ∧
        ∃ file ∈ scannedFiles config root workspace, Strays workspace file := by
  refine (endsIn_scanFiles_strays root _ .empty desk).mono (fun result _ hdone => ?_)
    fun _ _ hfailed => hfailed
  obtain ⟨hstays, htells, -⟩ := hdone
  exact ⟨hstays, htells, htells.countsOnce_iff.trans (nodup_places_iff _ _ h hfree),
    fun hreenters _ hvisit => hreenters.count_place h hfree hvisit⟩

/-- A workspace with a source folder and a file of its own. -/
def partedTree : Node := .folder [
  ("web", .folder [
    ("a.ts", .file (encode "process.env.X")),
    ("src", .folder [("b.ts", .file (encode "process.env.X"))])])]

/-- In this tree each of the two files counts once. -/
theorem scanWorkspace_counts_parted :
    partedTree.WellNamed ∧ partedTree.linkCount = 0 ∧
    ∃ result after,
      (scanWorkspace {} partedTree ["web"]).runFrom {} = (.ok result, after) ∧
      result.CountsOnce (visitsOf partedTree ["web"] (scannedFiles {} partedTree ["web"])) := by
  have hnamed : partedTree.WellNamed := by
    repeat' first | exact .nil | exact .file _ | refine .cons (by decide) (by decide) ?_ ?_
  have hfree : partedTree.LinkFreeAt ["web"] := by
    intro folder hfound
    obtain rfl := Option.some.inj hfound
    rfl
  have hfiles : (scannedFiles {} partedTree ["web"]).map Prod.fst =
      [[("web" : Text), "src", "b.ts"], [("web" : Text), "a.ts"]] := by
    rw [scannedFiles, filesIn, listing_of_pairwise rfl (by decide)]
    decide +kernel
  have hbelow : ∀ path ∈ (scannedFiles {} partedTree ["web"]).map Prod.fst,
      [("web" : Text)] <+: path := by
    rw [hfiles]
    decide
  have hapart : ¬ Reenters ({} : Config).scanning partedTree (sourceOf {} ["web"]) ["web"] :=
    not_reenters_append ["src"] (by simp) (by decide) hfree
  have hends : (scanWorkspace {} partedTree ["web"]).EndsIn {}
      (fun result _ => result.CountsOnce
        (visitsOf partedTree ["web"] (scannedFiles {} partedTree ["web"])))
      fun _ _ => False := by
    refine (scanWorkspace_counts {} partedTree ["web"] {} hnamed hfree).mono
      (fun result _ hdone => ?_) fun failure _ hfailed => ?_
    · obtain ⟨-, -, honce, -⟩ := hdone
      exact honce.mpr fun hreenters => absurd hreenters hapart
    · obtain ⟨-, source, hsource, hstrays⟩ := hfailed
      exact hstrays.2 (hbelow _ (List.mem_map_of_mem hsource))
  exact ⟨hnamed, rfl, hends.returns⟩

/-- A workspace with one file of its own. -/
def ownFileTree : Node := .folder [
  ("web", .folder [("a.ts", .file (encode "process.env.X"))])]

/-- The settings by which the source folder of a workspace is the workspace itself. -/
def wholeWorkspace : Config := {
  project := { workspaces := { sourceDir := "." } } }

/-- With these settings the file counts twice, and so do its line and its one reference. -/
theorem scanWorkspace_counts_ownFile :
    ownFileTree.WellNamed ∧ ownFileTree.linkCount = 0 ∧
    ∃ result after,
      (scanWorkspace wholeWorkspace ownFileTree ["web"]).runFrom {} = (.ok result, after) ∧
      ownFileTree.files = [([("web" : Text), "a.ts"], encode "process.env.X")] ∧
      result.files = 2 ∧ result.lines = 2 ∧
      result.usages = [(("X" : Text), List.replicate 2 ⟨"a.ts", 1, "process.env.X"⟩)] ∧
      ¬ result.CountsOnce
        (visitsOf ownFileTree ["web"] (scannedFiles wholeWorkspace ownFileTree ["web"])) := by
  have hnamed : ownFileTree.WellNamed := by
    repeat' first | exact .nil | exact .file _ | refine .cons (by decide) (by decide) ?_ ?_
  have hrun : ((scanWorkspace wholeWorkspace ownFileTree ["web"]).runFrom {}).1 =
      .ok ⟨[(("X" : Text), List.replicate 2 ⟨"a.ts", 1, "process.env.X"⟩)], 2, 2⟩ := by
    decide +kernel
  refine ⟨hnamed, rfl, _, _, Attempt.runFrom_eq_of_fst hrun, rfl, rfl, rfl, rfl, ?_⟩
  rintro ⟨once, -, hplaces, htells, -⟩
  have hone : (firstOccurrences ((visitsOf ownFileTree ["web"]
      (scannedFiles wholeWorkspace ownFileTree ["web"])).map Visit.place)).length = 1 := by
    decide +kernel
  rw [← hplaces, List.length_map, ← htells.files] at hone
  cases hone

end EnvFiles
