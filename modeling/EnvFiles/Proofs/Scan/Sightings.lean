import EnvFiles.Proofs.Scan.Files
import EnvFiles.Proofs.Scan.References
import EnvFiles.Proofs.Text.Lines
import Mathlib.Algebra.GroupWithZero.Nat

/-!
# What the scan of a folder finds

A scan works through folders, the files in them, their lines and the forms of reference, and keeps
a list for each name. All in all it lists the references in the source files of the folder: each
of them once, ordered by the path of the file, the line, the form of reference and the position
on the line.
-/

namespace EnvFiles

open Node

/-- A reference as it stands in a folder: the path of its file from there, the number of its line,
the number of its form and its position on the line. -/
structure Sighting where
  file : Path
  line : Nat
  form : Nat
  position : Nat
  found : Reference
  deriving DecidableEq, Repr

namespace Sighting

/-- What is recorded of a reference, with the name that it is recorded under, if its file goes by
the given text. -/
def recordedIn (file : Text) (sighting : Sighting) : Text × Usage :=
  (sighting.found.name, ⟨file, sighting.line, sighting.found.matched⟩)

/-- What the scan of the folder records of a reference. -/
def recorded (sighting : Sighting) : Text × Usage :=
  sighting.recordedIn (Text.join "/" sighting.file)

/-- Where a reference stands: its file, line and position. -/
def spot (sighting : Sighting) : Path × Nat × Nat :=
  (sighting.file, sighting.line, sighting.position)

/-- The order of references by file, line, form and position. -/
inductive Before : Sighting → Sighting → Prop
  | file {first second : Sighting} : first.file < second.file → Before first second
  | line {first second : Sighting} : first.file = second.file → first.line < second.line →
      Before first second
  | form {first second : Sighting} : first.file = second.file → first.line = second.line →
      first.form < second.form → Before first second
  | position {first second : Sighting} : first.file = second.file → first.line = second.line →
      first.form = second.form → first.position < second.position → Before first second

end Sighting

/-- A numbered line of a source file of a folder. -/
def IsSourceLine (settings : ScanSettings) (folder : Node) (path : Path) (number : Nat)
    (line : Text) : Prop :=
  ∃ content text, IsSource settings folder path content ∧ textOf? (path, content) = some text ∧
    (line, number) ∈ (Text.splitAt '\n' text).zipIdx 1

/-- A reference stands in a source file of a folder, where its form fits. -/
def IsSighting (settings : ScanSettings) (folder : Node) (sighting : Sighting) : Prop :=
  ∃ line form, IsSourceLine settings folder sighting.file sighting.line line ∧
    referenceForms[sighting.form]? = some form ∧
      form (line.drop sighting.position) = some sighting.found

/-- The files are the source files of the folder that a path leads to, in the order of their paths
from there. -/
structure ListsSources (settings : ScanSettings) (root : Node) (path : Path)
    (files : List SourceFile) : Prop where
  sorted : files.Pairwise fun first second => first.1 < second.1
  mem_iff : ∀ file, file ∈ files ↔
    ∃ folder, root.lookup? path = some folder ∧ IsSource settings folder file.1 file.2

/-- The references are those in the source files of the folder that a path leads to, in their
order. -/
structure ListsSightings (settings : ScanSettings) (root : Node) (path : Path)
    (sightings : List Sighting) : Prop where
  sorted : sightings.Pairwise Sighting.Before
  mem_iff : ∀ sighting, sighting ∈ sightings ↔
    ∃ folder, root.lookup? path = some folder ∧ IsSighting settings folder sighting

/-- The result counts the files that are text, one line for each of them and one more for each
line feed, and it holds the references by name in their order. -/
structure ScanResult.Lists (result : ScanResult) (sources : List SourceFile)
    (sightings : List Sighting) : Prop where
  files : result.files = (sources.filterMap textOf?).length
  lines : result.lines = ((sources.filterMap textOf?).map fun text => text.count '\n' + 1).sum
  usages : Gathers result.usages (sightings.map Sighting.recorded)

/-- The references on a line of a file, form by form. -/
def sightingsOn (file : Path) (number : Nat) (line : Text) : List Sighting :=
  referenceForms.zipIdx.flatMap fun form =>
    (foundIn form.1 line).map fun found => ⟨file, number, form.2, found.1, found.2⟩

/-- The references in the text of a file, line by line. -/
def sightingsOfText (file : Path) (text : Text) : List Sighting :=
  ((Text.splitAt '\n' text).zipIdx 1).flatMap fun line => sightingsOn file line.2 line.1

/-- The references in files, one after the other. -/
def sightingsIn (files : List SourceFile) : List Sighting :=
  files.flatMap fun file => (textOf? file).toList.flatMap (sightingsOfText file.1)

section Lines

variable {file : Path} {number : Nat} {line text : Text} {sighting : Sighting}

/-- Numbered things stand in the order of their numbers. -/
theorem pairwise_zipIdx {α : Type} (items : List α) (first : Nat) :
    (items.zipIdx first).Pairwise fun a b => a.2 < b.2 := by
  refine List.pairwise_map.mp ?_
  rw [List.zipIdx_map_snd]
  exact List.pairwise_lt_range'

/-- A line gives what is recorded of its references. -/
theorem usagesOn_eq (path : Path) (file : Text) (number : Nat) (line : Text) :
    usagesOn line number file = (sightingsOn path number line).map (Sighting.recordedIn file) := by
  have hforms : referenceForms = referenceForms.zipIdx.map Prod.fst :=
    (List.zipIdx_map_fst 0 referenceForms).symm
  rw [usagesOn, sightingsOn, List.map_flatMap]
  conv_lhs => rw [hforms, List.flatMap_map]
  refine List.flatMap_congr fun form hform => ?_
  obtain ⟨mark, hmark⟩ := exists_isMarked (List.fst_mem_of_mem_zipIdx hform)
  rw [referencesFrom_eq hmark 0 line (by simp), List.map_map, List.map_map]
  rfl

/-- The lines of a file do so one after the other. -/
theorem usagesOfLines_eq (file : Text) (number : Nat) (lines : List Text) :
    usagesOfLines file number lines =
      (lines.zipIdx number).flatMap fun line => usagesOn line.1 line.2 file := by
  induction lines generalizing number with
  | nil => rfl
  | cons line rest ih => rw [usagesOfLines, ih, List.zipIdx_cons, List.flatMap_cons]

/-- So a visit records the references in the text of its file, wherever the file stands. -/
theorem Visit.references_eq (visit : Visit) (path : Path) :
    visit.references =
      (sightingsOfText path visit.text).map (Sighting.recordedIn visit.file) := by
  rw [Visit.references, Visit.lines, usagesOfLines_eq, sightingsOfText, List.map_flatMap]
  simp only [usagesOn_eq path]

/-- The references on a line are listed there where their form fits. -/
theorem mem_sightingsOn_iff :
    sighting ∈ sightingsOn file number line ↔ sighting.file = file ∧ sighting.line = number ∧
      ∃ form, referenceForms[sighting.form]? = some form ∧
        form (line.drop sighting.position) = some sighting.found := by
  obtain ⟨path, count, index, position, found⟩ := sighting
  simp only [sightingsOn, List.mem_flatMap, List.mem_map, Prod.exists, Sighting.mk.injEq]
  constructor
  · rintro ⟨form, _, hform, _, _, hfound, rfl, rfl, rfl, rfl, rfl⟩
    rw [List.mk_mem_zipIdx_iff_getElem?] at hform
    exact ⟨rfl, rfl, form, hform, (mem_foundIn_iff (List.mem_of_getElem? hform)).mp hfound⟩
  · rintro ⟨rfl, rfl, form, hform, hfound⟩
    refine ⟨form, index, List.mk_mem_zipIdx_iff_getElem?.mpr hform, position, found, ?_, by simp⟩
    exact (mem_foundIn_iff (List.mem_of_getElem? hform)).mpr hfound

/-- They are listed in their order. -/
theorem sorted_sightingsOn (file : Path) (number : Nat) (line : Text) :
    (sightingsOn file number line).Pairwise Sighting.Before := by
  rw [sightingsOn, List.pairwise_flatMap]
  refine ⟨fun form _ => ?_, (pairwise_zipIdx referenceForms 0).imp fun hlt => ?_⟩
  · exact List.pairwise_map.mpr ((pairwise_foundIn form.1 line).imp fun hlt =>
      .position rfl rfl rfl hlt)
  · intro first hfirst second hsecond
    obtain ⟨_, -, rfl⟩ := List.mem_map.mp hfirst
    obtain ⟨_, -, rfl⟩ := List.mem_map.mp hsecond
    exact .form rfl rfl hlt

/-- The references in a file are those on its lines. -/
theorem mem_sightingsOfText_iff :
    sighting ∈ sightingsOfText file text ↔ sighting.file = file ∧
      ∃ line form, (line, sighting.line) ∈ (Text.splitAt '\n' text).zipIdx 1 ∧
        referenceForms[sighting.form]? = some form ∧
          form (line.drop sighting.position) = some sighting.found := by
  simp only [sightingsOfText, List.mem_flatMap, Prod.exists, mem_sightingsOn_iff]
  constructor
  · rintro ⟨line, _, hline, hfile, rfl, form, hform, hfound⟩
    exact ⟨hfile, line, form, hline, hform, hfound⟩
  · rintro ⟨hfile, line, form, hline, hform, hfound⟩
    exact ⟨line, _, hline, hfile, rfl, form, hform, hfound⟩

/-- The scan of the folder records them for the path of the file. -/
theorem map_recorded_sightingsOfText (file : Path) (text : Text) :
    (sightingsOfText file text).map Sighting.recorded =
      (sightingsOfText file text).map (Sighting.recordedIn (Text.join "/" file)) := by
  refine List.map_congr_left fun sighting hsighting => ?_
  rw [Sighting.recorded, (mem_sightingsOfText_iff.mp hsighting).1]

/-- They are listed in their order. -/
theorem sorted_sightingsOfText (file : Path) (text : Text) :
    (sightingsOfText file text).Pairwise Sighting.Before := by
  rw [sightingsOfText, List.pairwise_flatMap]
  refine ⟨fun line _ => sorted_sightingsOn file line.2 line.1,
    (pairwise_zipIdx _ 1).imp fun hlt first hfirst second hsecond => ?_⟩
  obtain ⟨hfile, hline, -⟩ := mem_sightingsOn_iff.mp hfirst
  obtain ⟨hfile', hline', -⟩ := mem_sightingsOn_iff.mp hsecond
  exact .line (hfile.trans hfile'.symm) (hline ▸ hline' ▸ hlt)

/-- No two of them stand at one position. -/
theorem nodup_map_spot_sightingsOfText (file : Path) (text : Text) :
    ((sightingsOfText file text).map Sighting.spot).Nodup := by
  refine List.pairwise_map.mpr ((sorted_sightingsOfText file text).imp_of_mem ?_)
  intro first second hfirst hsecond hbefore hspot
  obtain ⟨-, line, form, hline, hform, hfound⟩ := mem_sightingsOfText_iff.mp hfirst
  obtain ⟨-, line', form', hline', hform', hfound'⟩ := mem_sightingsOfText_iff.mp hsecond
  simp only [Sighting.spot, Prod.mk.injEq] at hspot
  obtain ⟨hfile, hnumber, hposition⟩ := hspot
  have hlines : line = line' := by
    rw [List.mk_mem_zipIdx_iff_le_and_getElem?_sub] at hline hline'
    rw [hnumber] at hline
    exact Option.some.inj (hline.2.symm.trans hline'.2)
  rw [hlines, hposition] at hfound
  -- Only one form fits at a position, so nothing is left in which the two could differ.
  have hforms := form_unique hform hform' hfound hfound'
  cases hbefore with
  | file hlt => exact lt_irrefl _ (hfile ▸ hlt)
  | line _ hlt => omega
  | form _ _ hlt => omega
  | position _ _ _ hlt => omega

end Lines

section Files

variable {settings : ScanSettings} {root folder : Node} {path : Path} {files : List SourceFile}
  {sighting : Sighting}

theorem sightingsIn_cons (file : SourceFile) (rest : List SourceFile) :
    sightingsIn (file :: rest) =
      (textOf? file).toList.flatMap (sightingsOfText file.1) ++ sightingsIn rest :=
  List.flatMap_cons

/-- The references in files stand in the texts of the files. -/
theorem mem_sightingsIn_iff :
    sighting ∈ sightingsIn files ↔ ∃ content text, (sighting.file, content) ∈ files ∧
      textOf? (sighting.file, content) = some text ∧
        ∃ line form, (line, sighting.line) ∈ (Text.splitAt '\n' text).zipIdx 1 ∧
          referenceForms[sighting.form]? = some form ∧
            form (line.drop sighting.position) = some sighting.found := by
  simp only [sightingsIn, List.mem_flatMap, Option.mem_toList, mem_sightingsOfText_iff]
  constructor
  · rintro ⟨⟨_, content⟩, hfile, text, htext, rfl, hfound⟩
    exact ⟨content, text, hfile, htext, hfound⟩
  · rintro ⟨content, text, hfile, htext, hfound⟩
    exact ⟨_, hfile, text, htext, rfl, hfound⟩

/-- In files in the order of their paths they are listed in their order. -/
theorem sorted_sightingsIn (h : files.Pairwise fun first second => first.1 < second.1) :
    (sightingsIn files).Pairwise Sighting.Before := by
  have hfile : ∀ file : SourceFile, ∀ sighting ∈ (textOf? file).toList.flatMap
      (sightingsOfText file.1), sighting.file = file.1 := by
    intro file sighting hmem
    obtain ⟨text, -, hmem⟩ := List.mem_flatMap.mp hmem
    exact (mem_sightingsOfText_iff.mp hmem).1
  rw [sightingsIn, List.pairwise_flatMap]
  refine ⟨fun file _ => ?_, h.imp fun hlt first hfirst second hsecond => ?_⟩
  · cases textOf? file with
    | none => exact List.Pairwise.nil
    | some text => simpa using sorted_sightingsOfText file.1 text
  · refine .file ?_
    rw [hfile _ first hfirst, hfile _ second hsecond]
    exact hlt

/-- The visits to files of a folder give their paths from there. -/
theorem visitsOf_under (root : Node) (path : Path) (files : List SourceFile) :
    visitsOf root path (files.map (SourceFile.under path)) =
      files.filterMap fun file => (textOf? file).map fun text =>
        ⟨root.placeOf (path ++ file.1), Text.join "/" file.1, text⟩ := by
  rw [visitsOf_eq, List.filterMap_map]
  refine List.filterMap_congr fun file _ => ?_
  simp [SourceFile.under, textOf?]

/-- The visits to files of a folder tell of the references in them. -/
theorem ScanResult.Tells.lists {result : ScanResult}
    (h : result.Tells (visitsOf root path (files.map (SourceFile.under path)))) :
    result.Lists files (sightingsIn files) := by
  rw [visitsOf_under] at h
  have htexts : (files.filterMap fun file => (textOf? file).map fun text =>
      Visit.mk (root.placeOf (path ++ file.1)) (Text.join "/" file.1) text).map Visit.text =
        files.filterMap textOf? := by
    rw [List.map_filterMap]
    refine List.filterMap_congr fun file _ => ?_
    simp [Function.comp_def]
  refine ⟨?_, ?_, ?_⟩
  · rw [h.files, ← htexts, List.length_map]
  · rw [h.lines, ← htexts, List.length_flatMap, List.map_map]
    refine congrArg List.sum (List.map_congr_left fun visit _ => ?_)
    exact Text.length_splitAt '\n' visit.text
  · convert h.usages using 1
    clear h htexts
    induction files with
    | nil => rfl
    | cons file rest ih =>
      rw [sightingsIn_cons, List.map_append]
      cases htext : textOf? file with
      | none => simpa [htext] using ih
      | some text =>
        rw [List.filterMap_cons_some (by rw [htext]; rfl), List.flatMap_cons, ← ih]
        refine congrArg (· ++ _) ?_
        rw [Visit.references_eq _ file.1, Option.toList_some, List.flatMap_singleton,
          map_recorded_sightingsOfText]

/-- The source files of a folder hold all references in it. -/
theorem ListsSources.listsSightings (h : ListsSources settings root path files) :
    ListsSightings settings root path (sightingsIn files) := by
  refine ⟨sorted_sightingsIn h.sorted, fun sighting => ?_⟩
  rw [mem_sightingsIn_iff]
  constructor
  · rintro ⟨content, text, hfile, htext, line, form, hline, hfound⟩
    obtain ⟨folder, hfolder, hsource⟩ := (h.mem_iff _).mp hfile
    exact ⟨folder, hfolder, line, form, ⟨content, text, hsource, htext, hline⟩, hfound⟩
  · rintro ⟨folder, hfolder, line, form, ⟨content, text, hsource, htext, hline⟩, hfound⟩
    exact ⟨content, text, (h.mem_iff _).mpr ⟨folder, hfolder, hsource⟩, htext, line, form, hline,
      hfound⟩

/-- The files to scan below a folder are its source files, as they are found from there. -/
theorem exists_listsSources (h : root.WellNamed) (settings : ScanSettings) (path : Path) :
    ∃ files, filesUnder settings root path = files.map (SourceFile.under path) ∧
      ListsSources settings root path files := by
  rw [filesUnder]
  cases hfound : root.lookup? path with
  | none => exact ⟨[], rfl, .nil, by simp [hfound]⟩
  | some folder =>
    have hfolder := h.lookup? hfound
    refine ⟨filesBelow settings [] folder, filesBelow_eq_map hfolder settings path,
      sorted_filesBelow hfolder settings [], fun file => ?_⟩
    rw [mem_filesBelow_iff hfolder, hfound]
    simp

/-- The scan of a folder visits exactly its source files, each of them once, and passes over those
that are not text. The result counts the files and lines, and all references in the files stand
in it in one order, none of them twice. -/
theorem scan_lists_sightings (settings : ScanSettings) (h : root.WellNamed) (path : Path)
    (desk : Desk) :
    ∃ files sightings result,
      filesUnder settings root path = files.map (SourceFile.under path) ∧
        (scan settings root path).runFrom desk =
          (.ok result, desk.skipping (files.map (SourceFile.under path))) ∧
        ListsSources settings root path files ∧
        ListsSightings settings root path sightings ∧ result.Lists files sightings := by
  obtain ⟨files, hunder, hsources⟩ := exists_listsSources h settings path
  have hbase : ∀ file ∈ files.map (SourceFile.under path), path <+: file.1 := by
    rintro _ hfile
    obtain ⟨file, -, rfl⟩ := List.mem_map.mp hfile
    exact List.prefix_append path file.1
  have hend : (scan settings root path).EndsIn desk
      (fun result after => result.Lists files (sightingsIn files) ∧
        after = desk.skipping (files.map (SourceFile.under path))) fun _ _ => False := by
    rw [scan, hunder]
    refine (endsIn_scanFiles_strays root _ .empty desk).mono (fun result after h => ?_)
      fun failure after h => ?_
    · obtain ⟨-, htells, hafter⟩ := h
      exact ⟨htells.lists, hafter⟩
    · obtain ⟨-, file, hfile, hstrays⟩ := h
      exact hstrays.2 (hbase file hfile)
  obtain ⟨result, after, hrun, hlists, rfl⟩ := hend.returns
  exact ⟨files, sightingsIn files, result, hunder, hrun, hsources, hsources.listsSightings,
    hlists⟩

end Files

/-- Two source files, one of them in a folder. -/
def sourceTree : Node := .folder [
  ("a.ts", .file (encode "process.env.B")),
  ("b", .folder [("c.ts", .file (encode "process.env.A\nprocess.env.B"))])]

/-- In this tree the scan visits both files. -/
theorem scan_lists_sightings_sourceTree :
    sourceTree.WellNamed ∧
    ∃ sightings result after, (scan {} sourceTree []).runFrom {} = (.ok result, after) ∧
      ListsSightings {} sourceTree [] sightings ∧
      Gathers result.usages (sightings.map Sighting.recorded) ∧
      result.files = 2 ∧ result.lines = 3 := by
  have hnamed : sourceTree.WellNamed := by
    repeat' first | exact .nil | exact .file _ | refine .cons (by decide) (by decide) ?_ ?_
  obtain ⟨files, sightings, result, hunder, hrun, -, hsightings, hlists⟩ :=
    scan_lists_sightings {} hnamed [] {}
  have hfiles : files = [([("a.ts" : Text)], encode "process.env.B"),
      ([("b" : Text), "c.ts"], encode "process.env.A\nprocess.env.B")] := by
    have hid : files.map (SourceFile.under []) = files := List.map_id files
    rw [← hid, ← hunder]
    change filesBelow {} [] sourceTree = _
    rw [sourceTree, filesBelow_of_pairwise (by decide)]
    decide +kernel
  subst hfiles
  exact ⟨hnamed, sightings, result, _, hrun, hsightings, hlists.usages,
    hlists.files.trans (by decide +kernel), hlists.lines.trans (by decide +kernel)⟩

end EnvFiles
