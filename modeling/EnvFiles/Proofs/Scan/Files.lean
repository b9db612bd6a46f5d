import EnvFiles.Proofs.Scan.Visits
import EnvFiles.Proofs.Tree.Named
import Mathlib.Data.Char
import Mathlib.Data.List.Lex

/-!
# The files of one scan

A scan of a source folder finds files below that folder, and a scan of a workspace those directly
in it as well. In a well-named tree the files found below a folder are exactly those that entered
folders lead to and whose names are taken. Each of them is found once, in the order of the paths,
and the path by which it is found leads to it. So one scan of a folder visits no path twice.
-/

namespace EnvFiles

namespace Text

/-- A text precedes itself and what comes after it in the order of code points. -/
theorem precedes_iff {first second : Text} :
    precedes first second = true ↔ first = second ∨ first < second := by
  induction first generalizing second with
  | nil => cases second <;> simp [precedes]
  | cons c rest ih =>
    cases second with
    | nil => simp [precedes]
    | cons d more =>
      by_cases h : c = d
      · simp [precedes, h, ih]
      · simp [precedes, h, List.cons_lt_cons_iff]

theorem precedes_trans {first second third : Text} (h : precedes first second = true)
    (h' : precedes second third = true) : precedes first third = true := by
  rw [precedes_iff] at h h' ⊢
  rcases h with rfl | h
  · exact h'
  · exact Or.inr (h'.elim (fun heq => heq ▸ h) (lt_trans h))

theorem precedes_antisymm {first second : Text} (h : precedes first second = true)
    (h' : precedes second first = true) : first = second := by
  rw [precedes_iff] at h h'
  rcases h with heq | hlt
  · exact heq
  · exact (h'.resolve_right (lt_asymm hlt)).symm

theorem precedes_total (first second : Text) :
    (precedes first second || precedes second first) = true := by
  rw [Bool.or_eq_true, precedes_iff, precedes_iff]
  rcases lt_trichotomy first second with h | h | h <;> simp [h]

/-- Sorted by their names, entries of different names stand in strict order. -/
theorem pairwise_mergeSort_precedes {α : Type} {entries : List (Text × α)}
    (hnodup : (entries.map Prod.fst).Nodup) :
    (entries.mergeSort fun a b => precedes a.1 b.1).Pairwise fun a b => a.1 < b.1 := by
  have hsorted : (entries.mergeSort fun a b => precedes a.1 b.1).Pairwise
      fun a b => precedes a.1 b.1 = true := by
    apply List.pairwise_mergeSort
    · exact fun first second third => precedes_trans
    · exact fun first second => precedes_total first.1 second.1
  have hperm := List.mergeSort_perm entries fun a b => precedes a.1 b.1
  have hdistinct := List.pairwise_map.mp ((hperm.map Prod.fst).nodup_iff.mpr hnodup)
  refine hsorted.imp₂ (fun a b hab hne => ?_) hdistinct
  exact (precedes_iff.mp hab).resolve_left hne

end Text

open Node

variable {settings : ScanSettings} {root node : Node} {reached path place : Path}
  {entries : List (Text × Node)} {file : SourceFile}

/-- The files to scan at one entry of a folder. -/
def filesAt (settings : ScanSettings) (reached : Path) (entry : Text × Node) : List SourceFile :=
  let here := reached ++ [entry.1]
  if entry.2.isFolder then
    if settings.enters entry.1 then filesBelow settings here entry.2 else []
  else match entry.2 with
    | .file content => if settings.takes entry.1 then [(here, content)] else []
    | _ => []

/-- The files of a folder are those of its entries. -/
theorem filesOfEntries_eq (settings : ScanSettings) (reached : Path)
    (entries : List (Text × Node)) :
    filesOfEntries settings reached entries =
      entries.map fun entry => (entry.1, filesAt settings reached entry) := by
  induction entries with
  | nil => rfl
  | cons entry rest ih =>
    obtain ⟨name, node⟩ := entry
    rw [List.map_cons, ← ih]
    cases node <;> rfl

/-- The files below a folder are those of its entries, taken by name. -/
theorem filesBelow_folder (settings : ScanSettings) (reached : Path)
    (entries : List (Text × Node)) :
    filesBelow settings reached (.folder entries) =
      (entries.mergeSort fun a b => Text.precedes a.1 b.1).flatMap (filesAt settings reached) := by
  have hsorted := List.map_mergeSort (r := fun a b => Text.precedes a.1 b.1)
    (s := fun a b => Text.precedes a.1 b.1) (l := entries)
    (f := fun entry => (entry.1, filesAt settings reached entry)) fun _ _ _ _ => rfl
  rw [filesBelow, inNameOrder, filesOfEntries_eq, ← hsorted, List.flatMap_map]

/-- The files below a folder whose entries stand in the order of their names. -/
theorem filesBelow_of_pairwise (hsorted : entries.Pairwise fun a b => Text.precedes a.1 b.1)
    (settings : ScanSettings) (reached : Path) :
    filesBelow settings reached (.folder entries) = entries.flatMap (filesAt settings reached) := by
  rw [filesBelow_folder, List.mergeSort_of_pairwise hsorted]

/-- A file of a folder that a scan reads: the folders on the way to it are entered, and its name
is taken. No link stands on the way. -/
structure IsSource (settings : ScanSettings) (folder : Node) (path : Path) (content : ByteArray) :
    Prop where
  ne_nil : path ≠ []
  at? : folder.at? path = some (.file content)
  enters : ∀ name ∈ path.parent, settings.enters name = true
  takes : settings.takes path.name = true

/-- What stands in a folder or further down does not stand in a file. -/
@[simp]
theorem not_isSource_file (other content : ByteArray) :
    ¬ IsSource settings (.file other) path content := by
  rintro ⟨hne, hthere, -, -⟩
  cases path with
  | nil => exact hne rfl
  | cons name rest => cases hthere

/-- Nor does it stand in a link. -/
@[simp]
theorem not_isSource_link (target : Text) (content : ByteArray) :
    ¬ IsSource settings (.link target) path content := by
  rintro ⟨hne, hthere, -, -⟩
  cases path with
  | nil => exact hne rfl
  | cons name rest => cases hthere

/-- A file of a folder stands there itself and is taken, or it is read from a folder there that is
entered. -/
theorem isSource_cons {name : Text} {below : Path} {content : ByteArray} :
    IsSource settings (.folder entries) (name :: below) content ↔
      ∃ child, named? entries name = some child ∧
        (below = [] ∧ child = .file content ∧ settings.takes name = true ∨
          settings.enters name = true ∧ IsSource settings child below content) := by
  have hat : (Node.folder entries).at? (name :: below) =
      (named? entries name).bind fun child => child.at? below := by
    rw [Node.at?, child?]
    cases named? entries name <;> rfl
  cases below with
  | nil =>
    constructor
    · rintro ⟨-, hthere, -, htakes⟩
      rw [hat] at hthere
      obtain ⟨child, hchild, hfile⟩ := Option.bind_eq_some_iff.mp hthere
      exact ⟨child, hchild, Or.inl ⟨rfl, Option.some.inj hfile, htakes⟩⟩
    · rintro ⟨child, hchild, ⟨-, rfl, htakes⟩ | ⟨-, hsource⟩⟩
      · exact ⟨by simp, by rw [hat, hchild]; rfl, by simp [Path.parent], htakes⟩
      · exact absurd rfl hsource.ne_nil
  | cons next rest =>
    have hname : Path.name (name :: next :: rest) = Path.name (next :: rest) := by
      simp [Path.name]
    constructor
    · rintro ⟨-, hthere, henters, htakes⟩
      rw [hat] at hthere
      obtain ⟨child, hchild, hfile⟩ := Option.bind_eq_some_iff.mp hthere
      obtain ⟨hfirst, hrest⟩ := List.forall_mem_cons.mp henters
      exact ⟨child, hchild, Or.inr ⟨hfirst, by simp, hfile, hrest, hname ▸ htakes⟩⟩
    · rintro ⟨child, hchild, ⟨hnil, -, -⟩ | ⟨hfirst, -, hthere, hrest, htakes⟩⟩
      · cases hnil
      · refine ⟨by simp, ?_, List.forall_mem_cons.mpr ⟨hfirst, hrest⟩, hname ▸ htakes⟩
        rw [hat, hchild]
        exact hthere

/-- A file directly in a folder is read if its name is taken. -/
theorem isSource_singleton {name : Text} {content : ByteArray} :
    IsSource settings (.folder entries) [name] content ↔
      named? entries name = some (.file content) ∧ settings.takes name = true := by
  rw [isSource_cons]
  constructor
  · rintro ⟨child, hchild, ⟨-, rfl, htakes⟩ | ⟨-, hsource⟩⟩
    · exact ⟨hchild, htakes⟩
    · exact absurd rfl hsource.ne_nil
  · rintro ⟨hchild, htakes⟩
    exact ⟨_, hchild, Or.inl ⟨rfl, rfl, htakes⟩⟩

/-- From a folder further up the folders on the way have to be entered as well. -/
theorem isSource_append_iff {between below : Path} {folder : Node} {content : ByteArray}
    (hthere : node.at? between = some folder) (hbelow : below ≠ []) :
    IsSource settings node (between ++ below) content ↔
      (∀ name ∈ between, settings.enters name = true) ∧
        IsSource settings folder below content := by
  have hat : node.at? (between ++ below) = folder.at? below := by rw [at?_append, hthere]; rfl
  have hparent : Path.parent (between ++ below) = between ++ below.parent :=
    List.dropLast_append_of_ne_nil hbelow
  have hname : Path.name (between ++ below) = below.name := by
    rw [Path.name, Path.name, List.getLast?_append_of_ne_nil _ hbelow]
  constructor
  · rintro ⟨-, hread, henters, htakes⟩
    rw [hparent, List.forall_mem_append] at henters
    exact ⟨henters.1, hbelow, hat ▸ hread, henters.2, hname ▸ htakes⟩
  · rintro ⟨henters, -, hread, henters', htakes⟩
    refine ⟨by simp [hbelow], hat ▸ hread, ?_, hname ▸ htakes⟩
    rw [hparent, List.forall_mem_append]
    exact ⟨henters, henters'⟩

/-- The files to scan at an entry are those that are read there, if this holds of the files
below it. -/
theorem mem_filesAt_iff {name : Text}
    (hbelow : ∀ file, file ∈ filesBelow settings (reached ++ [name]) node ↔
      ∃ below, file.1 = reached ++ [name] ++ below ∧ IsSource settings node below file.2) :
    file ∈ filesAt settings reached (name, node) ↔ ∃ below, file.1 = reached ++ name :: below ∧
      (below = [] ∧ node = .file file.2 ∧ settings.takes name = true ∨
        settings.enters name = true ∧ IsSource settings node below file.2) := by
  obtain ⟨path, content⟩ := file
  rw [filesAt]
  cases node with
  | link target => simp [isFolder]
  | file other =>
    by_cases htakes : settings.takes name = true
    · simp [isFolder, htakes, @eq_comm _ content]
    · simp [isFolder, htakes]
  | folder inner =>
    by_cases henters : settings.enters name = true
    · simp [isFolder, henters, hbelow]
    · simp [isFolder, henters]

/-- The files to scan below a folder are the files that are read there. -/
theorem mem_filesBelow_iff (h : node.WellNamed) {reached : Path} {file : SourceFile} :
    file ∈ filesBelow settings reached node ↔
      ∃ below, file.1 = reached ++ below ∧ IsSource settings node below file.2 := by
  induction h generalizing reached file with
  | file content => simp [filesBelow]
  | link target => simp [filesBelow]
  | folder hnodup hup hentries ih =>
    rename_i entries
    rw [filesBelow_folder, ((List.mergeSort_perm entries _).flatMap_right _).mem_iff]
    constructor
    · intro hfile
      obtain ⟨entry, hentry, hfile⟩ := List.mem_flatMap.mp hfile
      obtain ⟨below, hpath, hread⟩ := (mem_filesAt_iff fun file => ih entry hentry).mp hfile
      have hnamed := WellNamed.named? (.folder hnodup hup hentries) hentry
      exact ⟨_, hpath, isSource_cons.mpr ⟨_, hnamed, hread⟩⟩
    · rintro ⟨below, hpath, hsource⟩
      obtain ⟨name, rest, rfl⟩ := List.exists_cons_of_ne_nil hsource.ne_nil
      obtain ⟨child, hchild, hread⟩ := isSource_cons.mp hsource
      rw [named?_eq_get?] at hchild
      have hentry := Table.mem_of_get? hchild
      exact List.mem_flatMap.mpr
        ⟨_, hentry, (mem_filesAt_iff fun file => ih _ hentry).mpr ⟨rest, hpath, hread⟩⟩

/-- A file that a scan reads does not stand above the folder. -/
theorem IsSource.upPart_notMem {content : ByteArray} (h : node.WellNamed)
    (hsource : IsSource settings node path content) : upPart ∉ path := by
  have hthere := hsource.at?
  clear hsource
  induction path generalizing node with
  | nil => exact List.not_mem_nil
  | cons name rest ih =>
    cases h with
    | file content => cases hthere
    | link target => cases hthere
    | folder hnodup hup hentries =>
      rename_i entries
      rw [Node.at?, child?] at hthere
      cases hchild : named? entries name with
      | none => simp [hchild] at hthere
      | some child =>
        rw [hchild] at hthere
        rw [named?_eq_get?] at hchild
        have hentry := Table.mem_of_get? hchild
        rw [List.mem_cons, not_or]
        refine ⟨?_, ih (hentries _ hentry) hthere⟩
        rintro rfl
        exact hup (List.mem_map_of_mem (f := Prod.fst) hentry)

/-- The files at an entry have paths through it. -/
theorem isPrefix_of_mem_filesAt {entry : Text × Node} (h : entry.2.WellNamed)
    (hfile : file ∈ filesAt settings reached entry) : reached ++ [entry.1] <+: file.1 := by
  obtain ⟨below, hpath, -⟩ := (mem_filesAt_iff fun _ => mem_filesBelow_iff h).mp hfile
  exact ⟨below, by simp [hpath]⟩

/-- The files below a folder are found in the order of their paths, name by name. -/
theorem sorted_filesBelow (h : node.WellNamed) (settings : ScanSettings) (reached : Path) :
    (filesBelow settings reached node).Pairwise fun first second => first.1 < second.1 := by
  induction h generalizing reached with
  | file content => exact List.Pairwise.nil
  | link target => exact List.Pairwise.nil
  | folder hnodup hup hentries ih =>
    rename_i entries
    have hsorted := Text.pairwise_mergeSort_precedes hnodup
    have hperm := List.mergeSort_perm entries fun a b => Text.precedes a.1 b.1
    rw [filesBelow_folder, List.pairwise_flatMap]
    refine ⟨fun entry hentry => ?_, hsorted.imp_of_mem fun hfirst hsecond hlt file hfile => ?_⟩
    · obtain ⟨name, node⟩ := entry
      rw [filesAt]
      cases node with
      | link target => exact List.Pairwise.nil
      | file content =>
        simp only [isFolder, Bool.false_eq_true, if_false]
        split <;> simp
      | folder inner =>
        simp only [isFolder, if_true]
        split
        · exact ih _ (hperm.mem_iff.mp hentry) _
        · exact List.Pairwise.nil
    · -- Paths through entries of different names differ first in these names.
      intro other hother
      obtain ⟨below, hpath⟩ :=
        isPrefix_of_mem_filesAt (hentries _ (hperm.mem_iff.mp hfirst)) hfile
      obtain ⟨below', hpath'⟩ :=
        isPrefix_of_mem_filesAt (hentries _ (hperm.mem_iff.mp hsecond)) hother
      rw [← hpath, ← hpath', List.append_assoc, List.append_assoc]
      exact List.append_left_lt (List.cons_lt_cons_iff.mpr (Or.inl hlt))

/-- The file as it is found from a folder further up. -/
def SourceFile.under (reached : Path) (file : SourceFile) : SourceFile :=
  (reached ++ file.1, file.2)

/-- How a folder is reached makes no difference to the files that are found below it. -/
theorem filesBelow_eq_map (h : node.WellNamed) (settings : ScanSettings) (reached : Path) :
    filesBelow settings reached node =
      (filesBelow settings [] node).map (SourceFile.under reached) := by
  induction h generalizing reached with
  | file content => rfl
  | link target => rfl
  | folder hnodup hup hentries ih =>
    rename_i entries
    have hperm := List.mergeSort_perm entries fun a b => Text.precedes a.1 b.1
    rw [filesBelow_folder, filesBelow_folder, List.map_flatMap]
    refine List.flatMap_congr fun entry hentry => ?_
    obtain ⟨name, child⟩ := entry
    rw [filesAt, filesAt]
    cases child with
    | link target => rfl
    | file content =>
      simp only [isFolder, Bool.false_eq_true, if_false]
      split <;> rfl
    | folder inner =>
      have hinner := ih _ (hperm.mem_iff.mp hentry)
      simp only [isFolder, if_true, List.nil_append]
      rw [hinner, hinner [name]]
      split
      · rw [List.map_map]
        refine List.map_congr_left fun file _ => ?_
        simp [SourceFile.under]
      · rfl

/-- So each of them is found once. -/
theorem nodup_filesBelow (h : node.WellNamed) (settings : ScanSettings) (reached : Path) :
    ((filesBelow settings reached node).map Prod.fst).Nodup :=
  List.pairwise_map.mpr ((sorted_filesBelow h settings reached).imp fun hlt => ne_of_lt hlt)

/-- The files below the folder that a path leads to: their paths go on from it and lead to
them. -/
theorem walk_of_mem_filesUnder (h : root.WellNamed)
    (hfile : file ∈ filesUnder settings root path) :
    ∃ below, below ≠ [] ∧ upPart ∉ below ∧ file.1 = path ++ below ∧
      ∃ place, root.walk file.1 = .ok (.taken place (.file file.2)) := by
  rw [filesUnder] at hfile
  split at hfile
  · rename_i node hfound
    obtain ⟨below, hpath, hsource⟩ := (mem_filesBelow_iff (h.lookup? hfound)).mp hfile
    obtain ⟨place, hwalk⟩ := exists_walk_of_lookup? hfound
    have hup := hsource.upPart_notMem (h.lookup? hfound)
    refine ⟨below, hsource.ne_nil, hup, hpath, place ++ below, ?_⟩
    rw [hpath]
    exact walk_append_of_at? hwalk hsource.at? hup fun target => by simp
  · cases hfile

/-- They are found once each. -/
theorem nodup_filesUnder (h : root.WellNamed) (settings : ScanSettings) (path : Path) :
    ((filesUnder settings root path).map Prod.fst).Nodup := by
  rw [filesUnder]
  split
  · exact nodup_filesBelow (h.lookup? ‹_›) settings path
  · exact List.nodup_nil

/-- Files are found only below a folder that is there. -/
theorem exists_lookup?_of_mem_filesUnder (hfile : file ∈ filesUnder settings root path) :
    ∃ node, root.lookup? path = some node := by
  rw [filesUnder] at hfile
  split at hfile
  · exact ⟨_, ‹_›⟩
  · cases hfile

/-- A folder whose entries stand in the order of their names is listed as it stands. -/
theorem listing_of_pairwise (h : root.lookup? path = some (.folder entries))
    (hsorted : entries.Pairwise fun a b => Text.precedes a.1 b.1) :
    root.listing path = entries := by
  rw [listing, h]
  exact List.mergeSort_of_pairwise hsorted

/-- The names in a folder to which a path leads are distinct and lead to no folder above. -/
theorem nodup_listing (h : root.WellNamed) (path : Path) :
    ((root.listing path).map Prod.fst).Nodup ∧ upPart ∉ (root.listing path).map Prod.fst := by
  rw [listing]
  split
  · rename_i entries hfound
    have hperm := (List.mergeSort_perm entries fun a b => Text.precedes a.1 b.1).map Prod.fst
    cases h.lookup? hfound with
    | folder hnodup hup _ =>
      exact ⟨hperm.nodup_iff.mpr hnodup, fun hmem => hup (hperm.mem_iff.mp hmem)⟩
  · exact ⟨List.nodup_nil, List.not_mem_nil⟩

/-- The file to scan that a name in a folder leads to, if it leads to one. -/
def fileNamed? (settings : ScanSettings) (root : Node) (path : Path) (name : Text) :
    Option SourceFile :=
  match root.lookup? (path ++ [name]) with
  | some (.file content) => if settings.takes name then some (path ++ [name], content) else none
  | _ => none

/-- A file that a name leads to has the path that ends in the name. -/
theorem walk_of_fileNamed? {name : Text} (h : fileNamed? settings root path name = some file) :
    file.1 = path ++ [name] ∧ ∃ place, root.walk file.1 = .ok (.taken place (.file file.2)) := by
  rw [fileNamed?] at h
  split at h
  · rename_i content hfound
    split at h
    · cases h
      exact ⟨rfl, exists_walk_of_lookup? hfound⟩
    · cases h
  · cases h

/-- The files directly in a folder: their paths go on from it by one name and lead to them. -/
theorem walk_of_mem_filesIn (h : root.WellNamed) (hfile : file ∈ filesIn settings root path) :
    ∃ name, name ≠ upPart ∧ file.1 = path ++ [name] ∧
      ∃ place, root.walk file.1 = .ok (.taken place (.file file.2)) := by
  obtain ⟨entry, hentry, hfound⟩ := List.mem_filterMap.mp hfile
  obtain ⟨hpath, hwalk⟩ := walk_of_fileNamed? hfound
  refine ⟨entry.1, ?_, hpath, hwalk⟩
  intro hname
  exact (nodup_listing h path).2 (hname ▸ List.mem_map_of_mem (f := Prod.fst) hentry)

/-- They are found only in a folder that is there. -/
theorem exists_lookup?_of_mem_filesIn (hfile : file ∈ filesIn settings root path) :
    ∃ folder, root.lookup? path = some folder := by
  rw [filesIn, listing] at hfile
  split at hfile
  · exact ⟨_, ‹_›⟩
  · cases hfile

/-- They are found once each. -/
theorem nodup_filesIn (h : root.WellNamed) (settings : ScanSettings) (path : Path) :
    ((filesIn settings root path).map Prod.fst).Nodup := by
  refine List.pairwise_map.mpr ((List.pairwise_map.mp (nodup_listing h path).1).filterMap _ ?_)
  intro first second hne file hfile other hother heq
  have hfirst : file.1 = path ++ [first.1] := (walk_of_fileNamed? hfile).1
  have hsecond : other.1 = path ++ [second.1] := (walk_of_fileNamed? hother).1
  rw [hfirst, hsecond] at heq
  exact hne (by simpa using heq)

end EnvFiles
