import EnvFiles.Proofs.Attempt
import EnvFiles.Proofs.Table
import EnvFiles.Scan.Walk

/-!
# What scans come to

A scan visits its source files one after the other and adds up what it finds. Its result says no
more than the visits do, in order: there is one file for each visit, the lines are those of all
visits, and the references of each name stand in the order in which they were met. So the result
of several scans is that of all their visits, and a file that two scans visit counts twice.
-/

namespace EnvFiles

/-- What a path stands for: the place without links that it leads to. A path that leads nowhere
stands for itself. -/
def Node.placeOf (root : Node) (path : Path) : Path :=
  match root.walk path with
  | .ok (.taken place _) => place
  | _ => path

/-- A source file as a scan finds it: the place where it stands, its path from the base of the
scan, and its text with line feeds for all line ends. -/
structure Visit where
  place : Path
  file : Text
  text : Text
  deriving DecidableEq, Repr

namespace Visit

/-- The lines of the file. -/
def lines (visit : Visit) : List Text := Text.splitAt '\n' visit.text

/-- The references in the file with the names that they refer to, in order. -/
def references (visit : Visit) : List (Text × Usage) := usagesOfLines visit.file 1 visit.lines

end Visit

/-- The references to one name. -/
def usagesOf (name : Text) (references : List (Text × Usage)) : List Usage :=
  (references.filter fun found => found.1 = name).map Prod.snd

/-- The references of two lists of them. -/
theorem usagesOf_append (name : Text) (first second : List (Text × Usage)) :
    usagesOf name (first ++ second) = usagesOf name first ++ usagesOf name second := by
  rw [usagesOf, List.filter_append, List.map_append]
  rfl

/-- The table holds the references by name, the names in the order of their first reference. -/
structure Gathers (usages : Table Text (List Usage)) (references : List (Text × Usage)) :
    Prop where
  keys : usages.keys = firstOccurrences (references.map Prod.fst)
  usagesOf : ∀ name, (usages.get? name).getD [] = usagesOf name references

section Gathers

variable {usages more : Table Text (List Usage)} {references found : List (Text × Usage)}

/-- Adding entries one after the other adds their names as far as they are new. -/
theorem keys_foldl_addUsages {names : List Text} (h : usages.keys = firstOccurrences names)
    (entries : Table Text (List Usage)) :
    (entries.foldl ScanResult.addUsages usages).keys =
      firstOccurrences (names ++ entries.keys) := by
  induction entries generalizing usages names with
  | nil => simpa [Table.keys] using h
  | cons entry rest ih =>
    have hnext : (ScanResult.addUsages usages entry).keys =
        firstOccurrences (names ++ [entry.1]) := by
      rw [ScanResult.addUsages, Table.keys_put, firstOccurrences_concat, h]
    rw [List.foldl_cons, ih hnext, List.append_assoc]
    rfl

/-- Adding entries one after the other adds all that they hold for a name. -/
theorem get?_foldl_addUsages (usages entries : Table Text (List Usage)) (name : Text) :
    (Table.get? (entries.foldl ScanResult.addUsages usages) name).getD [] =
      (usages.get? name).getD [] ++
        entries.flatMap fun entry => if entry.1 = name then entry.2 else [] := by
  induction entries generalizing usages with
  | nil => simp
  | cons entry rest ih =>
    rw [List.foldl_cons, ih, ScanResult.addUsages, Table.get?_put, List.flatMap_cons]
    by_cases hname : entry.1 = name
    · subst hname
      simp
    · simp [hname]

/-- In a table with distinct names one entry holds everything for a name. -/
theorem flatMap_of_nodup {entries : Table Text (List Usage)} (hnodup : entries.keys.Nodup)
    (name : Text) :
    (entries.flatMap fun entry => if entry.1 = name then entry.2 else []) =
      (entries.get? name).getD [] := by
  induction entries with
  | nil => rfl
  | cons entry rest ih =>
    obtain ⟨hnew, hrest⟩ := List.nodup_cons.mp hnodup
    rw [List.flatMap_cons, ih hrest, Table.get?]
    by_cases hname : entry.1 = name
    · subst hname
      have hnone : Table.get? rest entry.1 = none := Table.get?_eq_none_iff.mpr hnew
      simp [hnone]
    · simp [hname]

/-- No references are gathered in an empty table. -/
theorem Gathers.nil : Gathers [] [] := ⟨rfl, fun _ => rfl⟩

/-- The names of gathered references are distinct. -/
theorem Gathers.nodup (h : Gathers usages references) : usages.keys.Nodup := by
  rw [h.keys]
  exact nodup_firstOccurrences _

/-- An entry of the table holds all references to its name. -/
theorem Gathers.entry (h : Gathers usages references) {entry : Text × List Usage}
    (hentry : entry ∈ usages) : entry.2 = EnvFiles.usagesOf entry.1 references := by
  rw [← h.usagesOf, Table.get?_of_mem h.nodup hentry]
  rfl

/-- References may be gathered one by one. -/
theorem gathers_foldl (references : List (Text × Usage)) :
    Gathers (references.foldl
      (fun usages found => ScanResult.addUsages usages (found.1, [found.2])) []) references := by
  have hfold : references.foldl
      (fun usages found => ScanResult.addUsages usages (found.1, [found.2])) [] =
        (references.map fun found => (found.1, [found.2])).foldl ScanResult.addUsages [] :=
    List.foldl_map.symm
  rw [hfold]
  refine ⟨?_, fun name => ?_⟩
  · have hempty : Table.keys ([] : Table Text (List Usage)) = firstOccurrences [] := rfl
    rw [keys_foldl_addUsages hempty, Table.keys, List.map_map]
    rfl
  · rw [get?_foldl_addUsages, List.flatMap_map]
    clear hfold
    induction references with
    | nil => rfl
    | cons found rest ih =>
      by_cases hname : found.1 = name <;> simp_all [EnvFiles.usagesOf, Table.get?]

/-- References that were gathered by themselves are gathered together. -/
theorem Gathers.append (h : Gathers usages references) (hmore : Gathers more found) :
    Gathers (more.foldl ScanResult.addUsages usages) (references ++ found) := by
  refine ⟨?_, fun name => ?_⟩
  · rw [keys_foldl_addUsages h.keys, hmore.keys, firstOccurrences_append_firstOccurrences,
      List.map_append]
  · rw [get?_foldl_addUsages, h.usagesOf, flatMap_of_nodup hmore.nodup, hmore.usagesOf,
      usagesOf_append]

end Gathers

/-- The visits of a scan: to the files that are text, in order. -/
def visitsOf (root : Node) (base : Path) (files : List SourceFile) : List Visit :=
  files.filterMap fun file =>
    match Node.decode file.2 with
    | .ok text =>
      some ⟨root.placeOf file.1, Text.join "/" (file.1.drop base.length), Text.unifyNewlines text⟩
    | .error _ => none

/-- The result is what the visits come to. -/
structure ScanResult.Tells (result : ScanResult) (visits : List Visit) : Prop where
  files : result.files = visits.length
  lines : result.lines = (visits.flatMap Visit.lines).length
  usages : Gathers result.usages (visits.flatMap Visit.references)

namespace ScanResult.Tells

variable {first second : ScanResult} {visits more : List Visit}

/-- The result of a scan without visits. -/
theorem empty : Tells {} [] := ⟨rfl, rfl, Gathers.nil⟩

/-- The result of one visit. -/
theorem scanText (visit : Visit) : (scanText visit.file visit.text).Tells [visit] where
  files := rfl
  lines := by
    rw [List.flatMap_singleton]
    rfl
  usages := by
    rw [List.flatMap_singleton]
    exact gathers_foldl visit.references

/-- Two results together tell of all visits. -/
theorem append (h : first.Tells visits) (hmore : second.Tells more) :
    (first.append second).Tells (visits ++ more) where
  files := by rw [ScanResult.append, h.files, hmore.files, List.length_append]
  lines := by
    rw [ScanResult.append, h.lines, hmore.lines, List.flatMap_append, List.length_append]
  usages := by
    rw [List.flatMap_append]
    exact h.usages.append hmore.usages

end ScanResult.Tells

section Scans

variable {root : Node} {base : Path} {found : ScanResult} {visits : List Visit} {desk : Desk}
  {config : Config}

/-- What stands below a base is given from there. -/
theorem below?_of_isPrefix {path : Path} (h : base <+: path) :
    Path.below? base path = some (path.drop base.length) := by
  obtain ⟨below, rfl⟩ := h
  rw [List.drop_left]
  induction base with
  | nil => rfl
  | cons part rest ih => rw [List.cons_append, Path.below?, if_pos rfl, ih]

/-- The text of a source file with line feeds for all line ends, if it is text. -/
def textOf? (file : SourceFile) : Option Text :=
  match Node.decode file.2 with
  | .ok text => some (Text.unifyNewlines text)
  | .error _ => none

/-- A file that is text but does not lie below the base. -/
def Strays (base : Path) (file : SourceFile) : Prop :=
  (textOf? file).isSome = true ∧ ¬ base <+: file.1

/-- The desk with a notice for each of the files that is not text. -/
def Desk.skipping (desk : Desk) (files : List SourceFile) : Desk :=
  { desk with log := desk.log ++ (files.filter fun file => (textOf? file).isNone).map fun file =>
      .fileSkipped file.1 }

/-- Each file that is text is visited. -/
theorem visitsOf_eq (root : Node) (base : Path) (files : List SourceFile) :
    visitsOf root base files = files.filterMap fun file => (textOf? file).map fun text =>
      ⟨root.placeOf file.1, Text.join "/" (file.1.drop base.length), text⟩ := by
  rw [visitsOf]
  congr 1
  funext file
  rw [textOf?]
  cases Node.decode file.2 <;> rfl

/-- A source file at the place where it stands. -/
def SourceFile.placed (root : Node) (file : SourceFile) : SourceFile :=
  (root.placeOf file.1, file.2)

/-- The places visited are those of the files that are text. -/
theorem map_place_visitsOf (root : Node) (base : Path) (files : List SourceFile) :
    (visitsOf root base files).map Visit.place =
      ((files.map (SourceFile.placed root)).filter fun file => (textOf? file).isSome).map
        Prod.fst := by
  induction files with
  | nil => rfl
  | cons file rest ih =>
    rw [visitsOf_eq] at ih ⊢
    rw [List.filterMap_cons, List.map_cons, List.filter_cons]
    have htext : textOf? (file.placed root) = textOf? file := rfl
    rw [htext]
    cases textOf? file with
    | none => exact ih
    | some text => exact congrArg (root.placeOf file.1 :: ·) ih

theorem visitsOf_append (root : Node) (base : Path) (first second : List SourceFile) :
    visitsOf root base (first ++ second) = visitsOf root base first ++ visitsOf root base second :=
  List.filterMap_append ..

/-- The notices for files come one after the other. -/
theorem Desk.skipping_append (desk : Desk) (first second : List SourceFile) :
    desk.skipping (first ++ second) = (desk.skipping first).skipping second := by
  simp [Desk.skipping]

/-- What does not stand below a base is not given from there. -/
theorem below?_of_not_isPrefix {path : Path} (h : ¬ base <+: path) :
    Path.below? base path = none := by
  induction base generalizing path with
  | nil => exact absurd List.nil_prefix h
  | cons part rest ih =>
    cases path with
    | nil => rfl
    | cons other more =>
      by_cases hpart : part = other
      · rw [Path.below?, if_pos hpart]
        exact ih fun hrest => h (List.cons_prefix_cons.mpr ⟨hpart, hrest⟩)
      · rw [Path.below?, if_neg hpart]

/-- Scanning one file tells of a visit to it, or passes it over with a notice if it is not text.
It fails for a text that does not lie below the base. -/
theorem endsIn_scanFile (root : Node) (base : Path) (file : SourceFile) (desk : Desk) :
    (scanFile base file).EndsIn desk
      (fun result after => ¬ Strays base file ∧ result.Tells (visitsOf root base [file]) ∧
        after = desk.skipping [file])
      fun failure after => Strays base file ∧ failure = .outsideBase ∧ after = desk := by
  rw [visitsOf_eq, scanFile, Strays, Desk.skipping]
  cases hdecode : Node.decode file.2 with
  | error failure =>
    have htext : textOf? file = none := by rw [textOf?, hdecode]
    simp only [List.filterMap_cons, List.filter_cons, htext]
    exact ⟨by simp, ScanResult.Tells.empty, rfl⟩
  | ok text =>
    have htext : textOf? file = some (Text.unifyNewlines text) := by rw [textOf?, hdecode]
    simp only [List.filterMap_cons, List.filter_cons, htext]
    by_cases hbase : base <+: file.1
    · rw [below?_of_isPrefix hbase]
      refine ⟨by simp [hbase], ScanResult.Tells.scanText ⟨root.placeOf file.1, _, _⟩, ?_⟩
      simp
    · rw [below?_of_not_isPrefix hbase]
      exact ⟨⟨rfl, hbase⟩, rfl, rfl⟩

/-- Scanning files tells of the visits to them, after those before. It fails if one of them
strays. -/
theorem endsIn_scanFiles_strays (root : Node) (files : List SourceFile)
    (hfound : found.Tells visits) (desk : Desk) :
    (scanFiles base found files).EndsIn desk
      (fun result after => (∀ file ∈ files, ¬ Strays base file) ∧
        result.Tells (visits ++ visitsOf root base files) ∧ after = desk.skipping files)
      fun failure _ => failure = .outsideBase ∧ ∃ file ∈ files, Strays base file := by
  induction files generalizing found visits desk with
  | nil =>
    refine ⟨nofun, ?_, ?_⟩
    · rw [visitsOf, List.filterMap_nil, List.append_nil]
      exact hfound
    · simp [Desk.skipping]
  | cons file rest ih =>
    rw [scanFiles, Attempt.endsIn_bind]
    refine (endsIn_scanFile root base file desk).mono (fun result middle h => ?_)
      fun failure _ h => ⟨h.2.1, file, List.mem_cons_self .., h.1⟩
    obtain ⟨hstays, htells, rfl⟩ := h
    refine (ih (hfound.append htells) _).mono (fun last after h => ?_) fun failure _ h => ?_
    · obtain ⟨hrest, htold, rfl⟩ := h
      refine ⟨List.forall_mem_cons.mpr ⟨hstays, hrest⟩, ?_,
        (Desk.skipping_append desk [file] rest).symm⟩
      rwa [List.append_assoc, ← visitsOf_append] at htold
    · obtain ⟨hfailure, other, hother, hstrays⟩ := h
      exact ⟨hfailure, other, List.mem_cons_of_mem _ hother, hstrays⟩

/-- Scanning files below the base tells of the visits to them, after those before. -/
theorem endsIn_scanFiles (root : Node) {files : List SourceFile}
    (hbase : ∀ file ∈ files, base <+: file.1) (hfound : found.Tells visits) :
    (scanFiles base found files).EndsIn desk
      (fun result _ => result.Tells (visits ++ visitsOf root base files)) fun _ _ => False :=
  (endsIn_scanFiles_strays root files hfound desk).mono (fun _ _ h => h.2.1)
    fun _ _ ⟨_, file, hfile, hstrays⟩ => hstrays.2 (hbase file hfile)

end Scans
end EnvFiles
