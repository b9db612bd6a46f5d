import EnvFiles.Proofs.Scan.Visits
import EnvFiles.Scan.Diagnosis
import Mathlib.Data.List.Perm.Lattice

/-!
# What a diagnosis tells apart

A diagnosis sorts the names that are used and the names that are declared. A used name is defined if
it is declared and missing if it is neither declared nor provided; a declared name that is not used
is unused, unless it is used elsewhere. So every name has one place at most, and it is known when it
has none. The used names are those of several scans, whose findings are joined name by name.
-/

namespace EnvFiles

/-- A diagnosis finds one place for each used name and for each declared one, apart from those that
it leaves out on purpose. -/
structure Diagnosis.Partitions (diagnosis : Diagnosis) (usages : Table Text (List Usage))
    (declared ignoreMissing ignoreUnused : List Text) : Prop where
  /-- The missing names stand in the order of the usages, each with all its references. -/
  missing_sublist : diagnosis.missing.Sublist usages
  /-- The defined names stand in the order of the usages. -/
  defined_sublist : diagnosis.defined.Sublist usages.keys
  /-- The unused names stand in the order of their first declarations. -/
  unused_sublist : diagnosis.unused.Sublist (firstOccurrences declared)
  /-- A used name is defined if it is declared. -/
  mem_defined_iff : ∀ name, name ∈ diagnosis.defined ↔ name ∈ usages.keys ∧ name ∈ declared
  /-- A used name is missing if it is neither declared nor ignored. -/
  mem_missing_iff : ∀ name, name ∈ diagnosis.missing.keys ↔
    name ∈ usages.keys ∧ name ∉ declared ∧ name ∉ ignoreMissing
  /-- A missing name has the same references as before. -/
  get?_missing : ∀ name ∈ diagnosis.missing.keys, diagnosis.missing.get? name = usages.get? name
  /-- A declared name is unused if it is neither used nor ignored. -/
  mem_unused_iff : ∀ name, name ∈ diagnosis.unused ↔
    name ∈ declared ∧ name ∉ usages.keys ∧ name ∉ ignoreUnused
  /-- The used names are the defined ones, the missing ones and those that are ignored without being
  declared, each of them once. -/
  used_perm : (diagnosis.defined ++ diagnosis.missing.keys ++
    usages.keys.filter fun name => name ∉ declared ∧ name ∈ ignoreMissing).Perm usages.keys
  /-- The declared names are the defined ones, the unused ones and those that are ignored without
  being used, each of them once. -/
  declared_perm : (diagnosis.defined ++ diagnosis.unused ++
    (firstOccurrences declared).filter fun name => name ∉ usages.keys ∧ name ∈ ignoreUnused).Perm
      (firstOccurrences declared)

section Diagnoses

variable {usages : Table Text (List Usage)} {declared ignoreMissing ignoreUnused : List Text}
  {name : Text}

/-- A name is missing if it is found without being declared or provided. -/
theorem mem_missing_iff :
    name ∈ (diagnose usages declared ignoreMissing ignoreUnused).missing.keys ↔
      name ∉ declared ∧ name ∉ ignoreMissing ∧ name ∈ usages.keys := by
  rw [diagnose, Table.keys_filter usages fun name =>
    !declared.contains name && !ignoreMissing.contains name, List.mem_filter, and_comm]
  simp [and_assoc]

/-- A table has the keys that stand in it. -/
theorem has_iff_mem_keys : usages.has name = true ↔ name ∈ usages.keys :=
  Table.has_iff.trans Table.mem_keys_iff.symm

/-- A name is unused if it is declared and not found, unless it is used elsewhere. -/
theorem mem_unused_iff :
    name ∈ (diagnose usages declared ignoreMissing ignoreUnused).unused ↔
      name ∈ declared ∧ name ∉ ignoreUnused ∧ name ∉ usages.keys := by
  rw [diagnose, List.mem_filter, mem_firstOccurrences, Bool.and_eq_true, Bool.not_eq_true',
    ← Bool.not_eq_true, has_iff_mem_keys]
  simp [and_comm]

/-- The used names have one place each, or are left out as provided. -/
theorem used_perm_diagnose (usages : Table Text (List Usage))
    (declared ignoreMissing ignoreUnused : List Text) :
    let diagnosis := diagnose usages declared ignoreMissing ignoreUnused
    (diagnosis.defined ++ diagnosis.missing.keys ++
      usages.keys.filter fun name => name ∉ declared ∧ name ∈ ignoreMissing).Perm usages.keys := by
  intro diagnosis
  let undeclared := usages.keys.filter fun name => !declared.contains name
  have hmissing : diagnosis.missing.keys =
      undeclared.filter fun name => !ignoreMissing.contains name := by
    simp only [diagnosis, diagnose, undeclared, List.filter_filter]
    rw [Table.keys_filter usages fun name =>
      !declared.contains name && !ignoreMissing.contains name]
    simp only [Bool.and_comm]
  have hignored : (usages.keys.filter fun name => name ∉ declared ∧ name ∈ ignoreMissing) =
      undeclared.filter fun name => !!ignoreMissing.contains name := by
    simp only [undeclared, List.filter_filter]
    apply List.filter_congr
    simp [Bool.and_comm]
  have hundeclared : (diagnosis.missing.keys ++
      usages.keys.filter fun name => name ∉ declared ∧ name ∈ ignoreMissing).Perm undeclared := by
    rw [hmissing, hignored]
    exact List.filter_append_perm _ undeclared
  rw [List.append_assoc]
  exact (hundeclared.append_left _).trans (List.filter_append_perm _ usages.keys)

/-- The declared names have one place each, or are left out as used elsewhere. -/
theorem declared_perm_diagnose (hnodup : usages.keys.Nodup)
    (declared ignoreMissing ignoreUnused : List Text) :
    let diagnosis := diagnose usages declared ignoreMissing ignoreUnused
    (diagnosis.defined ++ diagnosis.unused ++
      (firstOccurrences declared).filter fun name =>
        name ∉ usages.keys ∧ name ∈ ignoreUnused).Perm (firstOccurrences declared) := by
  intro diagnosis
  let notUsed := (firstOccurrences declared).filter fun name => !usages.has name
  -- The defined names are listed as they are used, not as they are declared.
  have hdefined : diagnosis.defined.Perm
      ((firstOccurrences declared).filter fun name => usages.has name) := by
    apply (List.perm_ext_iff_of_nodup (hnodup.filter _)
      ((nodup_firstOccurrences declared).filter _)).mpr
    intro name
    simp [has_iff_mem_keys, and_comm]
  have hunused : diagnosis.unused = notUsed.filter fun name => !ignoreUnused.contains name := by
    simp only [diagnosis, diagnose, notUsed, List.filter_filter, Bool.and_comm]
  have hignored : ((firstOccurrences declared).filter fun name =>
      name ∉ usages.keys ∧ name ∈ ignoreUnused) =
        notUsed.filter fun name => !!ignoreUnused.contains name := by
    simp only [notUsed, List.filter_filter, ← has_iff_mem_keys]
    apply List.filter_congr
    simp [Bool.and_comm]
  have hnotUsed : (diagnosis.unused ++ (firstOccurrences declared).filter fun name =>
      name ∉ usages.keys ∧ name ∈ ignoreUnused).Perm notUsed := by
    rw [hunused, hignored]
    exact List.filter_append_perm _ notUsed
  rw [List.append_assoc]
  exact (hdefined.append hnotUsed).trans (List.filter_append_perm _ (firstOccurrences declared))

/-- A diagnosis of usages under distinct names finds one place for each name. -/
theorem partitions_diagnose (hnodup : usages.keys.Nodup)
    (declared ignoreMissing ignoreUnused : List Text) :
    (diagnose usages declared ignoreMissing ignoreUnused).Partitions usages declared ignoreMissing
      ignoreUnused where
  missing_sublist := List.filter_sublist
  defined_sublist := List.filter_sublist
  unused_sublist := List.filter_sublist
  mem_defined_iff name := by simp [diagnose]
  mem_missing_iff name := by
    rw [mem_missing_iff]
    tauto
  get?_missing name hname := by
    obtain ⟨hdeclared, hignored, -⟩ := mem_missing_iff.mp hname
    rw [diagnose, Table.get?_filter usages fun name =>
      !declared.contains name && !ignoreMissing.contains name]
    simp [hdeclared, hignored]
  mem_unused_iff name := by
    rw [mem_unused_iff]
    tauto
  used_perm := used_perm_diagnose usages declared ignoreMissing ignoreUnused
  declared_perm := declared_perm_diagnose hnodup declared ignoreMissing ignoreUnused

end Diagnoses

namespace ScanResult

/-- All that a scan found for a name. -/
def evidence (scan : ScanResult) (name : Text) : List Usage :=
  scan.usages.flatMap fun entry => if entry.1 = name then entry.2 else []

/-- A result joins those of some scans: it counts all their files and lines, and under each name,
in the order in which the names were first met, it has all that they found. -/
structure Joins (merged : ScanResult) (scans : List ScanResult) : Prop where
  files : merged.files = scans.foldl (fun count scan => count + scan.files) 0
  lines : merged.lines = scans.foldl (fun count scan => count + scan.lines) 0
  keys : merged.usages.keys = firstOccurrences (scans.flatMap fun scan => scan.usages.keys)
  get?_usages : ∀ name, (merged.usages.get? name).getD [] =
    scans.flatMap fun scan => scan.evidence name

/-- The names of joined results are distinct. -/
theorem Joins.nodup_keys {merged : ScanResult} {scans : List ScanResult}
    (h : merged.Joins scans) : merged.usages.keys.Nodup := by
  rw [h.keys]
  exact nodup_firstOccurrences _

/-- Merged results are joined. -/
theorem joins_merge (scans : List ScanResult) : (merge scans).Joins scans := by
  induction scans using List.reverseRecOn with
  | nil => exact ⟨rfl, rfl, rfl, fun _ => rfl⟩
  | append_singleton scans scan ih =>
    have hmerge : merge (scans ++ [scan]) = (merge scans).append scan := List.foldl_concat ..
    rw [hmerge]
    constructor
    · simp [append, ih.files]
    · simp [append, ih.lines]
    · simp [append, keys_foldl_addUsages ih.keys]
    · intro name
      simp [append, get?_foldl_addUsages, ih.get?_usages, evidence]

end ScanResult
end EnvFiles
