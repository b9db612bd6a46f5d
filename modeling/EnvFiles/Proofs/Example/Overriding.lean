import EnvFiles.Proofs.Example

/-!
# Overriding definitions

Two schemas together are all their definitions declared one after another. The first definition of
a name says where the name stands and the last one what holds for it. Neither changes when a part of
the definitions is declared beforehand, so it does not matter which schemas are merged first, and
a schema that is merged with itself stays what it comes to alone.
-/

namespace EnvFiles

/-- The last definition of a name. -/
def lastNamed? (definitions : List Definition) (name : Text) : Option Definition :=
  definitions.reverse.find? fun definition => definition.name == name

section Last

variable {definitions : List Definition} {definition : Definition}

/-- A later definition of a name hides the earlier ones. -/
theorem lastNamed?_append (first second : List Definition) (name : Text) :
    lastNamed? (first ++ second) name = (lastNamed? second name).or (lastNamed? first name) := by
  rw [lastNamed?, List.reverse_append, List.find?_append, ← lastNamed?, ← lastNamed?]

/-- A definition is the last one of its name when no later one has the name. -/
theorem lastNamed?_eq_some_iff :
    lastNamed? definitions definition.name = some definition ↔
      ∃ before after, definitions = before ++ definition :: after ∧
        definition.name ∉ after.map Definition.name := by
  rw [lastNamed?, List.find?_eq_some_iff_append]
  constructor
  · rintro ⟨-, later, earlier, hsplit, hlater⟩
    refine ⟨earlier.reverse, later.reverse, ?_, fun hmem => ?_⟩
    · rw [← List.reverse_reverse definitions, hsplit]
      simp
    · obtain ⟨other, hother, hname⟩ := List.mem_map.mp hmem
      have hne := hlater other (List.mem_reverse.mp hother)
      simp [hname] at hne
  · rintro ⟨before, after, rfl, hafter⟩
    refine ⟨beq_self_eq_true _, after.reverse, before.reverse, by simp, fun other hother => ?_⟩
    have hne : other.name ≠ definition.name := fun hname =>
      hafter (hname ▸ List.mem_map_of_mem (List.mem_reverse.mp hother))
    simpa using hne

/-- What is declared are the last definitions of their names. -/
theorem mem_foldl_declare_iff_lastNamed? :
    definition ∈ definitions.foldl declare [] ↔
      lastNamed? definitions definition.name = some definition :=
  mem_foldl_declare_nil_iff.trans lastNamed?_eq_some_iff.symm

end Last

section Repeated

/-- Declared definitions stay as they are when they are declared again. -/
theorem foldl_declare_foldl_declare (definitions : List Definition) :
    (definitions.foldl declare []).foldl declare [] = definitions.foldl declare [] :=
  foldl_declare_of_nodup (nodup_map_name_foldl_declare definitions)

/-- What the first definitions come to stands for them. -/
theorem foldl_declare_append_left (first second : List Definition) :
    (first.foldl declare [] ++ second).foldl declare [] = (first ++ second).foldl declare [] := by
  rw [List.foldl_append, foldl_declare_foldl_declare, List.foldl_append]

/-- What the last definitions come to stands for them. -/
theorem foldl_declare_append_right (first second : List Definition) :
    (first ++ second.foldl declare []).foldl declare [] = (first ++ second).foldl declare [] := by
  rw [foldl_declare_append, foldl_declare_foldl_declare, ← foldl_declare_append]

/-- It does not matter which schemas are merged first. -/
theorem mergeDefinitions_assoc (first second third : List Definition) :
    mergeDefinitions (mergeDefinitions first second) third =
      mergeDefinitions first (mergeDefinitions second third) := by
  calc mergeDefinitions (mergeDefinitions first second) third
      = (first ++ second ++ third).foldl declare [] := foldl_declare_append_left _ _
    _ = (first ++ (second ++ third)).foldl declare [] := by rw [List.append_assoc]
    _ = mergeDefinitions first (mergeDefinitions second third) :=
        (foldl_declare_append_right _ _).symm

/-- Definitions that come again change nothing. -/
theorem mergeDefinitions_self (definitions : List Definition) :
    mergeDefinitions definitions definitions = mergeDefinitions definitions [] := by
  rw [mergeDefinitions, mergeDefinitions, List.append_nil]
  have hnames : ((definitions ++ definitions).foldl declare []).map Definition.name =
      (definitions.foldl declare []).map Definition.name := by
    rw [map_name_foldl_declare, map_name_foldl_declare, List.map_append, firstOccurrences_append,
      List.filter_eq_nil_iff.mpr (by simp)]
    exact List.append_nil _
  refine eq_of_map_name_eq hnames (nodup_map_name_foldl_declare _) fun definition hmem => ?_
  rw [mem_foldl_declare_iff_lastNamed?, lastNamed?_append, Option.or_self] at hmem
  exact mem_foldl_declare_iff_lastNamed?.mpr hmem

end Repeated

/-- Two schemas together have the names of both, each of them once and in order of first
occurrence. Each name has, whole, the last definition that the second schema gives it, or else the
last one of the first schema. Merging is associative, and a schema merged with itself comes to what
it comes to alone. -/
theorem mergeDefinitions_overrides (first second third : List Definition) :
    ((mergeDefinitions first second).map Definition.name).Nodup ∧
      (mergeDefinitions first second).map Definition.name =
        firstOccurrences (first.map Definition.name ++ second.map Definition.name) ∧
      (∀ definition, definition ∈ mergeDefinitions first second ↔
        (lastNamed? second definition.name).or (lastNamed? first definition.name) =
          some definition) ∧
      mergeDefinitions (mergeDefinitions first second) third =
        mergeDefinitions first (mergeDefinitions second third) ∧
      mergeDefinitions first first = mergeDefinitions first [] := by
  refine ⟨nodup_map_name_foldl_declare _, ?_, fun definition => ?_,
    mergeDefinitions_assoc first second third, mergeDefinitions_self first⟩
  · rw [← List.map_append]
    exact map_name_foldl_declare _
  · rw [← lastNamed?_append]
    exact mem_foldl_declare_iff_lastNamed?

end EnvFiles
