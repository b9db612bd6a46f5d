import EnvFiles.Comparison
import EnvFiles.Proofs.Resolution.Filling
import EnvFiles.Proofs.Table
import Mathlib.Data.List.Perm.Lattice

/-!
# What a comparison tells apart

A comparison sorts the definitions of a schema and the names of a table of values. An active
definition is valid or missing, a deprecated one is listed while its name is there, and a name that
nothing declares is extra. No definition gets lost and no name is counted twice. A name is an
override exactly if an active definition declares it, it is shared, and its value is neither empty
nor the canonical one.
-/

namespace EnvFiles

section Members

variable {schema : List Definition} {values : Table Text Text} {workspace : Workspace}
  {sharedValues : Option (Table Text Text)} {sharedNames : List Text} {definition : Definition}

/-- A definition is valid in a comparison when it is active and has a value. -/
theorem mem_valid_compare :
    definition ∈ (compare schema values workspace sharedValues sharedNames).valid ↔
      definition ∈ schema ∧ definition.isActive = true ∧
        values.fills definition.name = true := by
  simp only [compare, List.mem_filter, Definition.isActive, and_assoc]

/-- A definition is missing in a comparison when it is active and has no value. -/
theorem mem_missing_compare :
    definition ∈ (compare schema values workspace sharedValues sharedNames).missing ↔
      definition ∈ schema ∧ definition.isActive = true ∧
        values.fills definition.name = false := by
  simp only [compare, List.mem_filter, Definition.isActive, and_assoc, Bool.not_eq_true']

end Members

section Overrides

variable {schema : List Definition} {values shared : Table Text Text} {workspace : Workspace}
  {sharedNames : List Text} {name value : Text}

/-- A definition gives an override when its name is shared and its value is not the canonical
one. -/
theorem override?_eq_some_iff {definition : Definition} {entry : Text × Text} :
    override? (some shared) sharedNames values definition = some entry ↔
      entry.1 = definition.name ∧ definition.name ∈ sharedNames ∧
        values.get? definition.name = some entry.2 ∧
          ∃ canonical, shared.get? definition.name = some canonical ∧ canonical ≠ entry.2 := by
  obtain ⟨name, value⟩ := entry
  cases hvalue : values.get? definition.name with
  | none => simp [override?, hvalue]
  | some held =>
    cases hcanonical : shared.get? definition.name with
    | none => simp [override?, hvalue, hcanonical]
    | some canonical =>
      simp only [override?, hvalue, hcanonical]
      grind

/-- A comparison reports a value as an override exactly if an active definition declares its name,
the name is shared, and the value is neither empty nor the canonical one. -/
theorem get?_overrides_compare :
    (compare schema values workspace (some shared) sharedNames).overrides.get? name = some value ↔
      (∃ definition ∈ schema, definition.isActive = true ∧ definition.name = name) ∧
        name ∈ sharedNames ∧ values.filled? name = some value ∧
          ∃ canonical, shared.get? name = some canonical ∧ canonical ≠ value := by
  have hentry (entry : Text × Text) :
      entry ∈ (compare schema values workspace (some shared) sharedNames).valid.filterMap
          (override? (some shared) sharedNames values) ↔
        (∃ definition ∈ schema, definition.isActive = true ∧ definition.name = entry.1) ∧
          entry.1 ∈ sharedNames ∧ values.filled? entry.1 = some entry.2 ∧
            ∃ canonical, shared.get? entry.1 = some canonical ∧ canonical ≠ entry.2 := by
    simp only [List.mem_filterMap, mem_valid_compare, override?_eq_some_iff,
      Table.filled?_eq_some_iff, Table.fills_iff]
    constructor
    · rintro ⟨definition, ⟨hmem, hactive, held, hheld, hne⟩, hname, hshared, hvalue, hdiffers⟩
      rw [hname]
      obtain rfl := Option.some.inj (hheld.symm.trans hvalue)
      exact ⟨⟨definition, hmem, hactive, rfl⟩, hshared, ⟨hvalue, hne⟩, hdiffers⟩
    · rintro ⟨⟨definition, hmem, hactive, hname⟩, hshared, ⟨hvalue, hne⟩, hdiffers⟩
      rw [← hname] at hshared hvalue hdiffers
      exact ⟨definition, ⟨hmem, hactive, entry.2, hvalue, hne⟩, hname.symm, hshared, hvalue,
        hdiffers⟩
  rw [← hentry (name, value)]
  refine Table.get?_ofEntries_eq_some_iff fun first hfirst second hsecond hname => ?_
  have hvalue := ((hentry second).mp hsecond).2.2.1
  rw [← hname, ((hentry first).mp hfirst).2.2.1] at hvalue
  exact Option.some.inj hvalue

/-- A comparison reports a name as an override exactly if it is a valid shared one whose value
differs from the canonical one. -/
theorem has_overrides_compare :
    (compare schema values workspace (some shared) sharedNames).overrides.has name = true ↔
      (∃ definition ∈ (compare schema values workspace (some shared) sharedNames).valid,
        definition.name = name) ∧ name ∈ sharedNames ∧
      ∃ value canonical, values.get? name = some value ∧ shared.get? name = some canonical ∧
        canonical ≠ value := by
  simp only [Table.has_iff, get?_overrides_compare, mem_valid_compare, Table.fills_iff,
    Table.filled?_eq_some_iff]
  constructor
  · rintro ⟨value, ⟨definition, hmem, hactive, rfl⟩, hshared, ⟨hvalue, hne⟩, canonical, hcanonical,
      hdiffers⟩
    exact ⟨⟨definition, ⟨hmem, hactive, value, hvalue, hne⟩, rfl⟩, hshared, value, canonical,
      hvalue, hcanonical, hdiffers⟩
  · rintro ⟨⟨definition, ⟨hmem, hactive, held, hheld, hne⟩, rfl⟩, hshared, value, canonical, hvalue,
      hcanonical, hdiffers⟩
    obtain rfl := Option.some.inj (hheld.symm.trans hvalue)
    exact ⟨held, ⟨definition, hmem, hactive, rfl⟩, hshared, ⟨hvalue, hne⟩, canonical, hcanonical,
      hdiffers⟩

end Overrides

/-- A comparison finds one place for each definition of a schema and for each name of some
values. -/
structure Comparison.Partitions (comparison : Comparison) (schema : List Definition)
    (values : Table Text Text) : Prop where
  /-- The valid definitions stand in the order of the schema. -/
  valid_sublist : comparison.valid.Sublist schema
  /-- So do the missing ones. -/
  missing_sublist : comparison.missing.Sublist schema
  /-- A definition is valid if it is not deprecated and has a value that is not empty. -/
  mem_valid_iff : ∀ definition ∈ schema, (definition ∈ comparison.valid ↔
    definition.requirement ≠ .deprecated ∧
      ∃ value, values.get? definition.name = some value ∧ value ≠ [])
  /-- A definition is missing if it is not deprecated and has no value or an empty one. -/
  mem_missing_iff : ∀ definition ∈ schema, (definition ∈ comparison.missing ↔
    definition.requirement ≠ .deprecated ∧
      (values.get? definition.name = none ∨ values.get? definition.name = some []))
  /-- The definitions that are not deprecated are valid or missing, each of them once. -/
  active_perm : (comparison.valid ++ comparison.missing).Perm
    (schema.filter fun definition => definition.requirement ≠ .deprecated)
  /-- A deprecated name is listed if it has a value, empty or not. -/
  mem_deprecated_iff : ∀ name, name ∈ comparison.deprecated ↔
    (∃ definition ∈ schema, definition.requirement = .deprecated ∧ definition.name = name) ∧
      name ∈ values.keys
  /-- The extra names stand in the order of the values. -/
  extra_sublist : comparison.extra.Sublist values.keys
  /-- A name is extra if it has a value and no definition. -/
  mem_extra_iff : ∀ name, name ∈ comparison.extra ↔
    name ∈ values.keys ∧ name ∉ schema.map Definition.name
  /-- The names of the values are those of valid definitions, of missing definitions with an empty
  value, of deprecated definitions and the extra ones, each of them once. -/
  names_perm : (comparison.valid.map Definition.name ++
    (comparison.missing.filter fun definition =>
      values.get? definition.name = some []).map Definition.name ++
    comparison.deprecated ++ comparison.extra).Perm values.keys
  /-- The missing definitions are the required and the optional ones among them, each of them
  once. -/
  missing_perm : (comparison.missingOf .required ++ comparison.missingOf .optional).Perm
    comparison.missing
  /-- No missing definition is both required and optional. -/
  missing_disjoint : (comparison.missingOf .required).Disjoint (comparison.missingOf .optional)

section Partition

variable {schema : List Definition} {values : Table Text Text} {workspace : Workspace}
  {sharedValues : Option (Table Text Text)} {sharedNames : List Text}

/-- A key that is there and not filled has an empty value. -/
theorem Table.get?_eq_some_nil_iff {table : Table Text Text} {key : Text} :
    table.get? key = some [] ↔ table.has key = true ∧ table.fills key = false := by
  rw [Table.has, Table.fills_eq]
  cases table.get? key <;> simp

/-- The definitions whose names have a value are the valid ones, the missing ones with an empty
value and the deprecated ones among them. -/
theorem declared_perm_compare (schema : List Definition) (values : Table Text Text)
    (workspace : Workspace) (sharedValues : Option (Table Text Text)) (sharedNames : List Text) :
    let comparison := compare schema values workspace sharedValues sharedNames
    (comparison.valid ++ (comparison.missing.filter fun definition =>
        values.get? definition.name = some []) ++
      schema.filter fun definition =>
        definition.requirement = .deprecated && values.has definition.name).Perm
      (schema.filter fun definition => values.has definition.name) := by
  intro comparison
  let present := schema.filter fun definition => values.has definition.name
  have hvalid : comparison.valid = (present.filter Definition.isActive).filter fun definition =>
      values.fills definition.name := by
    simp only [comparison, compare, present, List.filter_filter]
    refine List.filter_congr fun definition _ => ?_
    cases hfills : values.fills definition.name with
    | false => rfl
    | true => simp [Definition.isActive, Table.has_of_fills hfills]
  have hempty : (comparison.missing.filter fun definition =>
      values.get? definition.name = some []) =
        (present.filter Definition.isActive).filter fun definition =>
          !values.fills definition.name := by
    simp only [comparison, compare, present, List.filter_filter, Table.get?_eq_some_nil_iff]
    refine List.filter_congr fun definition _ => ?_
    cases values.fills definition.name <;> simp [Definition.isActive, Bool.and_comm]
  have hdeprecated : (schema.filter fun definition =>
      definition.requirement = .deprecated && values.has definition.name) =
        present.filter fun definition => !definition.isActive := by
    simp only [present, List.filter_filter]
    refine List.filter_congr fun definition _ => ?_
    simp [Definition.isActive]
  rw [hvalid, hempty, hdeprecated]
  exact ((List.filter_append_perm _ _).append_right _).trans (List.filter_append_perm _ present)

/-- The names of a schema that have a value are, in some order, the declared names of the values. -/
theorem map_name_filter_perm (hschema : (schema.map Definition.name).Nodup)
    (hvalues : values.keys.Nodup) :
    ((schema.filter fun definition => values.has definition.name).map Definition.name).Perm
      (values.keys.filter fun name => (schema.map Definition.name).contains name) := by
  refine (List.perm_ext_iff_of_nodup (hschema.sublist (List.filter_sublist.map _))
    (hvalues.filter _)).mpr fun name => ?_
  simp only [List.mem_map, List.mem_filter, List.contains_iff_mem, Table.mem_keys_iff,
    Table.has_iff]
  constructor
  · rintro ⟨definition, ⟨hmem, hvalue⟩, rfl⟩
    exact ⟨hvalue, definition, hmem, rfl⟩
  · rintro ⟨hvalue, definition, hmem, rfl⟩
    exact ⟨definition, ⟨hmem, hvalue⟩, rfl⟩

/-- The missing definitions are the required and the optional ones among them. -/
theorem missingOf_perm_compare (schema : List Definition) (values : Table Text Text)
    (workspace : Workspace) (sharedValues : Option (Table Text Text)) (sharedNames : List Text) :
    let comparison := compare schema values workspace sharedValues sharedNames
    (comparison.missingOf .required ++ comparison.missingOf .optional).Perm comparison.missing := by
  intro comparison
  have hoptional : comparison.missingOf .optional = comparison.missing.filter fun definition =>
      !decide (definition.requirement = .required) := by
    refine List.filter_congr fun definition hmem => ?_
    have hactive := (mem_missing_compare.mp hmem).2.1
    cases hlevel : definition.requirement <;> simp [Definition.isActive, hlevel] at hactive ⊢
  rw [hoptional]
  exact List.filter_append_perm _ _

/-- Of a schema with distinct names and values with distinct keys, a comparison finds exactly one
place for every definition and for every name. A definition that is not deprecated is valid or
missing, by whether its value is there and not empty; a deprecated one is listed while its name is
there; a name without a definition is extra. Every name of the values is counted once, and what is
missing is either required or optional. -/
theorem compare_partitions (schema : List Definition) (values : Table Text Text)
    (workspace : Workspace) (sharedValues : Option (Table Text Text)) (sharedNames : List Text)
    (hschema : (schema.map Definition.name).Nodup) (hvalues : values.keys.Nodup) :
    (compare schema values workspace sharedValues sharedNames).Partitions schema values where
  valid_sublist := List.filter_sublist.trans List.filter_sublist
  missing_sublist := List.filter_sublist.trans List.filter_sublist
  mem_valid_iff definition hmem := by
    rw [mem_valid_compare, and_iff_right hmem, Table.fills_iff, Definition.isActive,
      decide_eq_true_eq]
  mem_missing_iff definition hmem := by
    rw [mem_missing_compare, and_iff_right hmem, Table.fills_eq, Definition.isActive,
      decide_eq_true_eq]
    cases values.get? definition.name <;> simp
  active_perm := List.filter_append_perm _ _
  mem_deprecated_iff name := by
    simp only [compare, List.mem_map, List.mem_filter, Bool.and_eq_true, decide_eq_true_eq,
      Table.mem_keys_iff, Table.has_iff]
    constructor
    · rintro ⟨definition, ⟨hmem, hlevel, hvalue⟩, rfl⟩
      exact ⟨⟨definition, hmem, hlevel, rfl⟩, hvalue⟩
    · rintro ⟨⟨definition, hmem, hlevel, rfl⟩, hvalue⟩
      exact ⟨definition, ⟨hmem, hlevel, hvalue⟩, rfl⟩
  extra_sublist := List.filter_sublist
  mem_extra_iff name := by
    simp only [compare, List.mem_filter, List.contains_eq_mem, Bool.not_eq_true',
      decide_eq_false_iff_not]
  names_perm := by
    have hdeclared := (declared_perm_compare schema values workspace sharedValues
      sharedNames).map Definition.name
    rw [List.map_append, List.map_append] at hdeclared
    exact ((hdeclared.trans (map_name_filter_perm hschema hvalues)).append_right _).trans
      (List.filter_append_perm _ _)
  missing_perm := missingOf_perm_compare schema values workspace sharedValues sharedNames
  missing_disjoint := by
    intro definition hrequired hoptional
    have hlevel := of_decide_eq_true (List.mem_filter.mp hrequired).2
    rw [of_decide_eq_true (List.mem_filter.mp hoptional).2] at hlevel
    cases hlevel

/-- All three levels with values that are there, empty and absent, and two names without a
definition. -/
theorem compare_partitions_mixed :
    let schema : List Definition := [{ name := "A", requirement := .required }, { name := "B" },
      { name := "C", requirement := .deprecated }, { name := "D", requirement := .required },
      { name := "E" }, { name := "F", requirement := .deprecated }]
    let values : Table Text Text := [("Y", ""), ("B", ""), ("C", ""), ("A", "1"), ("X", "2")]
    let comparison := compare schema values default
    ((schema.map Definition.name).Nodup ∧ values.keys.Nodup) ∧
      comparison.Partitions schema values ∧
      comparison.valid.map Definition.name = (["A"] : List Text) ∧
      comparison.missing.map Definition.name = (["B", "D", "E"] : List Text) ∧
      comparison.deprecated = (["C"] : List Text) ∧
      comparison.extra = (["Y", "X"] : List Text) := by
  intro schema values comparison
  have hschema : (schema.map Definition.name).Nodup := by decide
  have hvalues : values.keys.Nodup := by decide
  exact ⟨⟨hschema, hvalues⟩, compare_partitions schema values default none [] hschema hvalues,
    by decide, by decide, by decide, by decide⟩

end Partition
end EnvFiles
