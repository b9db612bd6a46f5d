import EnvFiles.Proofs.Comparison
import EnvFiles.Proofs.Example.Reading
import EnvFiles.Proofs.Values.Declarations

/-!
# Example files read as values files

Two readers go over the lines of one text. The one looks for definitions and collects the comments
above them, the other looks for values and keeps one comment line. Both take the same lines for
assignments and let the last assignment of a name count in the place of the first, so that an
example file holds as values just what its definitions give as examples.
-/

namespace EnvFiles

/-- The name and the example value of a definition. -/
def Definition.entry (definition : Definition) : Text × Text :=
  (definition.name, definition.exampleValue)

/-- Definitions declared one after another have the entries of a table in which later ones override
earlier ones. -/
theorem map_entry_foldl_declare (definitions : List Definition) :
    (definitions.foldl declare []).map Definition.entry =
      Table.ofEntries (definitions.map Definition.entry) := by
  induction definitions using List.reverseRecOn with
  | nil => rfl
  | append_singleton definitions last ih =>
    rw [List.foldl_concat, List.map_append, List.map_singleton, Table.ofEntries_concat, ← ih]
    exact map_upsert_of_key Definition.name Prod.fst Definition.entry (fun _ => rfl) last _

/-- Both readers take the same lines for assignments, whatever comment is pending. -/
theorem map_declarationsFrom (pending : PendingComment) (lines : List Text) :
    (declarationsFrom pending lines).map
        (fun declaration => (declaration.name, declaration.value)) = lines.filterMap declared? := by
  induction lines generalizing pending with
  | nil => rfl
  | cons line rest ih =>
    simp only [declarationsFrom, List.filterMap_cons, declared?]
    split
    · rename_i hblank
      rw [List.isEmpty_iff.mp hblank]
      exact ih {}
    · split
      · exact ih _
      · cases assignment? (Text.trim line) with
        | none => exact ih pending
        | some assigned => exact congrArg _ (ih {})

/-- What assignments come to has their names and values. -/
theorem map_entry_of_forall₂ {patterns : List DirectivePattern} {declarations : List Declaration}
    {definitions : List Definition}
    (h : List.Forall₂ (fun declaration definition => Declaration.read patterns declaration =
      .ok definition) declarations definitions) :
    definitions.map Definition.entry =
      declarations.map fun declaration => (declaration.name, declaration.value) := by
  induction h with
  | nil => rfl
  | cons hread _ ih =>
    obtain ⟨hname, hvalue, -⟩ := read_eq_ok_iff.mp hread
    rw [List.map_cons, List.map_cons, ih, Definition.entry, hname, hvalue]

/-- An example file that is read holds as values what its definitions give as examples. -/
theorem map_entry_readExample {patterns : List DirectivePattern} {text sourcePath : Text}
    {schema : Schema} (h : readExample patterns text sourcePath = .ok schema) :
    schema.definitions.map Definition.entry = (readValues text).values := by
  obtain ⟨definitions, hread, rfl⟩ := readExample_eq_ok_iff_forall₂.mp h
  rw [map_entry_foldl_declare, map_entry_of_forall₂ hread, declarationsOf, map_declarationsFrom,
    readValues_values]

/-- A definition of an example file has its example as the value of its name. -/
theorem get?_values_of_mem_readExample {patterns : List DirectivePattern} {text sourcePath : Text}
    {schema : Schema} (h : readExample patterns text sourcePath = .ok schema)
    {definition : Definition} (hmem : definition ∈ schema.definitions) :
    (readValues text).values.get? definition.name = some definition.exampleValue := by
  have hnodup : (readValues text).values.keys.Nodup := by
    rw [readValues_values]
    exact Table.nodup_keys_ofEntries _
  have hentry : definition.entry ∈ (readValues text).values := by
    rw [← map_entry_readExample h]
    exact List.mem_map_of_mem hmem
  exact Table.get?_of_mem hnodup hentry

/-- The example reader and the values reader see the same assignments. Whatever patterns plugins
have, if an example file is read then its definitions have the names and the values that the text
has as a values file, in the same order. So comparing them with that text finds no extra name, and
a definition that is not deprecated valid exactly if its example value is not empty, and otherwise
missing. -/
theorem readExample_asValues (patterns : List DirectivePattern) (text sourcePath : Text)
    (schema : Schema) (workspace : Workspace) (sharedValues : Option (Table Text Text))
    (sharedNames : List Text) (h : readExample patterns text sourcePath = .ok schema) :
    let comparison :=
      compare schema.definitions (readValues text).values workspace sharedValues sharedNames
    schema.definitions.map (fun definition => (definition.name, definition.exampleValue)) =
        (readValues text).values ∧
      comparison.extra = [] ∧
      ∀ definition ∈ schema.definitions, definition.requirement ≠ .deprecated →
        (definition ∈ comparison.valid ↔ definition.exampleValue ≠ []) ∧
          (definition ∈ comparison.missing ↔ definition.exampleValue = []) := by
  intro comparison
  have hentries := map_entry_readExample h
  refine ⟨hentries, ?_, fun definition hmem hlevel => ?_⟩
  · have hnames : (readValues text).values.keys = schema.definitions.map Definition.name := by
      rw [← hentries, Table.keys, List.map_map]
      rfl
    refine List.filter_eq_nil_iff.mpr fun name hname => ?_
    rw [hnames] at hname
    simpa using hname
  · have hactive : definition.isActive = true := decide_eq_true hlevel
    rw [mem_valid_compare, mem_missing_compare, Table.fills_eq,
      get?_values_of_mem_readExample h hmem]
    simp [hmem, hactive]

/-- Three lines between two line feeds, a line that is nothing, a name that comes again, and a tag
of a plugin. -/
theorem readExample_asValues_repeated :
    let vault : DirectivePattern :=
      ⟨"vault", fun comment => if comment = "[vault]" then some comment else none⟩
    let text : Text :=
      "A=1\x0cB= \r# of C\n?\nC=2 3\n# [deprecated]\nD=\n# [vault]\nA=4\n"
    let schema : Schema := { definitions := [
      { name := "A", exampleValue := "4", directive := .plugin "vault" "[vault]",
        rawComment := "[vault]" },
      { name := "B" },
      { name := "C", exampleValue := "2 3", description := "of C", rawComment := "of C" },
      { name := "D", requirement := .deprecated, rawComment := "[deprecated]" }] }
    readExample [vault] text = .ok schema ∧
      (readValues text).values =
        ([("A", "4"), ("B", ""), ("C", "2 3"), ("D", "")] : Table Text Text) ∧
      ∀ definition ∈ schema.definitions, definition.requirement ≠ .deprecated →
        (definition ∈ (compare schema.definitions (readValues text).values default).valid ↔
          definition.exampleValue ≠ []) := by
  intro vault text schema
  have h : readExample [vault] text = .ok schema := by rfl
  obtain ⟨hentries, -, hvalid⟩ :=
    readExample_asValues [vault] text [] schema default none [] h
  exact ⟨h, hentries.symm, fun definition hmem hlevel => (hvalid definition hmem hlevel).1⟩

end EnvFiles
