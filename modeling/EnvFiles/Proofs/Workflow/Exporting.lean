import EnvFiles.Proofs.Store.Memory
import EnvFiles.Proofs.Values.LineEnds
import EnvFiles.Proofs.Workflow.Kept
import EnvFiles.Workflow.Export

/-!
# Reading exports back

An export writes one line for each declared name with a value that is not empty. Names are made of
name characters and values are single lines without blanks at their ends, so the reader of values
files finds in each line of an export for a values file the entry that it was written for. A shell
finds the same entries in an export for a shell: quotes enclose everything in a value but the
quotes, and each of those stands escaped between two quoted pieces.
-/

namespace EnvFiles

/-- A word as a shell reads it. Quoted text stands for itself, outside quotes only an escaped quote
is known, and what follows goes on with the word. The flag tells whether quotes are open; a word
cannot end there. -/
def shellWordFrom? : Bool → Text → Option Text
  | false, [] => some []
  | true, [] => none
  | false, '\'' :: rest => shellWordFrom? true rest
  | false, '\\' :: '\'' :: rest => ('\'' :: ·) <$> shellWordFrom? false rest
  | false, _ :: _ => none
  | true, c :: rest =>
    if c = '\'' then shellWordFrom? false rest else (c :: ·) <$> shellWordFrom? true rest

/-- The name and the value that a line of a shell exports; the value is the whole rest. -/
def shellAssignment? (line : Text) : Option (Text × Text) := do
  let (name, rest) ← takeName? (← Text.dropStart? "export " line)
  match rest with
  | '=' :: word => (name, ·) <$> shellWordFrom? false word
  | _ => none

/-- What the lines of a text export, each of them ended by a line feed and an assignment of its
own. -/
def readShell? (text : Text) : Option (Table Text Text) :=
  let pieces := Text.splitAt '\n' text
  if pieces.getLast? = some [] then pieces.dropLast.mapM shellAssignment? else none

section Shell

/-- The line of an entry in an export for a shell. -/
theorem exportLine_shell (entry : Text × Text) :
    exportLine .shell entry = "export " ++ entry.1 ++ ['='] ++ shellQuoted entry.2 := rfl

/-- The line of an entry in an export for a values file. -/
theorem exportLine_values (entry : Text × Text) :
    exportLine .values entry = entry.1 ++ ['='] ++ entry.2 := rfl

/-- A character between quotes, as a quoted value has it. -/
theorem shellWordFrom?_true_append (c : Char) (rest : Text) :
    shellWordFrom? true ((if c = '\'' then "'\\''" else [c] : Text) ++ rest) =
      (c :: ·) <$> shellWordFrom? true rest := by
  by_cases hc : c = '\''
  · subst hc
    rfl
  · rw [if_neg hc, List.singleton_append, shellWordFrom?, if_neg hc]

/-- A quoted value is read as the value, and the word goes on behind it. -/
theorem shellWordFrom?_shellQuoted (value rest : Text) :
    shellWordFrom? false (shellQuoted value ++ rest) =
      (value ++ ·) <$> shellWordFrom? false rest := by
  have hinside (value : Text) :
      shellWordFrom? true ((value.flatMap fun c => if c = '\'' then "'\\''" else [c]) ++
        '\'' :: rest) = (value ++ ·) <$> shellWordFrom? false rest := by
    induction value with
    | nil => simp [shellWordFrom?]
    | cons c value ih =>
      rw [List.flatMap_cons, List.append_assoc, shellWordFrom?_true_append, ih]
      simp [Function.comp_def]
  rw [shellQuoted, List.append_assoc]
  exact hinside value

/-- A line of an export for a shell is an assignment of its entry. -/
theorem shellAssignment?_exportLine {entry : Text × Text} (hname : isName entry.1 = true) :
    shellAssignment? (exportLine .shell entry) = some entry := by
  have hstart : Text.dropStart? "export " (exportLine .shell entry) =
      some (entry.1 ++ '=' :: shellQuoted entry.2) := by
    rw [Text.dropStart?_eq_some_iff, exportLine_shell]
    simp
  have htake : takeName? (entry.1 ++ '=' :: shellQuoted entry.2) =
      some (entry.1, '=' :: shellQuoted entry.2) := by
    refine takeName?_eq_some_iff.mpr ⟨rfl, hname, fun c hc => ?_⟩
    obtain rfl := Option.some.inj hc
    decide
  have hword : shellWordFrom? false (shellQuoted entry.2) = some entry.2 := by
    have hquoted := shellWordFrom?_shellQuoted entry.2 []
    rw [List.append_nil] at hquoted
    rw [hquoted]
    simp [shellWordFrom?]
  rw [shellAssignment?, hstart]
  change takeName? _ >>= _ = _
  rw [htake]
  change (entry.1, ·) <$> shellWordFrom? false (shellQuoted entry.2) = _
  rw [hword]
  rfl

/-- Quoting adds no line feed. -/
theorem notMem_shellQuoted {value : Text} (h : '\n' ∉ value) : '\n' ∉ shellQuoted value := by
  intro hmem
  simp only [shellQuoted, List.mem_append, List.mem_flatMap] at hmem
  rcases hmem with (hmem | ⟨c, hc, hmem⟩) | hmem
  · exact absurd hmem (by decide)
  · split at hmem
    · exact absurd hmem (by decide)
    · exact h (List.mem_singleton.mp hmem ▸ hc)
  · exact absurd hmem (by decide)

/-- Lines with a line feed behind each of them are the pieces before an empty one. -/
theorem splitAt_flatMap {lines : List Text} (h : ∀ line ∈ lines, '\n' ∉ line) :
    Text.splitAt '\n' (lines.flatMap fun line => line ++ ['\n']) = lines ++ [[]] := by
  induction lines with
  | nil => rfl
  | cons line rest ih =>
    obtain ⟨hline, hrest⟩ := List.forall_mem_cons.mp h
    rw [List.flatMap_cons, List.append_assoc, List.singleton_append, splitAt_append hline, ih hrest,
      List.cons_append]

end Shell

section Entries

/-- Entries that an export writes: distinct names, and values on one line without blanks at their
ends. -/
structure PlainExport (entries : Table Text Text) : Prop where
  nodup_keys : entries.keys.Nodup
  isName_of_mem : ∀ entry ∈ entries, isName entry.1 = true
  isOneLine_of_mem : ∀ entry ∈ entries, Text.isOneLine entry.2 = true
  trimEnd_of_mem : ∀ entry ∈ entries, Text.trimEnd entry.2 = entry.2

/-- The text of an export with one line for each entry. -/
def exportText (format : ExportFormat) (entries : Table Text Text) : Text :=
  (entries.map (exportLine format)).flatMap fun line => line ++ ['\n']

variable {entries : Table Text Text}

/-- A shell reads the entries of an export back. -/
theorem readShell?_exportText (h : PlainExport entries) :
    readShell? (exportText .shell entries) = some entries := by
  have hfeed : ∀ line ∈ entries.map (exportLine .shell), '\n' ∉ line := by
    intro line hline hmem
    obtain ⟨entry, hentry, rfl⟩ := List.mem_map.mp hline
    simp only [exportLine_shell, List.mem_append] at hmem
    rcases hmem with ((hmem | hmem) | hmem) | hmem
    · exact absurd hmem (by simp)
    · exact Text.lineFeed_notMem_of_isOneLine (isOneLine_of_isName (h.isName_of_mem _ hentry)) hmem
    · exact absurd hmem (by decide)
    · exact notMem_shellQuoted
        (Text.lineFeed_notMem_of_isOneLine (h.isOneLine_of_mem _ hentry)) hmem
  have hlines : (entries.map (exportLine .shell)).mapM shellAssignment? = some entries := by
    have hnames := h.isName_of_mem
    clear h hfeed
    induction entries with
    | nil => rfl
    | cons entry rest ih =>
      obtain ⟨hname, hrest⟩ := List.forall_mem_cons.mp hnames
      simp [shellAssignment?_exportLine hname, ih hrest]
  rw [readShell?, exportText, splitAt_flatMap hfeed]
  simpa using hlines

/-- The reader of values files reads the entries of an export back. -/
theorem readValues_exportText (h : PlainExport entries) :
    (readValues (exportText .values entries)).values = entries := by
  have hone : ∀ line ∈ entries.map (exportLine .values), Text.isOneLine line = true := by
    intro line hline
    obtain ⟨entry, hentry, rfl⟩ := List.mem_map.mp hline
    rw [exportLine_values, Text.isOneLine_append, Text.isOneLine_append,
      isOneLine_of_isName (h.isName_of_mem _ hentry), h.isOneLine_of_mem _ hentry]
    decide
  have hdeclared : (entries.map (exportLine .values)).filterMap declared? = entries := by
    rw [List.filterMap_map]
    refine (List.filterMap_congr fun entry hentry => ?_).trans List.filterMap_some
    refine (declared?_added (h.isName_of_mem _ hentry) (h.isOneLine_of_mem _ hentry)).trans ?_
    rw [h.trimEnd_of_mem _ hentry]
  rw [readValues_values, exportText, Text.lines_flatMap_lineFeed hone, hdeclared]
  exact Table.ofEntries_of_nodup h.nodup_keys

variable {schema : List Definition} {values : Table Text Text}

/-- An export holds the names of the schema with a value that is not empty, in its order. -/
theorem exportedValues_eq (h : SoundSchema schema) (values : Table Text Text) :
    exportedValues schema values = (schema.map Definition.name).filterMap fun name =>
      (values.filled? name).map fun value => (name, value) := by
  rw [exportedValues, List.filterMap_map]
  apply Table.ofEntries_of_nodup
  refine (sublist_map_filterMap (fun definition entry hentry => ?_) schema).nodup h.nodup_names
  obtain ⟨value, -, rfl⟩ := Option.map_eq_some_iff.mp hentry
  rfl

/-- What is exported from a values file is plain. -/
theorem plainExport_exportedValues (h : SoundSchema schema) (text : Text) :
    PlainExport (exportedValues schema (readValues text).values) := by
  have hmem : ∀ entry ∈ exportedValues schema (readValues text).values,
      isName entry.1 = true ∧ entry ∈ (readValues text).values := by
    intro entry hentry
    obtain ⟨definition, hdefinition, hfound⟩ :=
      List.mem_filterMap.mp (Table.mem_of_mem_ofEntries hentry)
    obtain ⟨value, hfilled, rfl⟩ := Option.map_eq_some_iff.mp hfound
    exact ⟨(h.sound_of_mem definition hdefinition).isName_name,
      Table.mem_of_get? (Table.filled?_eq_some_iff.mp hfilled).1⟩
  exact
    { nodup_keys := Table.nodup_keys_ofEntries _
      isName_of_mem := fun entry hentry => (hmem entry hentry).1
      isOneLine_of_mem := fun entry hentry => (value_of_mem_readValues (hmem entry hentry).2).1
      trimEnd_of_mem := fun entry hentry => (value_of_mem_readValues (hmem entry hentry).2).2 }

end Entries

section Exporting

variable {σ : Type} {store : Store σ} (view : StoreView store) (registry : Registry)
  (options : RunOptions) (workspace : Workspace)

/-- What an export of lines comes to. -/
def exportIn (patterns : List DirectivePattern) (rootExample : Path) (workspace : Workspace)
    (format : ExportFormat) (files : Files) : Except Failure Text := do
  let schema ← schemaIn patterns files rootExample workspace
  let file ← valuesIn files workspace.valuesPath
  return exportText format (exportedValues schema file.values)

/-- An export of lines only reads. -/
theorem computes_exportWorkspace {word : Text} {format : ExportFormat}
    (hword : ExportFormat.ofWord? word = some format) (hformat : format ≠ .json) :
    (exportWorkspace store registry options workspace word).Computes view
      (exportIn registry.patterns options.rootExample workspace format) := by
  have hlines : Run.Computes view
      (do
        let schema ← workspaceSchema store registry.patterns options.rootExample workspace
        let file ← readValuesFile store workspace.valuesPath
        return exportText format (exportedValues schema file.values))
      (exportIn registry.patterns options.rootExample workspace format) :=
    (computes_workspaceSchema view _ _ workspace).bind fun _ =>
      (computes_readValuesFile view workspace.valuesPath).bind fun _ => .pure _
  rw [exportWorkspace, hword]
  cases format with
  | json => exact absurd rfl hformat
  | shell => exact hlines
  | values => exact hlines
  | vercel => exact hlines

variable {registry options workspace}

/-- Exports of a workspace whose effective schema is read, for a values file and for a shell, come
to an end exactly if its values file is read. Both then hold the names of the schema that have a
value in that file which is not empty, in the order of the schema and with those values: the one
for the reader of values files, the other for a shell, line by line. -/
theorem exportWorkspace_decodes {world : World σ} (hvalid : view.valid world.store)
    {schema : List Definition}
    (hschema : schemaIn registry.patterns (view.files world.store) options.rootExample workspace =
      .ok schema) :
    (∀ file, valuesIn (view.files world.store) workspace.valuesPath = .ok file →
      ∃ written quoted,
        ((exportWorkspace store registry options workspace "values").runFrom world).1 =
            .ok written ∧
          ((exportWorkspace store registry options workspace "shell").runFrom world).1 =
            .ok quoted ∧
          let entries := (schema.map Definition.name).filterMap fun name =>
            (file.values.filled? name).map fun value => (name, value)
          (readValues written).values = entries ∧ readShell? quoted = some entries) ∧
      ∀ failure, valuesIn (view.files world.store) workspace.valuesPath = .error failure →
        ((exportWorkspace store registry options workspace "values").runFrom world).1 =
            .error failure ∧
          ((exportWorkspace store registry options workspace "shell").runFrom world).1 =
            .error failure := by
  have hsound := soundSchema_schemaIn hschema
  have hruns {word : Text} {format : ExportFormat}
      (hword : ExportFormat.ofWord? word = some format) (hformat : format ≠ .json) :
      ((exportWorkspace store registry options workspace word).runFrom world).1 =
        (valuesIn (view.files world.store) workspace.valuesPath >>= fun file =>
          .ok (exportText format (exportedValues schema file.values))) := by
    rw [(computes_exportWorkspace view registry options workspace hword hformat world hvalid).1,
      exportIn, hschema]
    rfl
  have hvalues := hruns (by decide : ExportFormat.ofWord? "values" = some .values) (by decide)
  have hshell := hruns (by decide : ExportFormat.ofWord? "shell" = some .shell) (by decide)
  refine ⟨fun file hfile => ⟨_, _, hvalues.trans (by rw [hfile]; rfl),
    hshell.trans (by rw [hfile]; rfl), ?_⟩, fun failure hfailure => ?_⟩
  · obtain ⟨content, -, hread⟩ := exists_of_bind_eq_ok hfile
    have hplain := plainExport_exportedValues hsound (content.getD [])
    rw [← Except.ok.inj hread, ← exportedValues_eq hsound]
    exact ⟨readValues_exportText hplain, readShell?_exportText hplain⟩
  · rw [hfailure] at hvalues hshell
    exact ⟨hvalues, hshell⟩

/-- A workspace whose values hold quotes, a backslash and signs that mean something elsewhere. -/
def quotingWorkspace : Workspace :=
  ⟨"web", ["web"], ["web", ".env.local.example"], ["web", ".env.local"]⟩

/-- Its files: one shared name and three of its own, and a value for a name of neither schema. -/
def quotingWorld : World (Table Path Text) where
  store := [
    ([".env.local.example"], "A=\n"), (["web", ".env.local.example"], "B=\nC=\nD=\n"),
    (["web", ".env.local"], "D='''\nC=\nA= it's \\ #1=2\nX=4\nB='\\''\n")]

/-- Values that could end their quotes early are read back, in the order of the schema. -/
theorem exportWorkspace_decodes_quotes :
    ∃ schema file written quoted,
      (schemaIn [] (memoryView.files quotingWorld.store) (RunOptions.rootExample {})
          quotingWorkspace = .ok schema ∧
        valuesIn (memoryView.files quotingWorld.store) quotingWorkspace.valuesPath = .ok file) ∧
      ((exportWorkspace memoryStore {} {} quotingWorkspace "values").runFrom quotingWorld).1 =
          .ok written ∧
        ((exportWorkspace memoryStore {} {} quotingWorkspace "shell").runFrom quotingWorld).1 =
          .ok quoted ∧
        let entries : Table Text Text := [("A", " it's \\ #1=2"), ("B", "'\\''"), ("D", "'''")]
        (readValues written).values = entries ∧ readShell? quoted = some entries := by
  have hnames : List.map Definition.name <$> schemaIn [] (memoryView.files quotingWorld.store)
      (RunOptions.rootExample {}) quotingWorkspace = .ok ["A", "B", "C", "D"] := by decide +kernel
  have hentries : ValuesFile.values <$> valuesIn (memoryView.files quotingWorld.store)
      quotingWorkspace.valuesPath = .ok [("D", "'''"), ("C", ""), ("A", " it's \\ #1=2"), ("X", "4"),
        ("B", "'\\''")] := by decide +kernel
  rw [map_eq_pure_bind] at hnames hentries
  obtain ⟨schema, hschema, hnames⟩ := exists_of_bind_eq_ok hnames
  obtain ⟨file, hfile, hvalues⟩ := exists_of_bind_eq_ok hentries
  obtain ⟨written, quoted, hwritten, hquoted, hdecoded⟩ :=
    (@exportWorkspace_decodes _ memoryStore memoryView {} {} quotingWorkspace quotingWorld trivial
      schema hschema).1 file hfile
  refine ⟨schema, file, written, quoted, ⟨hschema, hfile⟩, hwritten, hquoted, ?_⟩
  rw [Except.ok.inj hnames, Except.ok.inj hvalues] at hdecoded
  exact hdecoded

end Exporting

end EnvFiles
