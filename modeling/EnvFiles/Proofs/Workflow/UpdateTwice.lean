import EnvFiles.Proofs.Store.Memory
import EnvFiles.Proofs.Values.Declarations
import EnvFiles.Proofs.Values.Idempotence
import EnvFiles.Proofs.Workflow.Settling

/-!
# Updating a values file twice

Updates to the values that a file has are dropped, so of the same updates made twice the second
time should leave nothing to do. It does not where the reader finds another value than the one
that the rewriter wrote: the rewriter keeps the gap after an equals sign and the reader takes it
for a part of the value, the reader also takes lines for assignments that the rewriter passes
over, and a description of several lines may declare a name. Such an update is made again. With
descriptions of one line each, the file is then written with the text that it has.
-/

namespace EnvFiles

/-- What is declared where updates are added: the lines of a description behind its first one
declare what they say, and then comes the update. -/
def addedDeclarations (schema : List Definition) (entries : Table Text Text) : Table Text Text :=
  entries.flatMap fun entry =>
    declarations (behindFirstLine (descriptionOf schema entry.1)) ++ [entry]

/-- A line that declares a name does not read as the value once it was rewritten: it is no
assignment for the rewriter, or it has a gap that stays in front of the value. -/
def holdsBack (line value : Text) : Bool :=
  !hasPlainGap line || !(gapAfterEquals line).isEmpty && !value.isEmpty

/-- The updates that change a value when they are made a second time. -/
def madeAgain (text : Text) (updates : Table Text Text) (schema : List Definition) :
    Table Text Text :=
  let changes := changesTo (readValues text).values updates
  let added := addedDeclarations schema (addedUpdates text changes)
  updates.filter fun entry =>
    match Table.get? added.reverse entry.1 with
    | some value => value != entry.2
    | none => changes.contains entry &&
        (lastDeclaration? text entry.1).any fun line => holdsBack line entry.2

section Content

variable {text : Text} {updates : Table Text Text} {schema : List Definition}

/-- What is read after a rewrite: what is declared by what is added, and otherwise what the last
line that declared the name declares now. -/
theorem get?_rewriteValues_eq_or (hends : Text.hasPlainEnds text = true)
    (hupdates : PlainUpdates updates)
    (htrimmed : ∀ entry ∈ updates, Text.trimEnd entry.2 = entry.2) (schema : List Definition)
    (name : Text) :
    (readValues (rewriteValues (readValues text) updates schema)).values.get? name =
      (Table.get? (addedDeclarations schema (addedUpdates text updates)).reverse name).or
        ((lastDeclaration? text name).bind fun line =>
          declaredValue? name (rewriteLine updates line)) := by
  have hadded : (addedUpdates text updates).flatMap
      (fun entry => (addedLines schema entry).flatMap declarations) =
        addedDeclarations schema (addedUpdates text updates) := by
    refine List.flatMap_congr fun entry hentry => ?_
    have hmem := addedUpdates_subset text updates hentry
    have hone := firstLine_of_isOneLine (hupdates.isOneLine_of_mem entry hmem)
    rw [flatMap_declarations_addedLines_eq (hupdates.isName_of_mem entry hmem), hone.1, hone.2,
      htrimmed entry hmem]
    rfl
  have hold : (rewriteLines text).flatMap (fun piece => declarations (rewriteLine updates piece)) =
      (contentLines (Text.lines text)).filterMap fun line =>
        declared? (rewriteLine updates line) := by
    have hempty : rewriteLine updates [] = [] :=
      List.isEmpty_iff.mp (isEmpty_rewriteLine updates [])
    have hcontent (lines : List Text) :
        lines.filterMap (fun line => declared? (rewriteLine updates line)) =
          (contentLines lines).filterMap fun line => declared? (rewriteLine updates line) := by
      rw [contentLines, List.filterMap_filter]
      refine List.filterMap_congr fun line _ => ?_
      cases line with
      | nil => simp [hempty]
      | cons c rest => rfl
    rw [← contentLines_rewriteLines hends, ← hcontent, List.filterMap_eq_flatMap_toList]
    refine List.flatMap_congr fun piece hpiece => ?_
    exact declarations_of_isOneLine
      (isOneLine_rewriteLine hupdates (isOneLine_rewriteLines hends piece hpiece))
  have hlast : (contentLines (Text.lines text)).reverse.findSome?
      (fun line => declaredValue? name (rewriteLine updates line)) =
        (lastDeclaration? text name).bind fun line =>
          declaredValue? name (rewriteLine updates line) := by
    rw [← find?_contentLines]
    exact findSome?_eq_bind_find? fun line hline =>
      isSome_declaredValue?_rewriteLine hupdates (isOneLine_of_mem_contentLines hline) name
  rw [readValues_values_declarations, Table.get?_ofEntries, declarations_rewriteValues_eq, hadded,
    hold, List.reverse_append, Table.get?_append, ← List.filterMap_reverse, Table.get?_filterMap,
    ← hlast]
  rfl

/-- A line that declared another value reads as the value after the rewrite exactly if it does not
hold it back. -/
theorem declaredValue?_rewriteLine_eq_iff (hupdates : PlainUpdates updates) {line : Text}
    (hline : Text.isOneLine line = true) {name value old : Text}
    (hname : updates.get? name = some value) (htrimmed : Text.trimEnd value = value)
    (hold : declaredValue? name line = some old) (hne : old ≠ value) :
    declaredValue? name (rewriteLine updates line) = some value ↔
      holdsBack line value = false := by
  cases hgap : hasPlainGap line with
  | true =>
    have hblank : Text.trimEnd (gapAfterEquals line) = [] :=
      Text.trimEnd_eq_nil_iff.mpr fun c hc =>
        isBlank_of_isGap (List.all_eq_true.mp List.all_takeWhile c hc)
    rw [declaredValue?_rewriteLine_of_some hupdates hline hgap hname, hold, holdsBack, hgap]
    cases value with
    | nil => simp [hblank]
    | cons c rest => simp [Text.trimEnd_append, htrimmed]
  | false =>
    have hkept : rewriteLine updates line = line := by
      rcases rewriteLine_cases updates line with ⟨heq, -⟩ | ⟨parts, _, rfl, -, -⟩
      · exact heq
      · rw [parts.hasPlainGap_text] at hgap
        cases hgap
    simp [hkept, hold, hne, holdsBack, hgap]

/-- The last line that declares a name is one line and declares the value that is read. -/
theorem declaredValue?_of_lastDeclaration? {name line : Text}
    (h : lastDeclaration? text name = some line) :
    Text.isOneLine line = true ∧
      declaredValue? name line = (readValues text).values.get? name := by
  refine ⟨Text.isOneLine_of_mem_lines (List.mem_reverse.mp (List.mem_of_find?_eq_some h)), ?_⟩
  have hread : (readValues text).values.get? name =
      (lastDeclaration? text name).bind (declaredValue? name) := by
    rw [get?_readValues]
    exact findSome?_eq_bind_find? fun line _ => rfl
  rw [hread, h, Option.bind_some]

/-- A name that no line declares is added with its update. -/
theorem get?_addedDeclarations_ne_none (hends : Text.hasPlainEnds text = true)
    {name value : Text} (hentry : (name, value) ∈ updates)
    (hlast : lastDeclaration? text name = none) (schema : List Definition) :
    Table.get? (addedDeclarations schema (addedUpdates text updates)).reverse name ≠ none := by
  have hassigned : name ∉ assignedNames text := by
    intro hmem
    have hhas := has_of_mem_assignedNames hends hmem
    rw [← isSome_lastDeclaration?, hlast] at hhas
    exact absurd hhas (by decide)
  have hadded : (name, value) ∈ addedUpdates text updates :=
    List.mem_filter.mpr ⟨hentry, by simpa using hassigned⟩
  intro hnone
  refine Table.get?_eq_none_iff.mp hnone (List.mem_map.mpr ⟨(name, value), ?_, rfl⟩)
  rw [List.mem_reverse]
  exact List.mem_flatMap.mpr
    ⟨_, hadded, List.mem_append_right _ (List.mem_singleton_self _)⟩

/-- After the changes were written, the last line that declared an updated name reads as another
value exactly if the update was one of the changes and the line holds its value back. -/
theorem declaredValue?_rewriteLine_changes (hupdates : PlainUpdates updates)
    {name value line : Text} (hentry : (name, value) ∈ updates)
    (htrimmed : Text.trimEnd value = value) (hlast : lastDeclaration? text name = some line) :
    let changes := changesTo (readValues text).values updates
    declaredValue? name (rewriteLine changes line) ≠ some value ↔
      (name, value) ∈ changes ∧ holdsBack line value = true := by
  intro changes
  have hchanges : PlainUpdates changes := hupdates.filter _
  have hchanged : (name, value) ∈ changes ↔ (readValues text).values.get? name ≠ some value := by
    simp [changes, changesTo, hentry]
  obtain ⟨hline, hold⟩ := declaredValue?_of_lastDeclaration? hlast
  by_cases hchange : (name, value) ∈ changes
  · obtain ⟨old, hfound⟩ : ∃ old, declaredValue? name line = some old :=
      Option.isSome_iff_exists.mp (by simpa using List.find?_some hlast)
    have hne : old ≠ value := by
      rintro rfl
      exact hchanged.mp hchange (hold.symm.trans hfound)
    have hname := Table.get?_of_mem hchanges.nodup_keys hchange
    rw [ne_eq, declaredValue?_rewriteLine_eq_iff hchanges hline hname htrimmed hfound hne,
      Bool.not_eq_false]
    exact (and_iff_right hchange).symm
  · have hsame : (readValues text).values.get? name = some value := by
      simpa [hchange] using hchanged
    have hnone : changes.get? name = none := by
      rw [get?_changesTo hupdates.nodup_keys, hsame,
        Table.get?_of_mem hupdates.nodup_keys hentry, if_pos rfl]
    rw [declaredValue?_rewriteLine_of_none hchanges hline hnone, hold, hsame]
    exact iff_of_false (not_not_intro rfl) fun h => hchange h.1

/-- What the updates change after their changes were written. -/
theorem changesTo_rewriteValues (hends : Text.hasPlainEnds text = true)
    (hupdates : PlainUpdates updates)
    (htrimmed : ∀ entry ∈ updates, Text.trim entry.2 = entry.2) (schema : List Definition) :
    let changes := changesTo (readValues text).values updates
    changesTo (readValues (rewriteValues (readValues text) changes schema)).values updates =
      madeAgain text updates schema := by
  intro changes
  have hchanges : PlainUpdates changes := hupdates.filter _
  have hend (entry : Text × Text) (hentry : entry ∈ updates) : Text.trimEnd entry.2 = entry.2 := by
    rw [← htrimmed entry hentry, Text.trimEnd_trim]
  refine List.filter_congr ?_
  rintro ⟨name, value⟩ hentry
  rw [get?_rewriteValues_eq_or hends hchanges
    (fun entry hmem => hend entry (List.mem_filter.mp hmem).1) schema name]
  change _ = match Table.get? (addedDeclarations schema (addedUpdates text changes)).reverse name
    with
    | some value' => value' != value
    | none => changes.contains (name, value) &&
        (lastDeclaration? text name).any fun line => holdsBack line value
  cases hadded : Table.get? (addedDeclarations schema (addedUpdates text changes)).reverse name with
  | some other => rfl
  | none =>
    rw [Option.none_or]
    cases hlast : lastDeclaration? text name with
    | none =>
      -- The name had no value, so it was added, and what is added declares it.
      have hvalue : (readValues text).values.get? name = none := by
        rw [← Option.isNone_iff_eq_none, ← Option.isSome_eq_false_iff]
        exact (isSome_lastDeclaration? text name).symm.trans (by rw [hlast]; rfl)
      have hchange : (name, value) ∈ changes := by
        simp [changes, changesTo, hentry, hvalue]
      exact absurd hadded (get?_addedDeclarations_ne_none hends hchange hlast schema)
    | some line =>
      rw [Option.bind_some, Option.any_some, Bool.eq_iff_iff, bne_iff_ne, Bool.and_eq_true,
        List.contains_iff_mem]
      exact declaredValue?_rewriteLine_changes hupdates hentry (hend _ hentry) hlast

/-- Nothing is made again where nothing changes. -/
theorem madeAgain_eq_nil (h : changesTo (readValues text).values updates = [])
    (schema : List Definition) : madeAgain text updates schema = [] := by
  simp [madeAgain, h, addedUpdates, addedDeclarations, Table.get?]

/-- With descriptions of one line each, the changes of names that some line assigns are made again
if the last line that declares the name holds the value back. -/
theorem madeAgain_of_plainDescriptions (hupdates : PlainUpdates updates)
    (hschema : PlainDescriptions schema) :
    madeAgain text updates schema =
      (changesTo (readValues text).values updates).filter fun entry =>
        Assigns text entry.1 ∧
          (lastDeclaration? text entry.1).any (fun line => holdsBack line entry.2) = true := by
  have hadded (entries : Table Text Text) : addedDeclarations schema entries = entries := by
    have hnone (entry : Text × Text) :
        declarations (behindFirstLine (descriptionOf schema entry.1)) = [] := by
      rw [(firstLine_of_isOneLine (hschema.isOneLine_descriptionOf entry.1)).2]
      rfl
    simp [addedDeclarations, hnone]
  rw [madeAgain, changesTo, List.filter_filter, ← changesTo]
  refine List.filter_congr ?_
  rintro ⟨name, value⟩ hentry
  have hchanged : (name, value) ∈ changesTo (readValues text).values updates ↔
      ((readValues text).values.get? name != some value) = true := by
    simp [changesTo, hentry]
  rw [hadded, addedUpdates_eq]
  cases hget : Table.get? ((changesTo (readValues text).values updates).filter
      fun entry => ¬ Assigns text entry.1).reverse name with
  | some other =>
    obtain ⟨hmem, hnew⟩ := List.mem_filter.mp (List.mem_reverse.mp (Table.mem_of_get? hget))
    have hother := Table.get?_of_mem hupdates.nodup_keys (List.mem_filter.mp hmem).1
    obtain rfl : other = value := by
      rw [Table.get?_of_mem hupdates.nodup_keys hentry] at hother
      exact (Option.some.inj hother).symm
    have hassigns : ¬ Assigns text name := of_decide_eq_true hnew
    simp [hassigns]
  | none =>
    have hassigns : (name, value) ∈ changesTo (readValues text).values updates →
        Assigns text name := by
      intro hmem
      by_contra hnot
      refine Table.get?_eq_none_iff.mp hget (List.mem_map.mpr ⟨(name, value), ?_, rfl⟩)
      exact List.mem_reverse.mpr (List.mem_filter.mpr ⟨hmem, by simpa using hnot⟩)
    rw [Bool.eq_iff_iff]
    simp only [Bool.and_eq_true, List.contains_iff_mem, decide_eq_true_eq, ← hchanged]
    exact ⟨fun ⟨hmem, hholds⟩ => ⟨⟨hassigns hmem, hholds⟩, hmem⟩,
      fun ⟨⟨_, hholds⟩, hmem⟩ => ⟨hmem, hholds⟩⟩

/-- What is made again is written over a file that has it already: the text stays as it is. -/
theorem rewriteValues_madeAgain (hends : Text.hasPlainEnds text = true)
    (hupdates : PlainUpdates updates)
    (htrimmed : ∀ entry ∈ updates, Text.trim entry.2 = entry.2)
    (hschema : PlainDescriptions schema) {back : Text}
    (hback : ReadsBack (rewriteValues (readValues text)
      (changesTo (readValues text).values updates) schema) back) :
    rewriteValues (readValues back) (madeAgain text updates schema) schema = back := by
  have hsubset : madeAgain text updates schema ⊆ changesTo (readValues text).values updates := by
    rw [madeAgain_of_plainDescriptions hupdates hschema]
    exact List.filter_subset_self _
  have htext := hasOnlyReturnFeeds_of_hasPlainEnds hends
  have hchanges : TightUpdates (changesTo (readValues text).values updates) :=
    PlainUpdates.tight (hupdates.filter _) fun entry hentry =>
      htrimmed entry (List.mem_filter.mp hentry).1
  have hhanded := hchanges.notMem_handedIn fun definition hdefinition =>
    Text.notMem_of_isOneLine (hschema definition hdefinition)
  have hwritten := laidOut_rewriteValues htext hhanded
  have hend := isLineEnding_rewrite text
  rcases hback with rfl | rfl
  · exact hchanges.rewriteValues_of_laidOut htext hhanded hwritten hend hsubset schema
  · exact hchanges.rewriteValues_of_laidOut htext hhanded (hwritten.unifyNewlines hend)
      (Or.inl rfl) hsubset schema

end Content

section Runs

variable {σ : Type} {store : Store σ} {view : StoreView store}

/-- An update of a file that can be read makes the changes to what is read. -/
theorem endsIn_applyUpdates_of_changesTo {world : World σ} (hvalid : view.valid world.store)
    {path : Path} (hcovers : view.covers path) {content : Option Text}
    (hcontent : view.files world.store path = .ok content) {updates changes : Table Text Text}
    (hchanges : changesTo (readValues (content.getD [])).values updates = changes)
    (schema : List Definition) :
    (applyUpdates store path updates schema).EndsIn world
      (fun made after => made = changes ∧ (changes = [] → view.Same world after) ∧
        (changes ≠ [] → view.Written path
          (rewriteValues (readValues (content.getD [])) changes schema) world after))
      fun _ after => changes ≠ [] ∧ view.Unchanged world after := by
  refine endsIn_applyUpdates hvalid hcovers (fun failure after hfailure _ => ?_)
    (fun other after hother hnone hsame => ?_) (fun other after hother => ?_)
    fun other failure text state after hother hsome _ _ hunchanged => ?_
  · rw [hcontent] at hfailure
    cases hfailure
  · obtain rfl := Except.ok.inj (hcontent.symm.trans hother)
    rw [hchanges] at hnone
    exact ⟨hnone.symm, fun _ => hsame, fun hne => absurd hnone hne⟩
  · obtain rfl := Except.ok.inj (hcontent.symm.trans hother)
    rw [hchanges]
    exact fun hne hwritten => ⟨rfl, fun hnone => absurd hnone hne, fun _ => hwritten⟩
  · obtain rfl := Except.ok.inj (hcontent.symm.trans hother)
    rw [hchanges] at hsome
    exact ⟨hsome, hunchanged⟩

/-- Making the same updates a second time changes those values that the reader does not find as
they were written, and nothing is written if there are none. With descriptions of one line each,
what is written then is what the file held already. Each of the two runs fails only if there is
something to write, and leaves the file as it was then. -/
theorem applyUpdates_again {world : World σ} (hvalid : view.valid world.store) {path : Path}
    (hcovers : view.covers path) {content : Option Text}
    (hcontent : view.files world.store path = .ok content)
    (hends : Text.hasPlainEnds (content.getD []) = true) {updates : Table Text Text}
    (hupdates : PlainUpdates updates)
    (htrimmed : ∀ entry ∈ updates, Text.trim entry.2 = entry.2) (schema : List Definition) :
    let run := applyUpdates store path updates schema
    let changes := changesTo (readValues (content.getD [])).values updates
    let again := madeAgain (content.getD []) updates schema
    run.EndsIn world
      (fun made after => made = changes ∧ run.EndsIn after
        (fun made later => made = again ∧ (again = [] → view.Same after later) ∧
          (again ≠ [] → ∃ text, view.Written path text after later ∧
            (PlainDescriptions schema → view.files after.store path = .ok (some text))))
        fun _ later => again ≠ [] ∧ view.Unchanged after later)
      fun _ after => changes ≠ [] ∧ view.Unchanged world after := by
  intro run changes again
  refine (endsIn_applyUpdates_of_changesTo hvalid hcovers hcontent rfl schema).mono ?_
    fun _ _ hfailed => hfailed
  rintro made after ⟨rfl, hsame, hwritten⟩
  refine ⟨rfl, ?_⟩
  by_cases hnone : changes = []
  · have hafter := hsame hnone
    have hagain : again = [] := madeAgain_eq_nil hnone schema
    refine (endsIn_applyUpdates_of_changesTo hafter.valid hcovers
      ((congrFun hafter.files path).trans hcontent) (hnone.trans hagain.symm) schema).mono ?_
      fun _ _ hfailed => hfailed
    exact fun _ later hlater => ⟨hlater.1, hlater.2.1, fun hne => absurd hagain hne⟩
  · have hafter := hwritten hnone
    obtain ⟨back, hback, hreads⟩ := hafter.files_of_sameFile path hcovers
      (view.sameFile_equivalence.refl path)
    have hvalues : (readValues back).values =
        (readValues (rewriteValues (readValues (content.getD [])) changes schema)).values := by
      rcases hreads with rfl | rfl
      · rfl
      · exact readValues_values_congr (Text.lines_unifyNewlines _)
    have hchanges : changesTo (readValues back).values updates = again := by
      rw [hvalues]
      exact changesTo_rewriteValues hends hupdates htrimmed schema
    refine (endsIn_applyUpdates_of_changesTo hafter.valid hcovers hback hchanges schema).mono ?_
      fun _ _ hfailed => hfailed
    refine fun _ later hlater => ⟨hlater.1, hlater.2.1, fun hne => ⟨_, hlater.2.2 hne, ?_⟩⟩
    intro hschema
    rw [Option.getD_some, rewriteValues_madeAgain hends hupdates htrimmed hschema hreads]
    exact hback

end Runs

section Spaced

/-- The path of the values file below. -/
def spacedPath : Path := [".env.local"]

/-- Four updates, the last one of a new variable. -/
def spacedUpdates : Table Text Text := [("A", "5"), ("B", "6"), ("C", "7"), ("D", "8")]

/-- The new variable and its description. -/
def spacedSchema : List Definition := [{ name := "D", description := "the last" }]

/-- A gap behind an equals sign, none, and a no-break space before one. -/
def spacedText : Text := "A= 1\nB=2\nC=3\nC\u00a0=4\n"

/-- A world that holds the file alone. -/
def spacedWorld : World (Table Path Text) where
  store := [(spacedPath, spacedText)]

/-- The two updates that are made again. -/
def spacedAgain : Table Text Text := [("A", "5"), ("C", "7")]

/-- The updates of the file. -/
def spacedRun : Run (Table Path Text) (Table Text Text) :=
  applyUpdates memoryStore spacedPath spacedUpdates spacedSchema

/-- The variable behind the gap and the one with the no-break space are updated every time. -/
theorem applyUpdates_again_spaced :
    (Text.hasPlainEnds spacedText = true ∧ PlainUpdates spacedUpdates ∧
      ∀ entry ∈ spacedUpdates, Text.trim entry.2 = entry.2) ∧
    ∃ after later, spacedRun.runFrom spacedWorld = (.ok spacedUpdates, after) ∧
      spacedRun.runFrom after = (.ok spacedAgain, later) ∧
        ∃ text, memoryView.Written spacedPath text after later ∧
          memoryView.files after.store spacedPath = .ok (some text) := by
  have hends : Text.hasPlainEnds spacedText = true := by decide +kernel
  have hupdates : PlainUpdates spacedUpdates := ⟨by decide, by decide, by decide⟩
  have htrimmed : ∀ entry ∈ spacedUpdates, Text.trim entry.2 = entry.2 := by decide +kernel
  have hschema : PlainDescriptions spacedSchema := by
    intro definition hmem
    rw [List.mem_singleton.mp hmem]
    decide
  have hcontent : memoryView.files spacedWorld.store spacedPath = .ok (some spacedText) := by
    decide +kernel
  have hfirst : (spacedRun.runFrom spacedWorld).1 = .ok spacedUpdates := by decide +kernel
  have hsecond : (spacedRun.runFrom (spacedRun.runFrom spacedWorld).2).1 = .ok spacedAgain := by
    decide +kernel
  have hagain := applyUpdates_again trivial trivial hcontent hends hupdates htrimmed spacedSchema
  obtain ⟨-, hlater⟩ := hagain.of_runFrom_ok (Attempt.runFrom_eq_of_fst hfirst)
  obtain ⟨heq, -, hwritten⟩ := hlater.of_runFrom_ok (Attempt.runFrom_eq_of_fst hsecond)
  obtain ⟨text, htext, hfile⟩ := hwritten (by rw [← heq]; decide)
  exact ⟨⟨hends, hupdates, htrimmed⟩, _, _, Attempt.runFrom_eq_of_fst hfirst,
    Attempt.runFrom_eq_of_fst hsecond, text, htext, hfile hschema⟩

/-- A gap behind an equals sign keeps an update from being dropped the second time. -/
theorem applyUpdates_again_writes :
    ¬ ∀ (text : Text) (updates : Table Text Text) (schema : List Definition),
      (∀ c ∈ text, c = '\n' ∨ Text.isLineEnd c = false) → PlainUpdates updates →
      (∀ entry ∈ updates, Text.trim entry.2 = entry.2) →
      ∀ made after, (applyUpdates memoryStore spacedPath updates schema).runFrom
          { store := [(spacedPath, text)] } = (.ok made, after) →
        ∃ later, (applyUpdates memoryStore spacedPath updates schema).runFrom after =
            (.ok [], later) ∧
          memoryStore.Reached [] after.store later.store := by
  intro h
  have hends : (("A= 1\n" : Text).all fun c => c == '\n' || !Text.isLineEnd c) = true := by
    decide +kernel
  have hupdates : PlainUpdates [("A", "2")] := ⟨by decide, by decide, by decide⟩
  have hfirst : ((applyUpdates memoryStore spacedPath [("A", "2")] []).runFrom
      { store := [(spacedPath, "A= 1\n")] }).1 = .ok [("A", "2")] := by decide +kernel
  have hsecond : ((applyUpdates memoryStore spacedPath [("A", "2")] []).runFrom
      ((applyUpdates memoryStore spacedPath [("A", "2")] []).runFrom
        { store := [(spacedPath, "A= 1\n")] }).2).1 = .ok [("A", "2")] := by decide +kernel
  obtain ⟨later, hlater, -⟩ := h "A= 1\n" [("A", "2")] [] (by simpa using hends) hupdates
    (by decide +kernel) _ _ (Attempt.runFrom_eq_of_fst hfirst)
  rw [hlater] at hsecond
  cases hsecond

end Spaced

end EnvFiles
