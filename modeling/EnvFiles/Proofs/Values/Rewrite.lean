import EnvFiles.Proofs.Assignment
import EnvFiles.Proofs.Table
import EnvFiles.Proofs.Values.Layout

/-!
# Reading a rewritten values file

A rewrite changes lines one by one, adds lines at the end and lays all of them out, so what is
read afterwards is decided line by line. No line changes the name that it declares. A name that
is not updated keeps its value, whatever the file looks like. An updated name reads as the gap
after the last equals sign of that name and the new value, as long as reader and rewriter
recognise the same lines.
-/

namespace EnvFiles

/-- Updates whose names are names and whose values stay on one line. -/
structure PlainUpdates (updates : Table Text Text) : Prop where
  nodup_keys : updates.keys.Nodup
  isName_of_mem : ∀ entry ∈ updates, isName entry.1 = true
  isOneLine_of_mem : ∀ entry ∈ updates, Text.isOneLine entry.2 = true

/-- A schema whose descriptions stay on one line. -/
def PlainDescriptions (schema : List Definition) : Prop :=
  ∀ definition ∈ schema, Text.isOneLine definition.description = true

/-- What a line declares for a name. -/
def declaredValue? (name line : Text) : Option Text :=
  (declared? line).bind fun entry => if entry.1 = name then some entry.2 else none

/-- The spaces and tabs after the equals sign of a line. -/
def gapAfterEquals (line : Text) : Text :=
  ((line.dropWhile (· != '=')).drop 1).takeWhile isGap

/-- The last line of a text that declares a name. -/
def lastDeclaration? (text name : Text) : Option Text :=
  (Text.lines text).reverse.find? fun line => (declaredValue? name line).isSome

/-- The spaces and tabs after the equals sign of the last line that declares a name; none when
no line does. -/
def lastGap (text name : Text) : Text := ((lastDeclaration? text name).map gapAfterEquals).getD []

/-- The values of lines are put one after another. -/
theorem readValueLines_values (values comments : Table Text Text) (pending : Text)
    (lines : List Text) :
    (readValueLines values comments pending lines).1 =
      values.putAll (lines.filterMap declared?) := by
  induction lines generalizing values comments pending with
  | nil => rfl
  | cons line rest ih =>
    simp only [readValueLines]
    by_cases hempty : (Text.trim line).isEmpty = true
    · have hnone : declared? line = none := by
        rw [declared?, List.isEmpty_iff.mp hempty]
        rfl
      rw [if_pos hempty, ih, List.filterMap_cons_none hnone]
    · rw [if_neg hempty]
      by_cases hcomment : isComment (Text.trim line) = true
      · have hnone : declared? line = none := by rw [declared?, if_pos hcomment]
        rw [if_pos hcomment, ih, List.filterMap_cons_none hnone]
      · have hdeclared : declared? line = assignment? (Text.trim line) := by
          rw [declared?, if_neg hcomment]
        rw [if_neg hcomment]
        cases hline : assignment? (Text.trim line) with
        | none => rw [List.filterMap_cons_none (hdeclared.trans hline), ih]
        | some entry => rw [List.filterMap_cons_some (hdeclared.trans hline), ih]; rfl

/-- The values of a file are those of its lines, a later one overriding an earlier one. -/
theorem readValues_values (text : Text) :
    (readValues text).values = Table.ofEntries ((Text.lines text).filterMap declared?) :=
  readValueLines_values [] [] [] (Text.lines text)

/-- Texts with the same lines hold the same values. -/
theorem readValues_values_congr {first second : Text}
    (h : Text.lines first = Text.lines second) :
    (readValues first).values = (readValues second).values := by
  rw [readValues_values, readValues_values, h]

/-- Empty lines declare nothing. -/
theorem filterMap_declared?_contentLines (lines : List Text) :
    (contentLines lines).filterMap declared? = lines.filterMap declared? := by
  induction lines with
  | nil => rfl
  | cons line rest ih =>
    cases line with
    | nil => rw [List.filterMap_cons_none declared?_nil]; exact ih
    | cons c line =>
      change ((c :: line) :: contentLines rest).filterMap declared? = _
      rw [List.filterMap_cons, List.filterMap_cons, ih]

/-- A name has the value of the last line that declares it. -/
theorem get?_readValues (text name : Text) :
    (readValues text).values.get? name =
      (Text.lines text).reverse.findSome? (declaredValue? name) := by
  rw [readValues_values, Table.get?_ofEntries, ← List.filterMap_reverse, Table.get?_filterMap]
  rfl

/-- The values of a file come from its lines: they are one line, without blanks at their end. -/
theorem value_of_mem_readValues {text : Text} {entry : Text × Text}
    (h : entry ∈ (readValues text).values) :
    Text.isOneLine entry.2 = true ∧ Text.trimEnd entry.2 = entry.2 := by
  rw [readValues_values] at h
  obtain ⟨line, hmem, hline⟩ := List.mem_filterMap.mp (Table.mem_of_mem_ofEntries h)
  exact ⟨Text.isOneLine_of_subset (subset_of_declared? hline)
    (Text.isOneLine_of_mem_lines hmem), trimEnd_of_declared? hline⟩

namespace AssignmentLine

/-- The gap after the equals sign begins the value. -/
theorem gapAfterEquals_text (line : AssignmentLine) :
    gapAfterEquals line.text = line.value.takeWhile isGap := by
  have hbefore : ∀ c ∈ line.indent ++ (line.name ++ line.gap), (c != '=') = true := by
    intro c hc
    have hnot : c ≠ '=' := by
      rintro rfl
      rcases List.mem_append.mp hc with hc | hc
      · exact absurd (line.isBlank_indent _ hc) (by decide)
      · rcases List.mem_append.mp hc with hc | hc
        · exact absurd (isNameChar_of_isName line.isName_name _ hc) (by decide)
        · exact absurd (line.isGap_gap _ hc) (by decide)
    simpa using hnot
  have htext : line.text = (line.indent ++ (line.name ++ line.gap)) ++ '=' :: line.value := by
    simp [text]
  rw [gapAfterEquals, htext, List.dropWhile_append_of_pos hbefore]
  simp

/-- The line goes on behind its start. -/
theorem start_isPrefix (line : AssignmentLine) : line.start <+: line.text :=
  ⟨line.value.dropWhile isGap, by simp [start, text]⟩

end AssignmentLine

section Lines

variable {updates : Table Text Text} {line : Text}

/-- Reader and rewriter agree on what a rewritten line declares. -/
theorem declared?_start_append (parts : AssignmentLine) {value : Text}
    (h : Text.isOneLine value = true) :
    declared? (parts.start ++ value) =
      some (parts.name, Text.trimEnd (gapAfterEquals parts.text ++ value)) := by
  rw [parts.start_append, parts.gapAfterEquals_text, AssignmentLine.declared?_text]
  · rfl
  · intro hmem
    rcases List.mem_append.mp hmem with hmem | hmem
    · exact absurd (List.all_eq_true.mp List.all_takeWhile _ hmem) (by decide)
    · exact Text.lineFeed_notMem_of_isOneLine h hmem

/-- An assignment line of an updated name keeps its start. -/
theorem rewriteLine_text (parts : AssignmentLine) {value : Text}
    (h : updates.get? parts.name = some value) :
    rewriteLine updates parts.text = parts.start ++ value := by
  simp [rewriteLine, parts.assignedPart?_text, h]

/-- A rewrite leaves a line as it is, or gives an assignment line of an updated name its new
value. -/
theorem rewriteLine_cases (updates : Table Text Text) (line : Text) :
    rewriteLine updates line = line ∧
        (∀ parts : AssignmentLine, parts.text = line → updates.get? parts.name = none) ∨
      ∃ (parts : AssignmentLine) (value : Text), parts.text = line ∧
        updates.get? parts.name = some value ∧ rewriteLine updates line = parts.start ++ value := by
  cases hpart : assignedPart? line with
  | none =>
    refine Or.inl ⟨by simp [rewriteLine, hpart], ?_⟩
    rintro parts rfl
    rw [parts.assignedPart?_text] at hpart
    exact absurd hpart (by simp)
  | some found =>
    obtain ⟨parts, rfl, hname, hstart⟩ := exists_of_assignedPart? hpart
    cases hget : updates.get? parts.name with
    | none =>
      refine Or.inl ⟨by simp [rewriteLine, hpart, ← hname, hget], ?_⟩
      intro other hother
      have heq := other.assignedPart?_text
      rw [hother, parts.assignedPart?_text] at heq
      rw [← (Prod.mk.inj (Option.some.inj heq)).1, hget]
    | some value =>
      exact Or.inr ⟨parts, value, rfl, hget, rewriteLine_text parts hget⟩

/-- The value that one line of a file has for an updated name stays on its line. -/
theorem PlainUpdates.isOneLine_of_get? (h : PlainUpdates updates) {name value : Text}
    (hget : updates.get? name = some value) : Text.isOneLine value = true :=
  h.isOneLine_of_mem _ (Table.mem_of_get? hget)

/-- A rewritten line is one line. -/
theorem isOneLine_rewriteLine (h : PlainUpdates updates) (hline : Text.isOneLine line = true) :
    Text.isOneLine (rewriteLine updates line) = true := by
  rcases rewriteLine_cases updates line with ⟨heq, -⟩ | ⟨parts, value, rfl, hget, heq⟩
  · rwa [heq]
  · rw [heq, Text.isOneLine_append, h.isOneLine_of_get? hget, Bool.and_true]
    exact Text.isOneLine_of_subset parts.start_isPrefix.subset hline

/-- No line changes the name that it declares. -/
theorem declaredName_rewriteLine (h : PlainUpdates updates) (hline : Text.isOneLine line = true) :
    (declared? (rewriteLine updates line)).map Prod.fst = (declared? line).map Prod.fst := by
  rcases rewriteLine_cases updates line with ⟨heq, -⟩ | ⟨parts, value, rfl, hget, heq⟩
  · rw [heq]
  · have hfeed : '\n' ∉ parts.value := fun hmem =>
      Text.lineFeed_notMem_of_isOneLine hline (by simp [AssignmentLine.text, hmem])
    rw [heq, declared?_start_append parts (h.isOneLine_of_get? hget), parts.declared?_text hfeed]
    rfl

/-- A line declares something for a name after the rewrite exactly if it did before. -/
theorem isSome_declaredValue?_rewriteLine (h : PlainUpdates updates)
    (hline : Text.isOneLine line = true) (name : Text) :
    (declaredValue? name (rewriteLine updates line)).isSome =
      (declaredValue? name line).isSome := by
  have hnames := declaredName_rewriteLine h hline
  unfold declaredValue?
  cases hold : declared? line with
  | none =>
    rw [hold] at hnames
    rw [Option.map_eq_none_iff.mp hnames]
  | some entry =>
    rw [hold] at hnames
    obtain ⟨other, hnew, hsame⟩ := Option.map_eq_some_iff.mp hnames
    rw [hnew]
    by_cases hname : entry.1 = name <;> simp [hsame, hname]

/-- A line keeps what it declares for a name that is not updated. -/
theorem declaredValue?_rewriteLine_of_none (h : PlainUpdates updates)
    (hline : Text.isOneLine line = true) {name : Text} (hname : updates.get? name = none) :
    declaredValue? name (rewriteLine updates line) = declaredValue? name line := by
  rcases rewriteLine_cases updates line with ⟨heq, -⟩ | ⟨parts, value, rfl, hget, heq⟩
  · rw [heq]
  · have hne : parts.name ≠ name := by
      rintro rfl
      rw [hname] at hget
      exact absurd hget (by simp)
    have hnames := declaredName_rewriteLine h hline
    have hnone (entry : Option (Text × Text)) (hentry : entry.map Prod.fst = some parts.name) :
        (entry.bind fun entry => if entry.1 = name then some entry.2 else none) = none := by
      obtain ⟨entry, rfl, heq⟩ := Option.map_eq_some_iff.mp hentry
      simp [heq, hne]
    have hnew : (declared? (rewriteLine updates parts.text)).map Prod.fst = some parts.name := by
      rw [heq, declared?_start_append parts (h.isOneLine_of_get? hget)]
      rfl
    rw [declaredValue?, declaredValue?, hnone _ hnew, hnone _ (hnames.symm.trans hnew)]

/-- A line that declares an updated name declares the new value behind its gap. -/
theorem declaredValue?_rewriteLine_of_some (h : PlainUpdates updates)
    (hline : Text.isOneLine line = true) (hgap : hasPlainGap line = true) {name value : Text}
    (hname : updates.get? name = some value) :
    declaredValue? name (rewriteLine updates line) =
      (declaredValue? name line).map fun _ => Text.trimEnd (gapAfterEquals line ++ value) := by
  cases hold : declaredValue? name line with
  | none =>
    have hsome := isSome_declaredValue?_rewriteLine h hline name
    rw [hold] at hsome
    simpa using hsome
  | some old =>
    obtain ⟨entry, hentry, hif⟩ := Option.bind_eq_some_iff.mp hold
    have hentryName : entry.1 = name := by
      by_contra hne
      simp [hne] at hif
    obtain ⟨parts, rfl, hparts⟩ := exists_of_declared? hentry hgap
    have hpartsName : parts.name = name := hparts.trans hentryName
    rw [rewriteLine_text parts (hpartsName ▸ hname), declaredValue?,
      declared?_start_append parts (h.isOneLine_of_get? hname)]
    simp [hpartsName]

end Lines

/-- A search gives the same when what it tries gives the same for every item. -/
theorem findSome?_congr_of_mem {α β : Type} {f g : α → Option β} {items : List α}
    (h : ∀ item ∈ items, f item = g item) : items.findSome? f = items.findSome? g := by
  induction items with
  | nil => rfl
  | cons item rest ih =>
    rw [List.findSome?_cons, List.findSome?_cons, h item (List.mem_cons_self ..),
      ih fun other hother => h other (List.mem_cons_of_mem _ hother)]

/-- A search gives what its function gives for the first item on which it succeeds. -/
theorem findSome?_eq_bind_find? {α β : Type} {f : α → Option β} {succeeds : α → Bool}
    {items : List α} (h : ∀ item ∈ items, (f item).isSome = succeeds item) :
    items.findSome? f = (items.find? succeeds).bind f := by
  induction items with
  | nil => rfl
  | cons item rest ih =>
    rw [List.findSome?_cons, List.find?_cons, ← h item (List.mem_cons_self ..),
      ih fun other hother => h other (List.mem_cons_of_mem _ hother)]
    cases hitem : f item with
    | none => rfl
    | some result => exact hitem.symm

/-- A search whose success gives a result that hangs on the item alone. -/
theorem findSome?_map_const {α β γ : Type} (f : α → Option β) (result : α → γ) (items : List α) :
    (items.findSome? fun item => (f item).map fun _ => result item) =
      (items.find? fun item => (f item).isSome).map result := by
  induction items with
  | nil => rfl
  | cons item rest ih => cases h : f item <;> simp [h, ih]

section Rewrite

variable {text : Text} {updates : Table Text Text} {schema : List Definition}

/-- The names that the rewriter finds assigned in a text. -/
def assignedNames (text : Text) : List Text :=
  (rewriteLines text).filterMap fun line => (assignedPart? line).map Prod.fst

/-- The updates that a rewrite adds at the end. -/
def addedUpdates (text : Text) (updates : Table Text Text) : Table Text Text :=
  updates.filter fun entry => !(assignedNames text).contains entry.1

/-- What is added is updated. -/
theorem addedUpdates_subset (text : Text) (updates : Table Text Text) :
    addedUpdates text updates ⊆ updates := List.filter_subset_self _

/-- The line that adds an update. -/
theorem declared?_added {entry : Text × Text} (hname : isName entry.1 = true)
    (hvalue : Text.isOneLine entry.2 = true) :
    declared? (entry.1 ++ ['='] ++ entry.2) = some (entry.1, Text.trimEnd entry.2) := by
  rw [← AssignmentLine.text_ofEntry hname]
  exact (AssignmentLine.ofEntry entry hname).declared?_text
    (Text.lineFeed_notMem_of_isOneLine hvalue)

/-- A description declares nothing. -/
theorem declared?_description (description : Text) :
    declared? ('#' :: ' ' :: description) = none := by
  have htrim : Text.trim ('#' :: ' ' :: description) =
      '#' :: Text.trimEnd (' ' :: description) := by
    rw [Text.trim, Text.trimStart, List.dropWhile_cons_of_neg (by decide),
      Text.trimEnd_cons_of_not_blank (by decide)]
  rw [declared?, htrim]
  rfl

/-- The lines that add an update declare it. -/
theorem filterMap_declared?_addedLines {entry : Text × Text} (hname : isName entry.1 = true)
    (hvalue : Text.isOneLine entry.2 = true) :
    (addedLines schema entry).filterMap declared? = [(entry.1, Text.trimEnd entry.2)] := by
  have hadded := declared?_added hname hvalue
  rw [addedLines]
  split
  · change [entry.1 ++ ['='] ++ entry.2, []].filterMap declared? = _
    rw [List.filterMap_cons_some hadded, List.filterMap_cons_none declared?_nil]
    rfl
  · change ['#' :: ' ' :: descriptionOf schema entry.1, entry.1 ++ ['='] ++ entry.2, []].filterMap
      declared? = _
    rw [List.filterMap_cons_none (declared?_description _), List.filterMap_cons_some hadded,
      List.filterMap_cons_none declared?_nil]
    rfl

/-- A description of a plain schema stays on one line. -/
theorem PlainDescriptions.isOneLine_descriptionOf (h : PlainDescriptions schema) (name : Text) :
    Text.isOneLine (descriptionOf schema name) = true := by
  rw [descriptionOf]
  cases hfind : schema.reverse.find? fun definition => definition.name == name with
  | none => rfl
  | some definition =>
    exact h definition (List.mem_reverse.mp (List.mem_of_find?_eq_some hfind))

/-- The lines that add an update are one line each. -/
theorem isOneLine_addedLines (hschema : PlainDescriptions schema) {entry : Text × Text}
    (hname : isName entry.1 = true) (hvalue : Text.isOneLine entry.2 = true) :
    ∀ line ∈ addedLines schema entry, Text.isOneLine line = true := by
  have hadded : Text.isOneLine (entry.1 ++ ['='] ++ entry.2) = true := by
    simp only [Text.isOneLine_append, isOneLine_of_isName hname, hvalue]
    decide
  have habove : Text.isOneLine ('#' :: ' ' :: descriptionOf schema entry.1) = true := by
    simp only [Text.isOneLine_cons, hschema.isOneLine_descriptionOf]
    decide
  intro line hline
  rw [addedLines] at hline
  rcases List.mem_append.mp hline with hline | hline
  · split at hline
    · simp at hline
    · rw [List.mem_singleton.mp hline]
      exact habove
  · rcases List.mem_cons.mp hline with rfl | hline
    · exact hadded
    · rw [List.mem_singleton.mp hline]
      rfl

/-- A rewrite writes one of the two line ends. -/
theorem isLineEnding_rewrite (text : Text) :
    IsLineEnding (if hasReturnFeed text then ['\r', '\n'] else ['\n']) := by
  split
  · exact Or.inr rfl
  · exact Or.inl rfl

/-- The lines that a rewrite lays out. -/
def rewrittenLines (text : Text) (updates : Table Text Text) (schema : List Definition) :
    List Text :=
  let kept := (rewriteLines text).map (rewriteLine updates)
  let added := (addedUpdates text updates).flatMap (addedLines schema)
  kept ++ (if added.isEmpty then [] else separatorAfter kept) ++ added

/-- A rewrite lays out its lines with the line end of the file. -/
theorem rewriteValues_eq (text : Text) (updates : Table Text Text) (schema : List Definition) :
    rewriteValues (readValues text) updates schema =
      layOut (if hasReturnFeed text then ['\r', '\n'] else ['\n'])
        (rewrittenLines text updates schema) := rfl

/-- Only an empty line can stand between what is kept and what is added. -/
theorem eq_nil_of_mem_separator {kept added : List Text} {line : Text}
    (h : line ∈ if added.isEmpty then [] else separatorAfter kept) : line = [] := by
  split at h
  · simp at h
  · rw [separatorAfter] at h
    split at h
    · split at h
      · simp at h
      · exact List.mem_singleton.mp h
    · simp at h

/-- The lines of a rewrite are one line each. -/
theorem isOneLine_rewrittenLines (hends : Text.hasPlainEnds text = true)
    (hupdates : PlainUpdates updates) (hschema : PlainDescriptions schema) :
    ∀ line ∈ rewrittenLines text updates schema, Text.isOneLine line = true := by
  intro line hline
  rcases List.mem_append.mp hline with hline | hline
  · rcases List.mem_append.mp hline with hline | hline
    · obtain ⟨old, hold, rfl⟩ := List.mem_map.mp hline
      exact isOneLine_rewriteLine hupdates (isOneLine_rewriteLines hends old hold)
    · rw [eq_nil_of_mem_separator hline]
      rfl
  · obtain ⟨entry, hentry, hline⟩ := List.mem_flatMap.mp hline
    have hmem := (List.mem_filter.mp hentry).1
    exact isOneLine_addedLines hschema (hupdates.isName_of_mem entry hmem)
      (hupdates.isOneLine_of_mem entry hmem) line hline

/-- A rewritten file has plain line ends. -/
theorem hasPlainEnds_rewriteValues (hends : Text.hasPlainEnds text = true)
    (hupdates : PlainUpdates updates) (hschema : PlainDescriptions schema) :
    Text.hasPlainEnds (rewriteValues (readValues text) updates schema) = true := by
  rw [rewriteValues_eq]
  exact hasPlainEnds_layOut (isLineEnding_rewrite text)
    (isOneLine_rewrittenLines hends hupdates hschema)

/-- A rewritten line is empty only if it was. -/
theorem isEmpty_rewriteLine (updates : Table Text Text) (line : Text) :
    (rewriteLine updates line).isEmpty = line.isEmpty := by
  rcases rewriteLine_cases updates line with ⟨heq, -⟩ | ⟨parts, value, rfl, -, heq⟩
  · rw [heq]
  · rw [heq, Bool.eq_iff_iff, List.isEmpty_iff, List.isEmpty_iff]
    simp [AssignmentLine.start, AssignmentLine.text]

/-- The lines of a rewrite, empty ones aside: those that it starts from one by one, and those that
are added. -/
theorem contentLines_rewrittenLines (text : Text) (updates : Table Text Text)
    (schema : List Definition) :
    contentLines (rewrittenLines text updates schema) =
      (contentLines (rewriteLines text)).map (rewriteLine updates) ++
        contentLines ((addedUpdates text updates).flatMap (addedLines schema)) := by
  have hseparator (kept added : List Text) :
      contentLines (if added.isEmpty then [] else separatorAfter kept) = [] := by
    rw [contentLines, List.filter_eq_nil_iff]
    intro line hline
    rw [eq_nil_of_mem_separator hline]
    decide
  simp only [rewrittenLines, contentLines, List.filter_append] at hseparator ⊢
  rw [hseparator, List.append_nil, List.filter_map]
  congr 2
  exact List.filter_congr fun line _ => by simp [isEmpty_rewriteLine]

/-- The lines of a rewritten file, empty ones aside: those of the file one by one, and those that
are added. -/
theorem contentLines_rewriteValues (hends : Text.hasPlainEnds text = true)
    (hupdates : PlainUpdates updates) (hschema : PlainDescriptions schema) :
    contentLines (Text.lines (rewriteValues (readValues text) updates schema)) =
      (contentLines (Text.lines text)).map (rewriteLine updates) ++
        contentLines ((addedUpdates text updates).flatMap (addedLines schema)) := by
  rw [rewriteValues_eq, contentLines_lines_layOut (isLineEnding_rewrite text),
    flatMap_contentLines_of_isOneLine (isOneLine_rewrittenLines hends hupdates hschema),
    ← contentLines_rewriteLines hends, contentLines_rewrittenLines]

/-- What a rewritten file declares: what its old lines declare now, and what is added. -/
theorem declarations_rewriteValues (hends : Text.hasPlainEnds text = true)
    (hupdates : PlainUpdates updates) (hschema : PlainDescriptions schema) :
    (Text.lines (rewriteValues (readValues text) updates schema)).filterMap declared? =
      ((contentLines (Text.lines text)).map (rewriteLine updates)).filterMap declared? ++
        (addedUpdates text updates).map fun entry => (entry.1, Text.trimEnd entry.2) := by
  have hadded (entries : Table Text Text) (h : entries ⊆ updates) :
      (entries.flatMap (addedLines schema)).filterMap declared? =
        entries.map fun entry => (entry.1, Text.trimEnd entry.2) := by
    induction entries with
    | nil => rfl
    | cons entry rest ih =>
      have hmem := h (List.mem_cons_self ..)
      rw [List.flatMap_cons, List.filterMap_append, List.map_cons,
        filterMap_declared?_addedLines (hupdates.isName_of_mem entry hmem)
          (hupdates.isOneLine_of_mem entry hmem),
        ih (List.Subset.trans (List.subset_cons_self ..) h), List.singleton_append]
  rw [← filterMap_declared?_contentLines, contentLines_rewriteValues hends hupdates hschema,
    List.filterMap_append, filterMap_declared?_contentLines,
    hadded _ (addedUpdates_subset text updates)]

/-- A name has the value of the last line with content that declares it. -/
theorem get?_readValues_contentLines (text name : Text) :
    (readValues text).values.get? name =
      (contentLines (Text.lines text)).reverse.findSome? (declaredValue? name) := by
  rw [readValues_values, Table.get?_ofEntries, ← filterMap_declared?_contentLines,
    ← List.filterMap_reverse, Table.get?_filterMap]
  rfl

/-- A line with content is one line. -/
theorem isOneLine_of_mem_contentLines {line : Text}
    (h : line ∈ (contentLines (Text.lines text)).reverse) : Text.isOneLine line = true :=
  Text.isOneLine_of_mem_lines (List.mem_filter.mp (List.mem_reverse.mp h)).1

/-- Every name that the rewriter finds assigned has a value for the reader. -/
theorem has_of_mem_assignedNames (hends : Text.hasPlainEnds text = true) {name : Text}
    (h : name ∈ assignedNames text) : (readValues text).values.has name = true := by
  obtain ⟨line, hline, hname⟩ := List.mem_filterMap.mp h
  obtain ⟨found, hfound, rfl⟩ := Option.map_eq_some_iff.mp hname
  obtain ⟨parts, rfl, hparts, -⟩ := exists_of_assignedPart? hfound
  have hone := isOneLine_rewriteLines hends _ hline
  have hcontent : parts.text ∈ contentLines (Text.lines text) := by
    rw [← contentLines_rewriteLines hends]
    exact List.mem_filter.mpr ⟨hline, by simp [AssignmentLine.text]⟩
  have hfeed : '\n' ∉ parts.value := fun hmem =>
    Text.lineFeed_notMem_of_isOneLine hone (by simp [AssignmentLine.text, hmem])
  rw [Table.has, get?_readValues_contentLines, List.findSome?_isSome_iff]
  exact ⟨parts.text, List.mem_reverse.mpr hcontent, by
    simp [declaredValue?, parts.declared?_text hfeed, hparts]⟩

/-- What is read after a rewrite: what is added, and otherwise what the old lines declare now. -/
theorem get?_rewriteValues_eq (hends : Text.hasPlainEnds text = true)
    (hupdates : PlainUpdates updates) (hschema : PlainDescriptions schema) (name : Text) :
    (readValues (rewriteValues (readValues text) updates schema)).values.get? name =
      ((if (assignedNames text).contains name then none else updates.get? name).map
        Text.trimEnd).or
      ((contentLines (Text.lines text)).reverse.findSome? fun line =>
        declaredValue? name (rewriteLine updates line)) := by
  have hadded (entries : Table Text Text) (hnodup : entries.keys.Nodup) :
      Table.get? (entries.map fun entry => (entry.1, Text.trimEnd entry.2)).reverse name =
        (entries.get? name).map Text.trimEnd := by
    have hkeys : ((entries.map fun entry =>
        (entry.1, Text.trimEnd entry.2)).map Prod.fst).Nodup := by
      simpa [Table.keys, List.map_map, Function.comp_def] using hnodup
    rw [← Table.get?_ofEntries, Table.ofEntries_of_nodup hkeys]
    clear hkeys hnodup
    induction entries with
    | nil => rfl
    | cons entry rest ih =>
      by_cases hentry : entry.1 = name <;> simp [Table.get?, hentry, ih]
  have hnodup : (addedUpdates text updates).keys.Nodup :=
    List.Nodup.sublist (List.filter_sublist.map Prod.fst) hupdates.nodup_keys
  rw [readValues_values, Table.get?_ofEntries,
    declarations_rewriteValues hends hupdates hschema, List.reverse_append, Table.get?_append,
    hadded _ hnodup, ← List.filterMap_reverse, Table.get?_filterMap, ← List.map_reverse,
    List.findSome?_map, addedUpdates,
    Table.get?_filter updates fun key => !(assignedNames text).contains key]
  congr 2
  by_cases hassigned : (assignedNames text).contains name <;> simp

/-- A name that is not updated keeps its value. -/
theorem get?_rewriteValues_of_none (hends : Text.hasPlainEnds text = true)
    (hupdates : PlainUpdates updates) (hschema : PlainDescriptions schema) {name : Text}
    (hname : updates.get? name = none) :
    (readValues (rewriteValues (readValues text) updates schema)).values.get? name =
      (readValues text).values.get? name := by
  rw [get?_rewriteValues_eq hends hupdates hschema, hname, get?_readValues_contentLines]
  have hlines := findSome?_congr_of_mem fun line
      (hline : line ∈ (contentLines (Text.lines text)).reverse) =>
    declaredValue?_rewriteLine_of_none hupdates (isOneLine_of_mem_contentLines hline) hname
  simpa using hlines

/-- The old lines declare after a rewrite the names that they declared before. -/
theorem isSome_findSome?_rewriteLine (hupdates : PlainUpdates updates) (text name : Text) :
    ((contentLines (Text.lines text)).reverse.findSome? fun line =>
      declaredValue? name (rewriteLine updates line)).isSome =
      (readValues text).values.has name := by
  rw [Table.has, get?_readValues_contentLines, Bool.eq_iff_iff, List.findSome?_isSome_iff,
    List.findSome?_isSome_iff]
  refine exists_congr fun line => and_congr_right fun hline => ?_
  rw [isSome_declaredValue?_rewriteLine hupdates (isOneLine_of_mem_contentLines hline)]

/-- A rewrite loses no name. -/
theorem has_rewriteValues_of_has (hends : Text.hasPlainEnds text = true)
    (hupdates : PlainUpdates updates) (hschema : PlainDescriptions schema) {name : Text}
    (hname : (readValues text).values.has name = true) :
    (readValues (rewriteValues (readValues text) updates schema)).values.has name = true := by
  rw [Table.has, get?_rewriteValues_eq hends hupdates hschema, Option.isSome_or,
    isSome_findSome?_rewriteLine hupdates, hname, Bool.or_true]

/-- The names after a rewrite: those of the file, then the new ones in the order of the updates. -/
theorem keys_rewriteValues (hends : Text.hasPlainEnds text = true)
    (hupdates : PlainUpdates updates) (hschema : PlainDescriptions schema) :
    (readValues (rewriteValues (readValues text) updates schema)).values.keys =
      (readValues text).values.keys ++
        updates.keys.filter fun name => !(readValues text).values.has name := by
  have hkept : (((contentLines (Text.lines text)).map (rewriteLine updates)).filterMap
      declared?).map Prod.fst = ((Text.lines text).filterMap declared?).map Prod.fst := by
    rw [← filterMap_declared?_contentLines (Text.lines text), List.filterMap_map,
      List.map_filterMap, List.map_filterMap]
    exact List.filterMap_congr fun line hline => declaredName_rewriteLine hupdates
      (isOneLine_of_mem_contentLines (List.mem_reverse.mpr hline))
  have hnew (name : Text) :
      name ∉ ((Text.lines text).filterMap declared?).map Prod.fst ↔
        (readValues text).values.has name = false := by
    rw [← mem_firstOccurrences, ← Table.keys_ofEntries, ← readValues_values,
      ← Table.get?_eq_none_iff, Table.has, Option.isSome_eq_false_iff, Option.isNone_iff_eq_none]
  have hadded : ((addedUpdates text updates).map fun entry =>
      (entry.1, Text.trimEnd entry.2)).map Prod.fst =
      updates.keys.filter fun name => !(assignedNames text).contains name := by
    rw [List.map_map, addedUpdates, Table.keys, List.filter_map]
    rfl
  rw [readValues_values, Table.keys_ofEntries, declarations_rewriteValues hends hupdates hschema,
    List.map_append, firstOccurrences_append, hkept, hadded, List.filter_filter,
    readValues_values text, Table.keys_ofEntries, ← readValues_values text]
  congr 1
  rw [firstOccurrences_of_nodup (hupdates.nodup_keys.filter _)]
  refine List.filter_congr fun name _ => ?_
  simp only [hnew]
  cases hhas : (readValues text).values.has name with
  | true => simp
  | false =>
    have hassigned : name ∉ assignedNames text := fun hmem => by
      rw [has_of_mem_assignedNames hends hmem] at hhas
      exact absurd hhas (by decide)
    simpa using hassigned

end Rewrite
end EnvFiles
