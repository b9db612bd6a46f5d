import EnvFiles.Proofs.Values.Rewrite

/-!
# What pieces of a values file declare

The reader ends a line at every line end, the rewriter at line feeds alone, so a piece between
line feeds can hold several lines of the reader. What a file declares is what its pieces declare,
one after another, for every text whatsoever. An assignment declares its name, and then what the
lines behind the first one of its value declare. A rewrite replaces the whole value, so the names
of those lines are lost unless another piece declares them.
-/

namespace EnvFiles

/-- What the lines of a text declare, in their order. -/
def declarations (text : Text) : Table Text Text := (Text.lines text).filterMap declared?

/-- The text up to its first line end. -/
def firstLine (text : Text) : Text := text.takeWhile fun c => !Text.isLineEnd c

/-- The text from its first line end on. -/
def behindFirstLine (text : Text) : Text := text.dropWhile fun c => !Text.isLineEnd c

/-- Spaces and tabs end no line. -/
theorem isOneLine_of_isGap {gap : Text} (h : ∀ c ∈ gap, isGap c = true) :
    Text.isOneLine gap = true := by
  rw [Text.isOneLine_iff]
  intro c hc
  have hgap := h c hc
  simp only [isGap, Bool.or_eq_true, beq_iff_eq] at hgap
  rcases hgap with rfl | rfl <;> decide

/-- The first line is one line. -/
theorem isOneLine_firstLine (text : Text) : Text.isOneLine (firstLine text) = true :=
  List.all_takeWhile

/-- One line is its first line, and nothing is behind it. -/
theorem firstLine_of_isOneLine {text : Text} (h : Text.isOneLine text = true) :
    firstLine text = text ∧ behindFirstLine text = [] := by
  rw [Text.isOneLine, List.all_eq_true] at h
  exact ⟨List.takeWhile_eq_self_iff.mpr h, List.dropWhile_eq_nil_iff.mpr h⟩

/-- What one line has before it belongs to the first line. -/
theorem firstLine_append {line : Text} (h : Text.isOneLine line = true) (rest : Text) :
    firstLine (line ++ rest) = line ++ firstLine rest ∧
      behindFirstLine (line ++ rest) = behindFirstLine rest := by
  rw [Text.isOneLine, List.all_eq_true] at h
  exact ⟨List.takeWhile_append_of_pos h, List.dropWhile_append_of_pos h⟩

/-- A line end ends the declarations of what stands before. -/
theorem declarations_append {c : Char} (hc : Text.isLineEnd c = true) (first rest : Text) :
    declarations (first ++ c :: rest) = declarations first ++ declarations rest := by
  have hparts (text : Text) :
      declarations text = (partsBetweenEnds [] text).filterMap declared? := by
    rw [← contentLines_lines, filterMap_declared?_contentLines]
    rfl
  rw [hparts, hparts, hparts, partsBetweenEnds_append hc, List.filterMap_append]

/-- One line declares one thing at most. -/
theorem declarations_of_isOneLine {line : Text} (h : Text.isOneLine line = true) :
    declarations line = (declared? line).toList := by
  rw [declarations, ← filterMap_declared?_contentLines, contentLines_lines_of_isOneLine h,
    filterMap_declared?_contentLines]
  cases hdeclared : declared? line <;> simp [hdeclared]

/-- A blank at the start of a text declares nothing and hides nothing. -/
theorem declarations_cons_blank {c : Char} (hc : Text.isBlank c = true) (rest : Text) :
    declarations (c :: rest) = declarations rest := by
  cases hend : Text.isLineEnd c with
  | true => exact declarations_append hend [] rest
  | false =>
    have hline (line : Text) : declared? (c :: line) = declared? line := by
      have htrim : Text.trim (c :: line) = Text.trim line := by
        rw [Text.trim, Text.trimStart, List.dropWhile_cons_of_pos hc]
        rfl
      rw [declared?, htrim, declared?]
    rw [declarations, declarations, Text.lines_cons hend]
    cases Text.lines rest with
    | nil => rw [Text.continueLine, if_neg (by simp), List.filterMap_cons_none (hline [])]
    | cons line more =>
      rw [Text.continueLine, List.filterMap_cons, List.filterMap_cons, List.singleton_append,
        hline]

/-- Blanks at the start of a text declare nothing and hide nothing. -/
theorem declarations_append_blank {blank : Text} (h : ∀ c ∈ blank, Text.isBlank c = true)
    (rest : Text) : declarations (blank ++ rest) = declarations rest := by
  induction blank with
  | nil => rfl
  | cons c blank ih =>
    rw [List.cons_append, declarations_cons_blank (h c (List.mem_cons_self ..)),
      ih fun d hd => h d (List.mem_cons_of_mem _ hd)]

/-- A text declares what its first line declares, and then what is behind that line. -/
theorem declarations_eq_firstLine (text : Text) :
    declarations text =
      (declared? (firstLine text)).toList ++ declarations (behindFirstLine text) := by
  have hsplit : firstLine text ++ behindFirstLine text = text := List.takeWhile_append_dropWhile
  have hfirst := declarations_of_isOneLine (isOneLine_firstLine text)
  cases hbehind : behindFirstLine text with
  | nil =>
    rw [hbehind, List.append_nil] at hsplit
    rw [← hfirst, hsplit]
    exact (List.append_nil _).symm
  | cons c rest =>
    have hc : Text.isLineEnd c = true := by
      have hstop := List.head?_dropWhile_not (fun c => !Text.isLineEnd c) text
      rw [behindFirstLine] at hbehind
      rw [hbehind] at hstop
      simpa using hstop
    rw [← hfirst, declarations_cons_blank (Text.isBlank_of_isLineEnd hc),
      ← declarations_append hc, ← hbehind, hsplit]

/-- An assignment declares its name, and then what the lines behind the first one of its value
declare. -/
theorem AssignmentLine.declarations_text (line : AssignmentLine) :
    declarations line.text =
      (line.name, Text.trimEnd (firstLine line.value)) ::
        declarations (behindFirstLine line.value) := by
  let tail : AssignmentLine := { line with indent := [], isBlank_indent := by simp }
  let head : AssignmentLine := tail.withValue (firstLine line.value)
  have hstart : Text.isOneLine (line.name ++ (line.gap ++ ['='])) = true := by
    have hequals : Text.isLineEnd '=' = false := by decide
    simp [isOneLine_of_isName line.isName_name, isOneLine_of_isGap line.isGap_gap, hequals]
  have htail : tail.text = line.name ++ (line.gap ++ ['=']) ++ line.value := by
    simp [AssignmentLine.text, tail]
  have hhead : head.text = line.name ++ (line.gap ++ ['=']) ++ firstLine line.value := by
    simp [AssignmentLine.text, head, tail, withValue]
  obtain ⟨hfirst, hbehind⟩ := firstLine_append hstart line.value
  rw [← htail, ← hhead] at hfirst
  rw [← htail] at hbehind
  have hdeclared := head.declared?_text
    (Text.lineFeed_notMem_of_isOneLine (isOneLine_firstLine line.value))
  change declarations (line.indent ++ tail.text) = _
  rw [declarations_append_blank line.isBlank_indent, declarations_eq_firstLine, hfirst, hbehind,
    hdeclared]
  rfl

/-- A line with a new value declares its name, and then what the lines behind the first one of the
value declare. -/
theorem AssignmentLine.declarations_start_append (line : AssignmentLine) (value : Text) :
    declarations (line.start ++ value) =
      (line.name, Text.trimEnd (gapAfterEquals line.text ++ firstLine value)) ::
        declarations (behindFirstLine value) := by
  have hgap : Text.isOneLine (line.value.takeWhile isGap) = true :=
    isOneLine_of_isGap (List.all_eq_true.mp List.all_takeWhile)
  obtain ⟨hfirst, hbehind⟩ := firstLine_append hgap value
  rw [line.start_append, declarations_text, line.gapAfterEquals_text]
  simp only [withValue, hfirst, hbehind]

/-- The values of a file are what it declares, the last declaration of a name overriding the
others. -/
theorem readValues_values_declarations (text : Text) :
    (readValues text).values = Table.ofEntries (declarations text) := readValues_values text

/-- A name has a value exactly if it is declared. -/
theorem has_readValues_iff {text name : Text} :
    (readValues text).values.has name = true ↔ name ∈ (declarations text).keys := by
  rw [Table.has_iff, ← Table.mem_keys_iff, readValues_values_declarations, Table.keys_ofEntries,
    mem_firstOccurrences]
  rfl

section Rewrite

variable {text : Text} {updates : Table Text Text} {schema : List Definition}

/-- What a file declares is what its pieces declare. -/
theorem declarations_eq_flatMap (text : Text) :
    declarations text = (rewriteLines text).flatMap declarations := by
  have h := congrArg (List.filterMap declared?) (contentLines_lines_rewriteLines text)
  rw [filterMap_declared?_contentLines, List.filterMap_flatMap] at h
  simp only [filterMap_declared?_contentLines] at h
  exact h.symm

/-- What a rewritten file declares is what its rewritten pieces declare, and what is added. -/
theorem declarations_rewriteValues_eq (text : Text) (updates : Table Text Text)
    (schema : List Definition) :
    declarations (rewriteValues (readValues text) updates schema) =
      (rewriteLines text).flatMap (fun piece => declarations (rewriteLine updates piece)) ++
        (addedUpdates text updates).flatMap fun entry =>
          (addedLines schema entry).flatMap declarations := by
  have hlines := congrArg (List.filterMap declared?)
    (contentLines_lines_layOut (isLineEnding_rewrite text) (rewrittenLines text updates schema))
  rw [filterMap_declared?_contentLines, ← rewriteValues_eq, List.filterMap_flatMap] at hlines
  have hseparator (kept added : List Text) :
      (if added.isEmpty then [] else separatorAfter kept).flatMap declarations = [] := by
    refine List.flatMap_eq_nil_iff.mpr fun line hline => ?_
    rw [eq_nil_of_mem_separator hline]
    rfl
  have hdeclared (line : Text) :
      (contentLines (Text.lines line)).filterMap declared? = declarations line :=
    filterMap_declared?_contentLines _
  simp only [hdeclared] at hlines
  rw [declarations, hlines, rewrittenLines]
  simp only [List.flatMap_append, hseparator, List.append_nil, List.flatMap_map,
    List.flatMap_assoc]

/-- The lines that add an update declare what the lines of its description behind the first one
declare, then its name, and then what the lines behind the first one of its value declare. -/
theorem flatMap_declarations_addedLines_eq {entry : Text × Text} (hname : isName entry.1 = true)
    (schema : List Definition) :
    (addedLines schema entry).flatMap declarations =
      declarations (behindFirstLine (descriptionOf schema entry.1)) ++
        (entry.1, Text.trimEnd (firstLine entry.2)) ::
          declarations (behindFirstLine entry.2) := by
  have hadded : declarations (entry.1 ++ ['='] ++ entry.2) =
      (entry.1, Text.trimEnd (firstLine entry.2)) :: declarations (behindFirstLine entry.2) := by
    rw [← AssignmentLine.text_ofEntry hname]
    exact (AssignmentLine.ofEntry entry hname).declarations_text
  have habove (description : Text) : declarations ('#' :: ' ' :: description) =
      declarations (behindFirstLine description) := by
    obtain ⟨hfirst, hbehind⟩ : firstLine ('#' :: ' ' :: description) =
        '#' :: ' ' :: firstLine description ∧
        behindFirstLine ('#' :: ' ' :: description) = behindFirstLine description :=
      firstLine_append (by decide : Text.isOneLine ['#', ' '] = true) description
    rw [declarations_eq_firstLine, hfirst, hbehind, declared?_description]
    rfl
  have hempty : declarations [] = [] := rfl
  rw [addedLines, List.flatMap_append]
  change _ ++ [entry.1 ++ ['='] ++ entry.2, []].flatMap declarations = _
  rw [List.flatMap_cons, hadded, List.flatMap_singleton, hempty, List.append_nil]
  split
  · rename_i hnone
    rw [List.isEmpty_iff.mp hnone]
    rfl
  · change ['#' :: ' ' :: descriptionOf schema entry.1].flatMap declarations ++ _ = _
    rw [List.flatMap_singleton, habove]

/-- Under a description of one line, the lines that add an update declare its name, and then what
the lines behind the first one of its value declare. -/
theorem flatMap_declarations_addedLines {entry : Text × Text} (hname : isName entry.1 = true)
    (hdescription : Text.isOneLine (descriptionOf schema entry.1) = true) :
    (addedLines schema entry).flatMap declarations =
      (entry.1, Text.trimEnd (firstLine entry.2)) ::
        declarations (behindFirstLine entry.2) := by
  rw [flatMap_declarations_addedLines_eq hname, (firstLine_of_isOneLine hdescription).2]
  rfl

/-- A piece that assigns an updated name: a rewrite replaces its value. -/
def isReplaced (updates : Table Text Text) (piece : Text) : Bool :=
  (assignedPart? piece).any fun part => updates.has part.1

/-- A piece that is not replaced stays, and one that is keeps its start. -/
theorem isReplaced_cases (updates : Table Text Text) (piece : Text) :
    isReplaced updates piece = false ∧ rewriteLine updates piece = piece ∨
      isReplaced updates piece = true ∧ ∃ (parts : AssignmentLine) (value : Text),
        parts.text = piece ∧ updates.get? parts.name = some value ∧
          rewriteLine updates piece = parts.start ++ value := by
  rcases rewriteLine_cases updates piece with ⟨heq, hnone⟩ | ⟨parts, value, rfl, hget, heq⟩
  · refine Or.inl ⟨?_, heq⟩
    cases hpart : assignedPart? piece with
    | none => simp [isReplaced, hpart]
    | some part =>
      obtain ⟨parts, htext, hname, -⟩ := exists_of_assignedPart? hpart
      simp [isReplaced, hpart, Table.has, ← hname, hnone parts htext]
  · refine Or.inr ⟨?_, parts, value, rfl, hget, heq⟩
    simp [isReplaced, parts.assignedPart?_text, Table.has, hget]

/-- With updates of one line each, a rewritten piece declares what it declared, or nothing but the
updated name that it assigns. -/
theorem mem_keys_declarations_rewriteLine (hupdates : PlainUpdates updates) {piece name : Text} :
    name ∈ (declarations (rewriteLine updates piece)).keys ↔
      (isReplaced updates piece = false ∧ name ∈ (declarations piece).keys) ∨
        (updates.has name = true ∧ (assignedPart? piece).map Prod.fst = some name) := by
  rcases isReplaced_cases updates piece with ⟨hkept, heq⟩ | ⟨hreplaced, parts, value, rfl, hget, heq⟩
  · have hassigned (h : (assignedPart? piece).map Prod.fst = some name) :
        updates.has name = false := by
      obtain ⟨part, hpart, rfl⟩ := Option.map_eq_some_iff.mp h
      simpa [isReplaced, hpart] using hkept
    rw [heq]
    refine ⟨fun hmem => Or.inl ⟨hkept, hmem⟩, ?_⟩
    rintro (⟨-, hmem⟩ | ⟨hhas, hpart⟩)
    · exact hmem
    · rw [hassigned hpart] at hhas
      exact absurd hhas (by decide)
  · have hbehind := (firstLine_of_isOneLine (hupdates.isOneLine_of_get? hget)).2
    have hkeys : (declarations (parts.start ++ value)).keys = [parts.name] := by
      rw [parts.declarations_start_append, hbehind]
      rfl
    have hhas : updates.has parts.name = true := Table.has_iff.mpr ⟨value, hget⟩
    rw [heq, hkeys, hreplaced, parts.assignedPart?_text, List.mem_singleton]
    simp only [Bool.true_eq_false, false_and, false_or, Option.map_some, Option.some.injEq]
    refine ⟨?_, fun h => h.2.symm⟩
    rintro rfl
    exact ⟨hhas, rfl⟩

/-- With updates of one line each, what is added declares the names that no piece assigns. -/
theorem keys_declarations_added (hupdates : PlainUpdates updates)
    (hschema : PlainDescriptions schema) {entries : Table Text Text} (h : entries ⊆ updates) :
    (entries.flatMap fun entry => (addedLines schema entry).flatMap declarations).map Prod.fst =
      entries.keys := by
  induction entries with
  | nil => rfl
  | cons entry rest ih =>
    have hmem := h (List.mem_cons_self ..)
    have hbehind := (firstLine_of_isOneLine (hupdates.isOneLine_of_mem entry hmem)).2
    rw [List.flatMap_cons, List.map_append,
      flatMap_declarations_addedLines (hupdates.isName_of_mem entry hmem)
        (hschema.isOneLine_descriptionOf _), hbehind,
      ih (List.Subset.trans (List.subset_cons_self ..) h)]
    rfl

/-- A rewritten file has the updated names, and those of the pieces that are not replaced. -/
theorem has_rewriteValues_iff (hupdates : PlainUpdates updates) (hschema : PlainDescriptions schema)
    {name : Text} :
    (readValues (rewriteValues (readValues text) updates schema)).values.has name = true ↔
      updates.has name = true ∨ ∃ piece ∈ rewriteLines text,
        isReplaced updates piece = false ∧ (readValues piece).values.has name = true := by
  have hpieces : name ∈ ((rewriteLines text).flatMap fun piece =>
      declarations (rewriteLine updates piece)).map Prod.fst ↔
      ∃ piece ∈ rewriteLines text, name ∈ (declarations (rewriteLine updates piece)).keys := by
    simp only [Table.keys, List.map_flatMap, List.mem_flatMap]
  have hadded : name ∈ (addedUpdates text updates).keys ↔
      updates.has name = true ∧ name ∉ assignedNames text := by
    rw [Table.mem_keys_iff, Table.has_iff, addedUpdates,
      Table.get?_filter updates fun key => !(assignedNames text).contains key]
    by_cases hassigned : name ∈ assignedNames text <;> simp [hassigned]
  simp only [has_readValues_iff]
  rw [declarations_rewriteValues_eq, Table.keys, List.map_append, List.mem_append, hpieces,
    keys_declarations_added hupdates hschema (addedUpdates_subset text updates), hadded]
  simp only [mem_keys_declarations_rewriteLine hupdates]
  constructor
  · rintro (⟨piece, hpiece, ⟨hkept, hmem⟩ | ⟨hhas, -⟩⟩ | ⟨hhas, -⟩)
    · exact Or.inr ⟨piece, hpiece, hkept, hmem⟩
    · exact Or.inl hhas
    · exact Or.inl hhas
  · rintro (hhas | ⟨piece, hpiece, hkept, hmem⟩)
    · by_cases hassigned : name ∈ assignedNames text
      · obtain ⟨piece, hpiece, hpart⟩ := List.mem_filterMap.mp hassigned
        exact Or.inl ⟨piece, hpiece, Or.inr ⟨hhas, hpart⟩⟩
      · exact Or.inr ⟨hhas, hassigned⟩
    · exact Or.inl ⟨piece, hpiece, Or.inl ⟨hkept, hmem⟩⟩

/-- A name is missing after a rewrite exactly if it is not updated and whatever declares it in the
file stands behind a line end of the reader, in the value of an updated name. -/
theorem rewriteValues_loses (hupdates : PlainUpdates updates) (hschema : PlainDescriptions schema)
    (name : Text) :
    (readValues (rewriteValues (readValues text) updates schema)).values.has name = false ↔
      updates.has name = false ∧ ∀ piece ∈ rewriteLines text,
        (readValues piece).values.has name = true → ∃ parts : AssignmentLine,
          parts.text = piece ∧ updates.has parts.name = true ∧
            (readValues (behindFirstLine parts.value)).values.has name = true := by
  rw [← Bool.not_eq_true, has_rewriteValues_iff hupdates hschema]
  simp only [not_or, not_exists, not_and, Bool.not_eq_true]
  refine and_congr_right fun hname => forall₂_congr fun piece _ => ?_
  rcases isReplaced_cases updates piece with ⟨hkept, -⟩ | ⟨hreplaced, parts, value, rfl, hget, -⟩
  · -- A piece that is kept assigns no updated name.
    have hnone (parts : AssignmentLine) (h : parts.text = piece) : updates.has parts.name = false := by
      rw [← h, isReplaced, parts.assignedPart?_text] at hkept
      exact hkept
    constructor
    · intro h hhas
      rw [h hkept] at hhas
      exact absurd hhas (by decide)
    · intro h _
      by_contra hhas
      obtain ⟨parts, htext, hupdated, -⟩ := h (Bool.not_eq_false _ ▸ hhas)
      rw [hnone parts htext] at hupdated
      exact absurd hupdated (by decide)
  · -- A piece that is replaced declares the updated name first.
    have hupdated : updates.has parts.name = true := Table.has_iff.mpr ⟨value, hget⟩
    have hne : name ≠ parts.name := by
      rintro rfl
      rw [hname] at hupdated
      exact absurd hupdated (by decide)
    refine iff_of_true (fun h => absurd h (by simp [hreplaced])) fun hhas => ?_
    refine ⟨parts, rfl, hupdated, ?_⟩
    rw [has_readValues_iff, parts.declarations_text, Table.keys, List.map_cons,
      List.mem_cons] at hhas
    exact has_readValues_iff.mpr (hhas.resolve_left hne)

/-- Three names in one piece, the last of them nowhere else. -/
theorem rewriteValues_loses_last :
    let text : Text := "A=1\rB=2\u2028C=3\nB=4\n"
    let updates : Table Text Text := [("A", "5")]
    let after := (readValues (rewriteValues (readValues text) updates)).values
    (PlainUpdates updates ∧ PlainDescriptions []) ∧
      (readValues text).values.has "C" = true ∧ after.has "C" = false ∧ after.has "B" = true := by
  intro text updates after
  have hupdates : PlainUpdates updates := ⟨by decide, by decide, by decide⟩
  have hschema : PlainDescriptions [] := by simp [PlainDescriptions]
  refine ⟨⟨hupdates, hschema⟩, by decide +kernel, ?_, by decide +kernel⟩
  refine (rewriteValues_loses hupdates hschema "C").mpr ⟨by decide, fun piece hpiece hhas => ?_⟩
  have hpieces : rewriteLines text = [("A=1\rB=2\u2028C=3" : Text), ("B=4" : Text), []] := by
    decide +kernel
  rw [hpieces] at hpiece
  rcases List.mem_cons.mp hpiece with rfl | hpiece
  · exact ⟨{ indent := [], name := "A", gap := [], value := "1\rB=2\u2028C=3",
             isBlank_indent := by simp, isName_name := by decide, isGap_gap := by simp },
      by decide, by decide, by decide +kernel⟩
  · have hnot : ∀ other ∈ [("B=4" : Text), []], (readValues other).values.has "C" = false := by
      decide +kernel
    rw [hnot piece hpiece] at hhas
    exact absurd hhas (by decide)

/-- A form feed ends a line of the reader but none of the rewriter, so a rewrite can lose a name. -/
theorem rewriteValues_loses_formFeed :
    ¬ ∀ (text : Text) (updates : Table Text Text), PlainUpdates updates → ∀ name,
      (readValues text).values.has name = true →
        (readValues (rewriteValues (readValues text) updates)).values.has name = true := by
  intro h
  have hkept := h "Y=\x0cX=1\n" [("Y", "2")] ⟨by decide, by decide, by decide⟩ "X"
    (by decide +kernel)
  exact absurd hkept (by decide +kernel)

end Rewrite
end EnvFiles
