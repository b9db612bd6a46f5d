import EnvFiles.Proofs.Values.Rewrite

/-!
# Reading back what was written

A tidy values file ends its lines with line feeds, with or without a carriage return before them,
and has nothing but spaces and tabs before the equals signs of its assignments. On such a file
reader and rewriter recognise the same assignments. A rewrite keeps the names in their order and
adds the new ones behind them. It leaves a tidy file behind, so the same holds for the next one.
-/

namespace EnvFiles

/-- A values file on which reader and rewriter agree. -/
structure TidyText (text : Text) : Prop where
  hasPlainEnds : Text.hasPlainEnds text = true
  hasPlainGap_of_mem : ∀ line ∈ Text.lines text, hasPlainGap line = true

/-- The empty file is tidy. -/
theorem tidyText_nil : TidyText [] :=
  ⟨by decide, fun line hline => absurd hline List.not_mem_nil⟩

/-- The kind of its line ends does not make a file less tidy. -/
theorem TidyText.unifyNewlines {text : Text} (h : TidyText text) :
    TidyText (Text.unifyNewlines text) where
  hasPlainEnds := Text.hasPlainEnds_unifyNewlines h.hasPlainEnds
  hasPlainGap_of_mem := by
    rw [Text.lines_unifyNewlines]
    exact h.hasPlainGap_of_mem

/-- An assignment line has spaces and tabs before its equals sign. -/
theorem AssignmentLine.hasPlainGap_text (line : AssignmentLine) :
    hasPlainGap line.text = true := by
  have hstop : ∀ c, ('=' :: Text.trimEnd line.value).head? = some c → Text.isBlank c = false := by
    intro c hc
    obtain rfl := Option.some.inj hc
    decide
  have hgap : (line.gap ++ '=' :: Text.trimEnd line.value).takeWhile Text.isBlank = line.gap :=
    (takeWhile_append_stop (fun c hc => isBlank_of_isGap (line.isGap_gap c hc)) hstop).1
  rw [hasPlainGap, line.takeName?_trim]
  split
  · rename_i rest hsome
    simp only [Option.some.injEq, Prod.mk.injEq] at hsome
    rw [← hsome.2, hgap, List.all_eq_true]
    exact line.isGap_gap
  · rfl

/-- A line that declares nothing has no gap. -/
theorem hasPlainGap_of_declared?_eq_none {line : Text} (h : declared? line = none) :
    hasPlainGap line = true := by rw [hasPlainGap, h]

section RoundTrip

variable {text : Text} {updates : Table Text Text} {schema : List Definition}

/-- A rewritten line has a plain gap if it had one before. -/
theorem hasPlainGap_rewriteLine {line : Text} (h : hasPlainGap line = true) :
    hasPlainGap (rewriteLine updates line) = true := by
  rcases rewriteLine_cases updates line with ⟨heq, -⟩ | ⟨parts, value, -, -, heq⟩
  · rwa [heq]
  · rw [heq, parts.start_append]
    exact AssignmentLine.hasPlainGap_text _

/-- The lines that add an update have plain gaps. -/
theorem hasPlainGap_addedLines {entry : Text × Text} (hname : isName entry.1 = true) :
    ∀ line ∈ addedLines schema entry, hasPlainGap line = true := by
  intro line hline
  rw [addedLines] at hline
  rcases List.mem_append.mp hline with hline | hline
  · split at hline
    · simp at hline
    · rw [List.mem_singleton.mp hline]
      exact hasPlainGap_of_declared?_eq_none (declared?_description _)
  · rcases List.mem_cons.mp hline with rfl | hline
    · change hasPlainGap (entry.1 ++ ['='] ++ entry.2) = true
      rw [← AssignmentLine.text_ofEntry hname]
      exact AssignmentLine.hasPlainGap_text _
    · rw [List.mem_singleton.mp hline]
      exact hasPlainGap_of_declared?_eq_none declared?_nil

/-- A rewrite leaves a tidy file. -/
theorem tidyText_rewriteValues (htidy : TidyText text) (hupdates : PlainUpdates updates)
    (hschema : PlainDescriptions schema) :
    TidyText (rewriteValues (readValues text) updates schema) where
  hasPlainEnds := hasPlainEnds_rewriteValues htidy.hasPlainEnds hupdates hschema
  hasPlainGap_of_mem := by
    intro line hline
    cases line with
    | nil => exact hasPlainGap_of_declared?_eq_none declared?_nil
    | cons c rest =>
      have hcontent : c :: rest ∈
          contentLines (Text.lines (rewriteValues (readValues text) updates schema)) :=
        List.mem_filter.mpr ⟨hline, rfl⟩
      rw [contentLines_rewriteValues htidy.hasPlainEnds hupdates hschema] at hcontent
      rcases List.mem_append.mp hcontent with hold | hnew
      · obtain ⟨old, hmem, heq⟩ := List.mem_map.mp hold
        rw [← heq]
        exact hasPlainGap_rewriteLine
          (htidy.hasPlainGap_of_mem old (List.mem_filter.mp hmem).1)
      · obtain ⟨entry, hentry, hmem⟩ := List.mem_flatMap.mp (List.mem_filter.mp hnew).1
        exact hasPlainGap_addedLines
          (hupdates.isName_of_mem entry (addedUpdates_subset text updates hentry)) _ hmem

/-- On a tidy file the rewriter finds the names assigned that the reader finds declared. -/
theorem mem_assignedNames_iff (htidy : TidyText text) (name : Text) :
    name ∈ assignedNames text ↔ (readValues text).values.has name = true := by
  refine ⟨has_of_mem_assignedNames htidy.hasPlainEnds, fun hhas => ?_⟩
  rw [Table.has, get?_readValues_contentLines, List.findSome?_isSome_iff] at hhas
  obtain ⟨line, hline, hvalue⟩ := hhas
  have hcontent := List.mem_reverse.mp hline
  obtain ⟨value, hvalue⟩ := Option.isSome_iff_exists.mp hvalue
  obtain ⟨entry, hentry, hif⟩ := Option.bind_eq_some_iff.mp hvalue
  have hentryName : entry.1 = name := by
    by_contra hne
    simp [hne] at hif
  obtain ⟨parts, rfl, hparts⟩ := exists_of_declared? hentry
    (htidy.hasPlainGap_of_mem line (List.mem_filter.mp hcontent).1)
  rw [← contentLines_rewriteLines htidy.hasPlainEnds] at hcontent
  refine List.mem_filterMap.mpr ⟨parts.text, (List.mem_filter.mp hcontent).1, ?_⟩
  rw [parts.assignedPart?_text, ← hentryName, ← hparts]
  rfl

/-- The last line that declares a name is not empty. -/
theorem find?_contentLines (text name : Text) :
    ((contentLines (Text.lines text)).reverse.find? fun line =>
      (declaredValue? name line).isSome) = lastDeclaration? text name := by
  rw [lastDeclaration?, contentLines, ← List.filter_reverse, List.find?_filter]
  congr 1
  funext line
  cases line with
  | nil => simp [declaredValue?, declared?_nil]
  | cons c rest => simp

/-- A name has a value exactly if some line declares it. -/
theorem isSome_lastDeclaration? (text name : Text) :
    (lastDeclaration? text name).isSome = (readValues text).values.has name := by
  rw [Table.has, get?_readValues, lastDeclaration?, Bool.eq_iff_iff, List.find?_isSome,
    List.findSome?_isSome_iff]

/-- An updated name reads as the gap after its last equals sign and the new value. -/
theorem get?_rewriteValues_of_some (htidy : TidyText text) (hupdates : PlainUpdates updates)
    (hschema : PlainDescriptions schema) {name value : Text}
    (hname : updates.get? name = some value) :
    (readValues (rewriteValues (readValues text) updates schema)).values.get? name =
      some (Text.trimEnd (lastGap text name ++ value)) := by
  have hlines : ((contentLines (Text.lines text)).reverse.findSome? fun line =>
      declaredValue? name (rewriteLine updates line)) =
      (lastDeclaration? text name).map fun line =>
        Text.trimEnd (gapAfterEquals line ++ value) := by
    rw [← find?_contentLines, ← findSome?_map_const]
    refine findSome?_congr_of_mem fun line hline => ?_
    have hmem := (List.mem_filter.mp (List.mem_reverse.mp hline)).1
    exact declaredValue?_rewriteLine_of_some hupdates (isOneLine_of_mem_contentLines hline)
      (htidy.hasPlainGap_of_mem line hmem) hname
  have hassigned := mem_assignedNames_iff htidy name
  rw [← isSome_lastDeclaration?] at hassigned
  rw [get?_rewriteValues_eq htidy.hasPlainEnds hupdates hschema, hlines, hname, lastGap]
  cases hlast : lastDeclaration? text name with
  | none => simp [hlast] at hassigned; simp [hassigned]
  | some line => simp [hlast] at hassigned; simp [hassigned]

/-- Blanks alone leave nothing when they are cut off. -/
theorem trimEnd_lastGap (text name : Text) : Text.trimEnd (lastGap text name) = [] := by
  refine Text.trimEnd_eq_nil_iff.mpr fun c hc => ?_
  rw [lastGap] at hc
  cases hlast : lastDeclaration? text name with
  | none => simp [hlast] at hc
  | some line =>
    rw [hlast] at hc
    exact isBlank_of_isGap (List.all_eq_true.mp List.all_takeWhile c hc)

/-- A rewrite of a tidy file is read back as it was meant: the names of the file come first and the
new names after them in the order of the updates, names that are not updated keep their values,
and an updated name has the new value behind the gap after its last equals sign. -/
theorem readValues_rewriteValues (htidy : TidyText text) (hupdates : PlainUpdates updates)
    (htrimmed : ∀ entry ∈ updates, Text.trimEnd entry.2 = entry.2)
    (hschema : PlainDescriptions schema) :
    let before := (readValues text).values
    let after := (readValues (rewriteValues (readValues text) updates schema)).values
    after.keys = before.keys ++ updates.keys.filter (fun name => !before.has name) ∧
      (∀ name, updates.get? name = none → after.get? name = before.get? name) ∧
      ∀ name value, updates.get? name = some value →
        after.get? name = some (if value.isEmpty then [] else lastGap text name ++ value) := by
  refine ⟨keys_rewriteValues htidy.hasPlainEnds hupdates hschema,
    fun name => get?_rewriteValues_of_none htidy.hasPlainEnds hupdates hschema,
    fun name value hname => ?_⟩
  rw [get?_rewriteValues_of_some htidy hupdates hschema hname]
  cases value with
  | nil => rw [List.append_nil, trimEnd_lastGap]; rfl
  | cons c rest =>
    have hvalue : Text.trimEnd (c :: rest) = c :: rest := htrimmed _ (Table.mem_of_get? hname)
    rw [Text.trimEnd_append, hvalue, if_neg (List.cons_ne_nil _ _)]
    rfl

/-- A name declared twice, an indented assignment and a new name, in a file with carriage returns:
the last gap of `A` stays, `B` becomes empty and `C` comes last. -/
theorem readValues_rewriteValues_carriageReturns :
    let text : Text := "A=1\r\n  B =\t2\r\n\r\n\r\n\r\nA=  3\r\n"
    let updates : Table Text Text := [("A", "4"), ("C", "5"), ("B", "")]
    let schema : List Definition := [{ name := "C", description := "the last" }]
    let after := (readValues (rewriteValues (readValues text) updates schema)).values
    (TidyText text ∧ PlainUpdates updates ∧ PlainDescriptions schema) ∧
      after.keys = ["A", "B", "C"] ∧ after.get? "A" = some ("  4" : Text) ∧
        after.get? "B" = some [] ∧ after.get? "C" = some ("5" : Text) := by
  intro text updates schema after
  have htidy : TidyText text := ⟨by decide +kernel, by decide +kernel⟩
  have hupdates : PlainUpdates updates := ⟨by decide, by decide, by decide⟩
  have hschema : PlainDescriptions schema := by
    intro definition hmem
    rw [List.mem_singleton.mp hmem]
    decide
  obtain ⟨hkeys, -, hupdated⟩ :=
    readValues_rewriteValues htidy hupdates (by decide +kernel) hschema
  have hlast : lastGap text "A" = "  " ∧ lastGap text "C" = [] := by decide +kernel
  refine ⟨⟨htidy, hupdates, hschema⟩, hkeys.trans (by decide +kernel), ?_, ?_, ?_⟩
  · exact (hupdated "A" "4" (by decide)).trans (by rw [hlast.1]; rfl)
  · exact (hupdated "B" "" (by decide)).trans rfl
  · exact (hupdated "C" "5" (by decide)).trans (by rw [hlast.2]; rfl)

end RoundTrip
end EnvFiles
