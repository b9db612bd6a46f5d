import EnvFiles.Proofs.Values.LinesKept

/-!
# Rewriting what was rewritten

What is laid out is laid out again as it stands: its lines are found again, no run of line feeds is
cut down any more, and its line end is found. So a rewrite changes a laid out text only by
changing a line or adding one. Values that start with neither a space nor a tab are put right
behind the gap after an equals sign, and the gap is found there again. Hence a second rewrite with
the same updates, or with some of them, finds every line as it would write it and every name
assigned, and gives the text that it is given.
-/

namespace EnvFiles

/-- Updates of distinct names that leave the lines and gaps of a file as they are: values without
carriage returns and line feeds that start with neither a space nor a tab. -/
structure TightUpdates (updates : Table Text Text) : Prop where
  nodup_keys : updates.keys.Nodup
  isName_of_mem : ∀ entry ∈ updates, isName entry.1 = true
  notMem_of_mem : ∀ entry ∈ updates, '\r' ∉ entry.2 ∧ '\n' ∉ entry.2
  isGap_head_of_mem : ∀ entry ∈ updates, entry.2.head?.any isGap = false

/-- Trimmed values start with neither a space nor a tab. -/
theorem PlainUpdates.tight {updates : Table Text Text} (h : PlainUpdates updates)
    (htrimmed : ∀ entry ∈ updates, Text.trim entry.2 = entry.2) : TightUpdates updates where
  nodup_keys := h.nodup_keys
  isName_of_mem := h.isName_of_mem
  notMem_of_mem entry hentry := Text.notMem_of_isOneLine (h.isOneLine_of_mem entry hentry)
  isGap_head_of_mem entry hentry := by
    have hstart : entry.2.dropWhile Text.isBlank = entry.2 := by
      have hkept := Text.trimStart_trim entry.2
      rwa [htrimmed entry hentry] at hkept
    have hblank := List.head?_dropWhile_not Text.isBlank entry.2
    rw [hstart] at hblank
    rw [← Bool.not_eq_true, Option.any_eq_true]
    rintro ⟨c, hc, hgap⟩
    rw [hc] at hblank
    simp [isBlank_of_isGap hgap] at hblank

/-- In a text with plain line ends a line feed follows every carriage return. -/
theorem hasOnlyReturnFeeds_of_hasPlainEnds {text : Text} (h : Text.hasPlainEnds text = true) :
    hasOnlyReturnFeeds text = true := by
  refine Text.hasPlainEnds_induction (motive := fun text => hasOnlyReturnFeeds text = true)
    rfl ?_ ?_ ?_ text h
  · exact fun rest _ ih => by simp [hasOnlyReturnFeeds, ih]
  · exact fun rest _ ih => by simp [hasOnlyReturnFeeds, ih]
  · intro c rest hc _ ih
    have hreturn : c ≠ '\r' := by
      rintro rfl
      exact absurd hc (by decide)
    simp [hasOnlyReturnFeeds, ih, hreturn]

section LaidOut

variable {lineEnd text : Text} {lines : List Text}

/-- Lines without carriage returns are laid out with the line end. -/
theorem laidOut_layOut (lineEnd : Text) (h : ∀ line ∈ lines, '\r' ∉ line) :
    LaidOut lineEnd (laidOutLines lines) (layOut lineEnd lines) where
  eq_flatMap := layOut_eq_flatMap lineEnd lines
  notMem_of_mem := notMem_laidOutLines h
  spaced := spaced_laidOutLines lines
  ends := laidOutLines_ends lines

namespace LaidOut

/-- There is a line at least. -/
theorem lines_ne_nil (h : LaidOut lineEnd lines text) : lines ≠ [] :=
  h.ends.elim (fun hone => by simp [hone]) And.left

/-- What is laid out is not empty. -/
theorem ne_nil (h : LaidOut lineEnd lines text) (hend : IsLineEnding lineEnd) : text ≠ [] := by
  obtain ⟨first, rest, hlines⟩ := List.exists_cons_of_ne_nil h.lines_ne_nil
  rw [h.eq_flatMap, hlines, List.flatMap_cons]
  rcases hend with rfl | rfl <;> simp

/-- A rewrite starts from the lines, and from an empty one behind the last line end. -/
theorem rewriteLines_eq (h : LaidOut lineEnd lines text) (hend : IsLineEnding lineEnd) :
    rewriteLines text = lines ++ [[]] := by
  rw [← h.feedLines_eq hend, rewriteLines, if_neg (by simpa using h.ne_nil hend)]
  rfl

/-- With an empty line behind them the lines are laid out as they are. -/
theorem laidOutLines_concat (h : LaidOut lineEnd lines text) :
    laidOutLines (lines ++ [[]]) = lines := by
  rcases h.ends with hone | ⟨hne, hhead, hlast⟩
  · rw [hone]
    decide
  · have hspaced : Spaced (lines ++ [[]]) := by
      refine List.isChain_append.mpr ⟨h.spaced, .singleton _, fun last hmem next _ => Or.inl ?_⟩
      rintro rfl
      exact hlast hmem
    exact EnvFiles.laidOutLines_concat (fun line hline => (h.notMem_of_mem line hline).2) hspaced
      hne hhead

/-- With line feeds for its line ends, what is laid out is laid out with line feeds. -/
theorem unifyNewlines (h : LaidOut lineEnd lines text) (hend : IsLineEnding lineEnd) :
    LaidOut ['\n'] lines (Text.unifyNewlines text) where
  eq_flatMap := by rw [h.eq_flatMap, unifyNewlines_flatMap h.notMem_of_mem hend]
  notMem_of_mem := h.notMem_of_mem
  spaced := h.spaced
  ends := h.ends

/-- A rewrite that changes no line and adds none gives the text back. -/
theorem rewriteValues_eq_self (h : LaidOut lineEnd lines text) (hend : IsLineEnding lineEnd)
    {updates : Table Text Text} (schema : List Definition)
    (hkept : ∀ line ∈ lines, rewriteLine updates line = line)
    (hadded : addedUpdates text updates = []) :
    rewriteValues (readValues text) updates schema = text := by
  have hlines : rewrittenLines text updates schema = lines ++ [[]] := by
    have hmap : lines.map (rewriteLine updates) = lines :=
      (List.map_congr_left hkept).trans (List.map_id' _)
    have hempty : rewriteLine updates [] = [] :=
      List.isEmpty_iff.mp (isEmpty_rewriteLine updates [])
    simp [rewrittenLines, hadded, h.rewriteLines_eq hend, hmap, hempty]
  have hfound := EndsLines.found_eq ⟨lines, h.notMem_of_mem, h.eq_flatMap⟩ hend
    (Or.inr (h.ne_nil hend))
  rw [rewriteValues_eq, hlines, hfound, layOut_eq_flatMap, h.laidOutLines_concat, ← h.eq_flatMap]

end LaidOut
end LaidOut

section Lines

variable {updates more : Table Text Text}

/-- An assignment line stays as it is if an update of its name would make it what it is. -/
theorem AssignmentLine.rewriteLine_text_self (parts : AssignmentLine)
    (h : ∀ value, updates.get? parts.name = some value → parts.start ++ value = parts.text) :
    rewriteLine updates parts.text = parts.text := by
  cases hget : updates.get? parts.name with
  | none => simp [rewriteLine, parts.assignedPart?_text, hget]
  | some value => rw [rewriteLine_text parts hget, h value hget]

/-- A description line stays as it is. -/
theorem rewriteLine_description (updates : Table Text Text) (description : Text) :
    rewriteLine updates ('#' :: ' ' :: description) = '#' :: ' ' :: description := by
  have hcomment : isComment (Text.trim ('#' :: ' ' :: description)) = true := by
    rw [Text.trim, Text.trimStart, List.dropWhile_cons_of_neg (by decide),
      Text.trimEnd_cons_of_not_blank (by decide)]
    rfl
  rw [rewriteLine, assignedPart?, if_pos hcomment]

/-- Some of the updates give a name the value that all of them give it. -/
theorem Table.get?_of_subset (hnodup : updates.keys.Nodup) (hmore : more ⊆ updates)
    {name value : Text} (h : more.get? name = some value) : updates.get? name = some value :=
  Table.get?_of_mem hnodup (hmore (Table.mem_of_get? h))

variable (hupdates : TightUpdates updates)

include hupdates

/-- The gap behind an equals sign is found again in front of a new value. -/
theorem TightUpdates.takeWhile_append {value : Text} (hvalue : ∃ name, (name, value) ∈ updates)
    {gap : Text} (hgap : ∀ c ∈ gap, isGap c = true) : (gap ++ value).takeWhile isGap = gap := by
  obtain ⟨name, hmem⟩ := hvalue
  refine (takeWhile_append_stop hgap fun c hc => ?_).1
  have hhead := hupdates.isGap_head_of_mem _ hmem
  rwa [hc] at hhead

/-- An assignment line in which the value of an update stands behind a gap is not changed by
updates among which the update is. -/
theorem TightUpdates.rewriteLine_assigned (hmore : more ⊆ updates) (parts : AssignmentLine)
    {gap value : Text} (hgap : ∀ c ∈ gap, isGap c = true)
    (hmem : (parts.name, value) ∈ updates) (hvalue : parts.value = gap ++ value) :
    rewriteLine more parts.text = parts.text := by
  apply parts.rewriteLine_text_self
  intro other hother
  have hsame : other = value := by
    have hget := Table.get?_of_subset hupdates.nodup_keys hmore hother
    rw [Table.get?_of_mem hupdates.nodup_keys hmem] at hget
    exact (Option.some.inj hget).symm
  rw [parts.start_append, hvalue, hupdates.takeWhile_append ⟨_, hmem⟩ hgap, hsame, ← hvalue]
  rfl

/-- A rewritten line is not changed by the same updates, nor by some of them. -/
theorem TightUpdates.rewriteLine_rewriteLine (hmore : more ⊆ updates) (line : Text) :
    rewriteLine more (rewriteLine updates line) = rewriteLine updates line := by
  rcases rewriteLine_cases updates line with ⟨heq, hnone⟩ | ⟨parts, value, rfl, hget, heq⟩
  · rw [heq]
    rcases rewriteLine_cases more line with ⟨hkept, -⟩ | ⟨parts, value, hline, hget, -⟩
    · exact hkept
    · have hsome := hnone parts hline
      rw [Table.get?_of_subset hupdates.nodup_keys hmore hget] at hsome
      cases hsome
  · rw [heq, parts.start_append]
    exact hupdates.rewriteLine_assigned hmore _ (List.all_eq_true.mp List.all_takeWhile)
      (Table.mem_of_get? hget) rfl

/-- Nor are the lines that add an update. -/
theorem TightUpdates.rewriteLine_newLines (hmore : more ⊆ updates) {schema : List Definition}
    {entry : Text × Text} (hentry : entry ∈ updates) {line : Text}
    (hline : line ∈ newLines schema entry) : rewriteLine more line = line := by
  rcases List.mem_append.mp hline with hline | hline
  · split at hline
    · exact absurd hline List.not_mem_nil
    · rw [List.mem_singleton.mp hline]
      exact rewriteLine_description more _
  · have hname := hupdates.isName_of_mem entry hentry
    have hgap : ∀ c ∈ ([] : Text), isGap c = true := by simp
    rw [List.mem_singleton.mp hline, ← AssignmentLine.text_ofEntry hname]
    exact hupdates.rewriteLine_assigned hmore _ hgap hentry rfl

end Lines

section Rewriting

variable {text : Text} {updates more : Table Text Text} {schema : List Definition}

/-- What is handed in with tight updates holds no carriage return and no line feed. -/
theorem TightUpdates.notMem_handedIn (hupdates : TightUpdates updates)
    (hschema : ∀ definition ∈ schema, '\r' ∉ definition.description ∧ '\n' ∉ definition.description) :
    ∀ part ∈ handedIn updates schema, '\r' ∉ part ∧ '\n' ∉ part := by
  have hname {name : Text} (h : isName name = true) : '\r' ∉ name ∧ '\n' ∉ name :=
    ⟨fun hmem => absurd (isNameChar_of_isName h _ hmem) (by decide),
      fun hmem => absurd (isNameChar_of_isName h _ hmem) (by decide)⟩
  simp only [handedIn, List.forall_mem_append, List.forall_mem_map]
  exact ⟨⟨fun entry hentry => hname (hupdates.isName_of_mem entry hentry),
    hupdates.notMem_of_mem⟩, hschema⟩

variable (htext : hasOnlyReturnFeeds text = true)
  (hhanded : ∀ part ∈ handedIn updates schema, '\r' ∉ part ∧ '\n' ∉ part)

include htext hhanded

/-- A rewrite lays out its lines. -/
theorem laidOut_rewriteValues :
    LaidOut (if hasReturnFeed text then ['\r', '\n'] else ['\n'])
      (laidOutLines (rewrittenLines text updates schema))
      (rewriteValues (readValues text) updates schema) := by
  rw [rewriteValues_eq]
  apply laidOut_layOut
  exact fun line hline => (notMem_rewrittenLines_of_feedLines htext hhanded line hline).1

/-- The lines with content in a rewritten text: those of the text one by one, and those of the
updates of names that no line assigns. -/
theorem mem_laidOutLines_rewrittenLines {line : Text} (hne : line ≠ []) :
    line ∈ laidOutLines (rewrittenLines text updates schema) ↔
      (∃ old ∈ feedLines text, rewriteLine updates old = line) ∨
        ∃ entry ∈ addedUpdates text updates, line ∈ newLines schema entry := by
  have hcontent (lines : List Text) : line ∈ contentLines lines ↔ line ∈ lines := by
    simp [contentLines, hne]
  have hold (old : Text) (h : rewriteLine updates old = line) :
      old ∈ contentLines (feedLines text) ↔ old ∈ feedLines text := by
    have hfilled := isEmpty_rewriteLine updates old
    rw [h] at hfilled
    simp [contentLines, ← hfilled, hne]
  rw [← hcontent, contentLines_laidOutLines fun other hother =>
      (notMem_rewrittenLines_of_feedLines htext hhanded other hother).2,
    contentLines_rewrittenLines, contentLines_rewriteLines_eq, contentLines_flatMap_addedLines,
    List.mem_append, List.mem_map, List.mem_flatMap]
  exact or_congr_left (exists_congr fun old => and_congr_left (hold old))

variable (hupdates : TightUpdates updates) {lineEnd written : Text}
  (hwritten : LaidOut lineEnd (laidOutLines (rewrittenLines text updates schema)) written)
  (hend : IsLineEnding lineEnd)

include hupdates hwritten hend

/-- The lines of a rewrite assign every updated name. -/
theorem TightUpdates.assigns_of_laidOut {entry : Text × Text} (hentry : entry ∈ updates) :
    Assigns written entry.1 := by
  have hassigns (parts : AssignmentLine) (hname : parts.name = entry.1)
      (h : (∃ old ∈ feedLines text, rewriteLine updates old = parts.text) ∨
        ∃ entry ∈ addedUpdates text updates, parts.text ∈ newLines schema entry) :
      Assigns written entry.1 := by
    refine ⟨parts, ?_, hname⟩
    rw [hwritten.feedLines_eq hend]
    exact List.mem_append_left _
      ((mem_laidOutLines_rewrittenLines htext hhanded parts.text_ne_nil).mpr h)
  by_cases hold : Assigns text entry.1
  · obtain ⟨parts, hmem, hname⟩ := hold
    have hget : updates.get? parts.name = some entry.2 :=
      hname ▸ Table.get?_of_mem hupdates.nodup_keys hentry
    have hline := (rewriteLine_text parts hget).trans (parts.start_append entry.2)
    exact hassigns (parts.withValue (parts.value.takeWhile isGap ++ entry.2)) hname
      (Or.inl ⟨parts.text, hmem, hline⟩)
  · have hadded : entry ∈ addedUpdates text updates := by
      rw [addedUpdates_eq]
      simpa [hold] using hentry
    have hname := hupdates.isName_of_mem entry hentry
    refine hassigns (.ofEntry entry hname) rfl (Or.inr ⟨entry, hadded, ?_⟩)
    rw [AssignmentLine.text_ofEntry hname]
    exact List.mem_append_right _ (List.mem_singleton_self _)

/-- The lines of a rewrite, laid out with either line end, are not changed by the same updates, nor
by some of them. -/
theorem TightUpdates.rewriteValues_of_laidOut (hmore : more ⊆ updates)
    (schema' : List Definition) : rewriteValues (readValues written) more schema' = written := by
  apply hwritten.rewriteValues_eq_self hend
  · intro line hline
    by_cases hempty : line = []
    · rw [hempty]
      exact List.isEmpty_iff.mp (isEmpty_rewriteLine more [])
    · rcases (mem_laidOutLines_rewrittenLines htext hhanded hempty).mp hline with
        ⟨old, -, rfl⟩ | ⟨entry, hentry, hnew⟩
      · exact hupdates.rewriteLine_rewriteLine hmore old
      · exact hupdates.rewriteLine_newLines hmore (addedUpdates_subset text updates hentry) hnew
  · rw [addedUpdates_eq]
    apply List.filter_eq_nil_iff.mpr
    intro entry hentry
    simpa using hupdates.assigns_of_laidOut htext hhanded hwritten hend (hmore hentry)

end Rewriting

/-- Rewriting a text with the same updates again changes nothing, if carriage returns stand before
line feeds only. -/
theorem rewriteValues_idempotent {text : Text} {updates : Table Text Text}
    {schema : List Definition} (htext : hasOnlyReturnFeeds text = true)
    (hupdates : TightUpdates updates)
    (hschema : ∀ definition ∈ schema,
      '\r' ∉ definition.description ∧ '\n' ∉ definition.description) :
    let once := rewriteValues (readValues text) updates schema
    rewriteValues (readValues once) updates schema = once := by
  intro once
  have hhanded := hupdates.notMem_handedIn hschema
  exact hupdates.rewriteValues_of_laidOut htext hhanded (laidOut_rewriteValues htext hhanded)
    (isLineEnding_rewrite text) (List.Subset.refl updates) schema

/-- A name assigned twice behind different gaps, a value that ends a line for the reader alone, a new
name with a description and one without, in a file with carriage returns and runs of empty
lines. -/
theorem rewriteValues_idempotent_carriageReturns :
    let text : Text := "\r\nA=1\r\n\r\n\r\n\r\n# note\r\n  B =\t2 \r\nA =  3"
    let updates : Table Text Text := [("A", "4\x0cB=5"), ("C", "6 "), ("D", "")]
    let schema : List Definition := [{ name := "C", description := "the last" }]
    let once : Text :=
      "A=4\x0cB=5\r\n\r\n# note\r\n  B =\t2 \r\nA =  4\x0cB=5\r\n\r\n# the last\r\nC=6 \r\n\r\nD=\r\n"
    (hasOnlyReturnFeeds text = true ∧ TightUpdates updates ∧ ∀ definition ∈ schema,
      '\r' ∉ definition.description ∧ '\n' ∉ definition.description) ∧
      rewriteValues (readValues text) updates schema = once ∧
        rewriteValues (readValues once) updates schema = once := by
  intro text updates schema once
  have htext : hasOnlyReturnFeeds text = true := by decide +kernel
  have hupdates : TightUpdates updates := ⟨by decide, by decide, by decide, by decide⟩
  have hschema : ∀ definition ∈ schema,
      '\r' ∉ definition.description ∧ '\n' ∉ definition.description := by decide +kernel
  have honce : rewriteValues (readValues text) updates schema = once := by decide +kernel
  have htwice := rewriteValues_idempotent htext hupdates hschema
  rw [honce] at htwice
  exact ⟨⟨htext, hupdates, hschema⟩, honce, htwice⟩

end EnvFiles
