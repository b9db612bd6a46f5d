import EnvFiles.Proofs.Values.Spacing

/-!
# What a rewrite keeps

A rewrite takes the lines with content one by one. An assignment of an updated name keeps
everything up to the spaces and tabs after its equals sign, every other line stays as it is, and
the names that no line assigns follow in the order of the updates. Empty lines are set anew: one at
most between two lines and none at the ends, every line being ended in the way the text ends
lines. A line is what stands between line feeds here, whatever other characters may end lines for
a reader.
-/

namespace EnvFiles

/-- The pieces of a text between line feeds, each without the carriage return at its end. -/
def feedLines (text : Text) : List Text := (Text.splitAt '\n' text).map dropReturn

/-- Whether a line feed follows every carriage return. -/
def hasOnlyReturnFeeds : Text → Bool
  | [] => true
  | c :: rest => (c != '\r' || rest.head? == some '\n') && hasOnlyReturnFeeds rest

/-- Some line of the text assigns a value to the name. -/
def Assigns (text name : Text) : Prop :=
  ∃ parts : AssignmentLine, parts.text ∈ feedLines text ∧ parts.name = name

/-- What a rewrite may make of a line. -/
inductive Rewritten (updates : Table Text Text) : Text → Text → Prop
  /-- An assignment of an updated name gets its new value. -/
  | assigned (parts : AssignmentLine) {value : Text} (h : updates.get? parts.name = some value) :
      Rewritten updates parts.text (parts.start ++ value)
  /-- Any other line stays as it is. -/
  | kept {line : Text} (h : ∀ parts : AssignmentLine, parts.text = line →
      updates.get? parts.name = none) : Rewritten updates line line

/-- The lines for a new name: its description, if it has one, and its assignment. -/
def newLines (schema : List Definition) (entry : Text × Text) : List Text :=
  let description := descriptionOf schema entry.1
  (if description = [] then [] else [['#', ' '] ++ description]) ++ [entry.1 ++ ['='] ++ entry.2]

/-- A text that is made of the lines, each with the line end behind it, whose empty lines separate
others. -/
structure LaidOut (lineEnd : Text) (lines : List Text) (text : Text) : Prop where
  eq_flatMap : text = lines.flatMap fun line => line ++ lineEnd
  notMem_of_mem : ∀ line ∈ lines, '\r' ∉ line ∧ '\n' ∉ line
  spaced : Spaced lines
  ends : lines = [[]] ∨ lines ≠ [] ∧ lines.head? ≠ some [] ∧ lines.getLast? ≠ some []

section Pieces

variable {text : Text}

/-- Without the carriage return at its end, a piece is a beginning of it. -/
theorem dropReturn_isPrefix (piece : Text) : dropReturn piece <+: piece := by
  fun_induction dropReturn piece with
  | case1 => exact List.prefix_refl _
  | case2 => exact List.nil_prefix
  | case3 c rest _ ih => exact List.prefix_cons_inj c |>.mpr ih

/-- A carriage return that is not the whole piece stays where it is, and so does any other
character. -/
theorem dropReturn_cons {c : Char} {piece : Text} (h : c ≠ '\r' ∨ piece ≠ []) :
    dropReturn (c :: piece) = c :: dropReturn piece := by
  rw [dropReturn]
  intro hc hpiece
  exact h.elim (· hc) (· hpiece)

/-- Carriage returns that stand before line feeds are in no line. -/
theorem notMem_feedLines (h : hasOnlyReturnFeeds text = true) :
    ∀ line ∈ feedLines text, '\r' ∉ line ∧ '\n' ∉ line := by
  have hreturn : ∀ piece ∈ Text.splitAt '\n' text, '\r' ∉ dropReturn piece := by
    induction text with
    | nil => simp [Text.splitAt, dropReturn]
    | cons c rest ih =>
      simp only [hasOnlyReturnFeeds, Bool.and_eq_true, Bool.or_eq_true, bne_iff_ne, beq_iff_eq] at h
      have hrest := ih h.2
      rw [Text.splitAt]
      split
      · simpa [dropReturn] using hrest
      · cases hsplit : Text.splitAt '\n' rest with
        | nil => exact absurd hsplit (splitAt_ne_nil rest)
        | cons piece pieces =>
          rw [hsplit, List.forall_mem_cons] at hrest
          apply List.forall_mem_cons.mpr ⟨?_, hrest.2⟩
          by_cases hc : c = '\r'
          · obtain ⟨after, rfl⟩ := List.head?_eq_some_iff.mp (h.1.resolve_left (· hc))
            rw [Text.splitAt, if_pos rfl] at hsplit
            obtain ⟨rfl, -⟩ := List.cons.inj hsplit
            rw [hc]
            exact List.not_mem_nil
          · rw [dropReturn_cons (Or.inl hc)]
            exact List.not_mem_cons_of_ne_of_not_mem (Ne.symm hc) hrest.1
  intro line hline
  obtain ⟨piece, hpiece, rfl⟩ := List.mem_map.mp hline
  refine ⟨hreturn piece hpiece, fun hfeed => ?_⟩
  exact (notMem_of_mem_splitAt hpiece).1 ((dropReturn_isPrefix piece).subset hfeed)

/-- A rewrite starts from the lines of the text, empty ones aside. -/
theorem contentLines_rewriteLines_eq (text : Text) :
    contentLines (rewriteLines text) = contentLines (feedLines text) := by
  cases text <;> rfl

/-- The lines that a text is laid out from are found again, with nothing behind the last line
end. -/
theorem LaidOut.feedLines_eq {lineEnd : Text} {lines : List Text} (h : LaidOut lineEnd lines text)
    (hend : IsLineEnding lineEnd) : feedLines text = lines ++ [[]] := by
  have hne : lines ≠ [] := h.ends.elim (fun hone => by simp [hone]) And.left
  have hlines := rewriteLines_flatMap h.notMem_of_mem hend
  rw [← h.eq_flatMap, if_neg (by simpa using hne)] at hlines
  rw [← hlines, rewriteLines, if_neg]
  · rfl
  · intro hempty
    rw [rewriteLines, if_pos hempty] at hlines
    simp at hlines

end Pieces

section Assigned

variable {text : Text}

/-- A line that assigns a value is not empty. -/
theorem AssignmentLine.text_ne_nil (line : AssignmentLine) : line.text ≠ [] := by
  simp [AssignmentLine.text]

/-- A rewriter finds the names assigned that lines of the text assign. -/
theorem mem_assignedNames_iff_assigns {name : Text} :
    name ∈ assignedNames text ↔ Assigns text name := by
  have hlines (parts : AssignmentLine) :
      parts.text ∈ rewriteLines text ↔ parts.text ∈ feedLines text := by
    have hcontent := congrArg (parts.text ∈ ·) (contentLines_rewriteLines_eq text)
    simpa [contentLines, parts.text_ne_nil] using hcontent
  constructor
  · intro h
    obtain ⟨line, hline, hname⟩ := List.mem_filterMap.mp h
    obtain ⟨found, hfound, rfl⟩ := Option.map_eq_some_iff.mp hname
    obtain ⟨parts, rfl, hparts, -⟩ := exists_of_assignedPart? hfound
    exact ⟨parts, (hlines parts).mp hline, hparts⟩
  · rintro ⟨parts, hline, rfl⟩
    apply List.mem_filterMap.mpr
    exact ⟨parts.text, (hlines parts).mpr hline, by simp [parts.assignedPart?_text]⟩

instance (text name : Text) : Decidable (Assigns text name) :=
  decidable_of_iff ((assignedNames text).contains name = true)
    (List.contains_iff_mem.trans mem_assignedNames_iff_assigns)

/-- What is added are the updates of names that no line assigns. -/
theorem addedUpdates_eq (text : Text) (updates : Table Text Text) :
    addedUpdates text updates = updates.filter fun entry => ¬ Assigns text entry.1 := by
  apply List.filter_congr
  intro entry _
  simp [← mem_assignedNames_iff_assigns]

end Assigned

section Rewriting

variable {text : Text} {updates : Table Text Text} {schema : List Definition}

/-- A rewrite makes of a line what it may. -/
theorem rewritten_rewriteLine (updates : Table Text Text) (line : Text) :
    Rewritten updates line (rewriteLine updates line) := by
  rcases rewriteLine_cases updates line with ⟨heq, hnone⟩ | ⟨parts, value, rfl, hget, heq⟩
  · rw [heq]
    exact Rewritten.kept hnone
  · rw [heq]
    exact Rewritten.assigned parts hget

/-- It does so line by line. -/
theorem forall₂_rewritten (updates : Table Text Text) (lines : List Text) :
    List.Forall₂ (Rewritten updates) lines (lines.map (rewriteLine updates)) := by
  induction lines with
  | nil => exact List.Forall₂.nil
  | cons line rest ih => exact List.Forall₂.cons (rewritten_rewriteLine updates line) ih

/-- The lines that are added for new names, empty ones aside. -/
theorem contentLines_flatMap_addedLines (schema : List Definition) (entries : Table Text Text) :
    contentLines (entries.flatMap (addedLines schema)) = entries.flatMap (newLines schema) := by
  induction entries with
  | nil => rfl
  | cons entry rest ih =>
    have hentry : contentLines (addedLines schema entry) = newLines schema entry := by
      rw [addedLines, newLines]
      by_cases hdescription : descriptionOf schema entry.1 = [] <;>
        simp [contentLines, hdescription]
    rw [List.flatMap_cons, List.flatMap_cons, ← hentry, ← ih]
    exact List.filter_append ..

/-- The lines of a rewrite hold no carriage returns and line feeds, if nothing that is handed in
holds any. -/
theorem notMem_rewrittenLines_of_feedLines (htext : hasOnlyReturnFeeds text = true)
    (hhanded : ∀ part ∈ handedIn updates schema, '\r' ∉ part ∧ '\n' ∉ part) :
    ∀ line ∈ rewrittenLines text updates schema, '\r' ∉ line ∧ '\n' ∉ line := by
  have hold : ∀ line ∈ rewriteLines text, '\r' ∉ line ∧ '\n' ∉ line := by
    intro line hline
    rw [rewriteLines] at hline
    split at hline
    · exact absurd hline List.not_mem_nil
    · exact notMem_feedLines htext line hline
  intro line hline
  constructor
  · intro hmem
    rcases mem_rewrittenLines (by decide) hline hmem with ⟨old, hmem, hc⟩ | ⟨part, hmem, hc⟩
    · exact (hold old hmem).1 hc
    · exact (hhanded part hmem).1 hc
  · intro hmem
    rcases mem_rewrittenLines (by decide) hline hmem with ⟨old, hmem, hc⟩ | ⟨part, hmem, hc⟩
    · exact (hold old hmem).2 hc
    · exact (hhanded part hmem).2 hc

/-- A rewrite lays out the lines with content of the text one by one, changed in the values of
updated names only, and behind them the updates of names that no line assigns. -/
theorem rewriteValues_keepsLines (htext : hasOnlyReturnFeeds text = true)
    (hhanded : ∀ part ∈ handedIn updates schema, '\r' ∉ part ∧ '\n' ∉ part) :
    let after := rewriteValues (readValues text) updates schema
    let lineEnd : Text := if hasReturnFeed text then ['\r', '\n'] else ['\n']
    ∃ lines kept, LaidOut lineEnd lines after ∧ feedLines after = lines ++ [[]] ∧
      contentLines lines =
        kept ++ (updates.filter fun entry => ¬ Assigns text entry.1).flatMap (newLines schema) ∧
      List.Forall₂ (Rewritten updates) (contentLines (feedLines text)) kept := by
  intro after lineEnd
  have hlines := notMem_rewrittenLines_of_feedLines htext hhanded
  have hlaidOut : LaidOut lineEnd (laidOutLines (rewrittenLines text updates schema)) after :=
    { eq_flatMap := (rewriteValues_eq text updates schema).trans (layOut_eq_flatMap lineEnd _)
      notMem_of_mem := notMem_laidOutLines fun line hline => (hlines line hline).1
      spaced := spaced_laidOutLines _
      ends := laidOutLines_ends _ }
  have hcontent : contentLines (laidOutLines (rewrittenLines text updates schema)) =
      (contentLines (feedLines text)).map (rewriteLine updates) ++
        (updates.filter fun entry => ¬ Assigns text entry.1).flatMap (newLines schema) := by
    rw [contentLines_laidOutLines fun line hline => (hlines line hline).2,
      contentLines_rewrittenLines, contentLines_rewriteLines_eq, contentLines_flatMap_addedLines,
      addedUpdates_eq]
  exact ⟨_, _, hlaidOut, hlaidOut.feedLines_eq (isLineEnding_rewrite text), hcontent,
    forall₂_rewritten updates _⟩

/-- A name assigned twice, an assignment that is not updated, empty lines and a new name with a
description, in a file with carriage returns. -/
theorem rewriteValues_keepsLines_carriageReturns :
    let text : Text := "\r\nA=1\r\n\r\n\r\n\r\n# note\r\n  B =\t2 \r\nA =  3"
    let updates : Table Text Text := [("A", "4"), ("C", "5")]
    let schema : List Definition := [{ name := "C", description := "the last" }]
    let after : Text :=
      "A=4\r\n\r\n# note\r\n  B =\t2 \r\nA =  4\r\n\r\n# the last\r\nC=5\r\n"
    (hasOnlyReturnFeeds text = true ∧
        ∀ part ∈ handedIn updates schema, '\r' ∉ part ∧ '\n' ∉ part) ∧
      rewriteValues (readValues text) updates schema = after ∧
      ∃ lines kept, LaidOut ['\r', '\n'] lines after ∧ feedLines after = lines ++ [[]] ∧
        contentLines lines = kept ++ (["# the last", "C=5"] : List Text) ∧
        List.Forall₂ (Rewritten updates) (contentLines (feedLines text)) kept := by
  intro text updates schema after
  have htext : hasOnlyReturnFeeds text = true := by decide +kernel
  have hhanded : ∀ part ∈ handedIn updates schema, '\r' ∉ part ∧ '\n' ∉ part := by
    decide +kernel
  have hafter : rewriteValues (readValues text) updates schema = after := by decide +kernel
  have hnew : (updates.filter fun entry => ¬ Assigns text entry.1).flatMap (newLines schema) =
      (["# the last", "C=5"] : List Text) := by decide +kernel
  obtain ⟨lines, kept, hlaidOut, hlines, hcontent, hkept⟩ :=
    rewriteValues_keepsLines htext hhanded
  rw [hafter] at hlaidOut hlines
  rw [hnew] at hcontent
  exact ⟨⟨htext, hhanded⟩, hafter, lines, kept, hlaidOut, hlines, hcontent, hkept⟩

end Rewriting
end EnvFiles
