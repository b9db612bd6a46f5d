import EnvFiles.Proofs.Values.Rewrite

/-!
# Which line ends a rewrite writes

A rewrite ends its lines as the text that it is given does. Given a text whose lines end in
carriage returns with line feeds it writes such line ends; given the same text with line feeds for
all its line ends it finds the same lines and writes line feeds. Carriage returns come into a
rewritten text in no other way than from the names, values and descriptions that are handed in.
-/

namespace EnvFiles

/-- Lines without carriage returns and line feeds, each followed by the line end. -/
def EndsLines (lineEnd text : Text) : Prop :=
  ∃ lines : List Text, (∀ line ∈ lines, '\r' ∉ line ∧ '\n' ∉ line) ∧
    text = lines.flatMap fun line => line ++ lineEnd

/-- Lines that end in line feeds alone hold no carriage return. -/
theorem EndsLines.notMem {text : Text} (h : EndsLines ['\n'] text) : '\r' ∉ text := by
  obtain ⟨lines, hlines, rfl⟩ := h
  simp only [List.mem_flatMap, List.mem_append, not_exists, not_and, not_or]
  exact fun line hline => ⟨(hlines line hline).1, by decide⟩

/-- Lines that end in carriage returns with line feeds hold some, unless there are no lines. -/
theorem EndsLines.eq_nil_of_notMem {text : Text} (h : EndsLines ['\r', '\n'] text)
    (hnone : '\r' ∉ text) : text = [] := by
  obtain ⟨lines, -, rfl⟩ := h
  cases lines with
  | nil => rfl
  | cons line rest => simp at hnone

section Pieces

/-- A text with a separator after it is its pieces, each with a separator after it. -/
theorem flatMap_splitAt (text : Text) :
    ((Text.splitAt '\n' text).flatMap fun piece => piece ++ ['\n']) = text ++ ['\n'] := by
  induction text with
  | nil => rfl
  | cons c rest ih =>
    rw [Text.splitAt]
    split
    · rename_i hc
      rw [List.flatMap_cons, ih, hc]
      rfl
    · cases hsplit : Text.splitAt '\n' rest with
      | nil =>
        rw [hsplit] at ih
        simp at ih
      | cons piece pieces =>
        rw [hsplit, List.flatMap_cons] at ih
        rw [List.flatMap_cons, List.cons_append, List.cons_append, List.cons_append, ih]

/-- No piece holds the separator, and each comes from the text. -/
theorem notMem_of_mem_splitAt {text piece : Text} (h : piece ∈ Text.splitAt '\n' text) :
    '\n' ∉ piece ∧ piece ⊆ text := by
  induction text generalizing piece with
  | nil =>
    obtain rfl := List.mem_singleton.mp h
    exact ⟨List.not_mem_nil, List.Subset.refl _⟩
  | cons c rest ih =>
    rw [Text.splitAt] at h
    split at h
    · rcases List.mem_cons.mp h with rfl | h
      · exact ⟨List.not_mem_nil, List.nil_subset _⟩
      · exact ⟨(ih h).1, List.subset_cons_of_subset _ (ih h).2⟩
    · rename_i hc
      cases hsplit : Text.splitAt '\n' rest with
      | nil =>
        rw [hsplit] at h
        obtain rfl := List.mem_singleton.mp h
        exact ⟨fun hmem => hc (List.mem_singleton.mp hmem).symm,
          List.cons_subset_cons c (List.nil_subset _)⟩
      | cons first others =>
        rw [hsplit] at h ih
        rcases List.mem_cons.mp h with rfl | h
        · obtain ⟨hfeed, hsubset⟩ := ih (List.mem_cons_self ..)
          exact ⟨List.not_mem_cons_of_ne_of_not_mem (Ne.symm hc) hfeed,
            List.cons_subset_cons c hsubset⟩
        · obtain ⟨hfeed, hsubset⟩ := ih (List.mem_cons_of_mem _ h)
          exact ⟨hfeed, List.subset_cons_of_subset _ hsubset⟩

/-- Line feeds are written in the pieces' order. -/
theorem writeFeeds_append (lineEnd first second : Text) :
    writeFeeds lineEnd (first ++ second) = writeFeeds lineEnd first ++ writeFeeds lineEnd second :=
  List.flatMap_append

/-- A text without line feeds is written as it is. -/
theorem writeFeeds_of_notMem {lineEnd text : Text} (h : '\n' ∉ text) :
    writeFeeds lineEnd text = text := by
  induction text with
  | nil => rfl
  | cons c rest ih =>
    rw [List.mem_cons, not_or] at h
    rw [writeFeeds, List.flatMap_cons, if_neg (Ne.symm h.1), List.singleton_append]
    exact congrArg _ (ih h.2)

/-- A text with a line feed after it is written as its pieces with line ends. -/
theorem writeFeeds_concat (lineEnd text : Text) :
    writeFeeds lineEnd (text ++ ['\n']) =
      (Text.splitAt '\n' text).flatMap fun piece => piece ++ lineEnd := by
  rw [← flatMap_splitAt]
  have hpieces (pieces : List Text) (hfeed : ∀ piece ∈ pieces, '\n' ∉ piece) :
      writeFeeds lineEnd (pieces.flatMap fun piece => piece ++ ['\n']) =
        pieces.flatMap fun piece => piece ++ lineEnd := by
    induction pieces with
    | nil => rfl
    | cons piece rest ih =>
      obtain ⟨hpiece, hrest⟩ := List.forall_mem_cons.mp hfeed
      have hone : writeFeeds lineEnd ['\n'] = lineEnd := List.append_nil _
      rw [List.flatMap_cons, writeFeeds_append, writeFeeds_append, writeFeeds_of_notMem hpiece,
        hone, ih hrest, List.flatMap_cons]
  exact hpieces _ fun piece hpiece => (notMem_of_mem_splitAt hpiece).1

/-- The lines that stand in what is laid out. -/
def laidOutLines (lines : List Text) : List Text :=
  Text.splitAt '\n' (trimFeeds (limitFeeds 0 (Text.join ['\n'] lines)))

/-- What is laid out is its lines with the given line end. -/
theorem layOut_eq_flatMap (lineEnd : Text) (lines : List Text) :
    layOut lineEnd lines = (laidOutLines lines).flatMap fun line => line ++ lineEnd :=
  writeFeeds_concat lineEnd _

/-- Lines without carriage returns are laid out without them. -/
theorem notMem_laidOutLines {lines : List Text} (h : ∀ line ∈ lines, '\r' ∉ line) :
    ∀ line ∈ laidOutLines lines, '\r' ∉ line ∧ '\n' ∉ line := by
  intro piece hpiece
  obtain ⟨hfeed, hsubset⟩ := notMem_of_mem_splitAt hpiece
  refine ⟨fun hreturn => ?_, hfeed⟩
  rcases mem_join (limitFeeds_subset _ _ (trimFeeds_subset _ (hsubset hreturn))) with
    hfeed | ⟨line, hline, hmem⟩
  · exact absurd hfeed (by decide)
  · exact h line hline hmem

end Pieces

section Ended

/-- A line that goes on to a line end. -/
theorem unifyNewlines_append {line lineEnd : Text} (hend : IsLineEnding lineEnd) (h : '\r' ∉ line)
    (rest : Text) :
    Text.unifyNewlines (line ++ (lineEnd ++ rest)) = line ++ '\n' :: Text.unifyNewlines rest := by
  induction line with
  | nil =>
    rcases hend with rfl | rfl <;> rfl
  | cons c line ih =>
    rw [List.mem_cons, not_or] at h
    rw [List.cons_append, Text.unifyNewlines, ih h.2, List.cons_append]
    · exact fun _ hc => absurd hc.symm h.1
    · exact Ne.symm h.1

/-- A carriage return before a line feed is found behind any text. -/
theorem hasReturnFeed_append (line rest : Text) :
    hasReturnFeed (line ++ '\r' :: '\n' :: rest) = true := by
  induction line with
  | nil => rfl
  | cons c line ih =>
    rw [List.cons_append, hasReturnFeed.eq_def]
    split
    · contradiction
    · rfl
    · rename_i heq
      rw [← (List.cons.inj heq).2]
      exact ih

/-- Without carriage returns there is none before a line feed. -/
theorem hasReturnFeed_of_notMem {text : Text} (h : '\r' ∉ text) : hasReturnFeed text = false := by
  fun_induction hasReturnFeed text with
  | case1 => rfl
  | case2 rest => exact absurd (List.mem_cons_self ..) h
  | case3 c rest _ ih => exact ih fun hmem => h (List.mem_cons_of_mem _ hmem)

/-- A line without carriage returns stays as it is, and loses one put behind it. -/
theorem dropReturn_of_notMem {line : Text} (h : '\r' ∉ line) :
    dropReturn line = line ∧ dropReturn (line ++ ['\r']) = line := by
  induction line with
  | nil => exact ⟨rfl, rfl⟩
  | cons c line ih =>
    rw [List.mem_cons, not_or] at h
    obtain ⟨hkept, hdropped⟩ := ih h.2
    have hc : c ≠ '\r' := Ne.symm h.1
    constructor
    · rw [dropReturn, hkept]
      exact fun heq _ => hc heq
    · rw [List.cons_append, dropReturn, hdropped]
      exact fun heq _ => hc heq

/-- A piece before a separator is the first of a text. -/
theorem splitAt_append {piece : Text} (h : '\n' ∉ piece) (rest : Text) :
    Text.splitAt '\n' (piece ++ '\n' :: rest) = piece :: Text.splitAt '\n' rest := by
  induction piece with
  | nil => rfl
  | cons c piece ih =>
    rw [List.mem_cons, not_or] at h
    rw [List.cons_append, Text.splitAt, if_neg (Ne.symm h.1), ih h.2]

variable {lines : List Text} (hlines : ∀ line ∈ lines, '\r' ∉ line ∧ '\n' ∉ line)

include hlines

/-- Making all line ends line feeds. -/
theorem unifyNewlines_flatMap {lineEnd : Text} (hend : IsLineEnding lineEnd) :
    Text.unifyNewlines (lines.flatMap fun line => line ++ lineEnd) =
      lines.flatMap fun line => line ++ ['\n'] := by
  induction lines with
  | nil => rfl
  | cons line rest ih =>
    obtain ⟨hline, hrest⟩ := List.forall_mem_cons.mp hlines
    rw [List.flatMap_cons, List.flatMap_cons, List.append_assoc, List.append_assoc,
      unifyNewlines_append hend hline.1, ih hrest, List.singleton_append]

/-- A rewrite starts from the lines, whichever of the two line ends they have. -/
theorem rewriteLines_flatMap {lineEnd : Text} (hend : IsLineEnding lineEnd) :
    rewriteLines (lines.flatMap fun line => line ++ lineEnd) =
      if lines.isEmpty then [] else lines ++ [[]] := by
  obtain ⟨mark, hmark, hdrop⟩ : ∃ mark : Text, lineEnd = mark ++ ['\n'] ∧
      ∀ line ∈ lines, '\n' ∉ line ++ mark ∧ dropReturn (line ++ mark) = line := by
    rcases hend with rfl | rfl
    · refine ⟨[], rfl, fun line hline => ?_⟩
      rw [List.append_nil]
      exact ⟨(hlines line hline).2, (dropReturn_of_notMem (hlines line hline).1).1⟩
    · refine ⟨['\r'], rfl, fun line hline => ⟨?_, (dropReturn_of_notMem (hlines line hline).1).2⟩⟩
      simpa using (hlines line hline).2
  have hsplit : (Text.splitAt '\n' (lines.flatMap fun line => line ++ lineEnd)).map dropReturn =
      lines ++ [[]] := by
    clear hlines
    induction lines with
    | nil => rfl
    | cons line rest ih =>
      obtain ⟨⟨hfeed, hline⟩, hrest⟩ := List.forall_mem_cons.mp hdrop
      rw [List.flatMap_cons, hmark, ← List.append_assoc line, List.append_assoc (line ++ mark),
        List.singleton_append, splitAt_append hfeed, List.map_cons, hline, ← hmark, ih hrest]
      rfl
  cases lines with
  | nil => rfl
  | cons line rest =>
    rw [rewriteLines, hsplit, if_neg, if_neg]
    · simp
    · rw [List.isEmpty_iff, List.flatMap_cons]
      rcases hend with rfl | rfl <;> simp

end Ended

section Rewriting

variable {text : Text} {updates : Table Text Text} {schema : List Definition}

/-- The texts from which a rewrite takes what it writes anew. -/
def handedIn (updates : Table Text Text) (schema : List Definition) : List Text :=
  updates.map Prod.fst ++ updates.map Prod.snd ++ schema.map Definition.description

/-- The name and the value of an update are handed in. -/
theorem mem_handedIn_of_update {entry : Text × Text} (h : entry ∈ updates) :
    entry.1 ∈ handedIn updates schema ∧ entry.2 ∈ handedIn updates schema :=
  ⟨List.mem_append_left _ (List.mem_append_left _ (List.mem_map_of_mem h)),
    List.mem_append_left _ (List.mem_append_right _ (List.mem_map_of_mem h))⟩

/-- A description that is written is handed in. -/
theorem mem_handedIn_descriptionOf {name : Text} {c : Char} (h : c ∈ descriptionOf schema name) :
    descriptionOf schema name ∈ handedIn updates schema := by
  rw [descriptionOf] at h ⊢
  cases hfind : schema.reverse.find? fun definition => definition.name == name with
  | none =>
    rw [hfind] at h
    exact absurd h List.not_mem_nil
  | some definition =>
    have hmem := List.mem_reverse.mp (List.mem_of_find?_eq_some hfind)
    exact List.mem_append_right _ (List.mem_map_of_mem hmem)

/-- What a rewrite writes comes from the lines of the text and from what is handed in, but for the
number sign and the space before a description and the equals sign behind a name. -/
theorem mem_rewrittenLines {line : Text} {c : Char} (hc : c ∉ ['#', ' ', '='])
    (hline : line ∈ rewrittenLines text updates schema) (hmem : c ∈ line) :
    (∃ old ∈ rewriteLines text, c ∈ old) ∨ ∃ part ∈ handedIn updates schema, c ∈ part := by
  simp only [List.mem_cons, List.not_mem_nil, not_or, or_false] at hc
  have hhanded {part : Text} (hpart : part ∈ handedIn updates schema) (hmem : c ∈ part) :
      (∃ old ∈ rewriteLines text, c ∈ old) ∨ ∃ part ∈ handedIn updates schema, c ∈ part :=
    Or.inr ⟨part, hpart, hmem⟩
  rcases List.mem_append.mp hline with hline | hline
  · rcases List.mem_append.mp hline with hline | hline
    · obtain ⟨old, hold, rfl⟩ := List.mem_map.mp hline
      rcases rewriteLine_cases updates old with ⟨heq, -⟩ | ⟨parts, value, rfl, hget, heq⟩
      · exact Or.inl ⟨old, hold, heq ▸ hmem⟩
      · rw [heq, List.mem_append] at hmem
        rcases hmem with hmem | hmem
        · exact Or.inl ⟨_, hold, parts.start_isPrefix.subset hmem⟩
        · exact hhanded (mem_handedIn_of_update (Table.mem_of_get? hget)).2 hmem
    · rw [eq_nil_of_mem_separator hline] at hmem
      exact absurd hmem List.not_mem_nil
  · obtain ⟨entry, hentry, hline⟩ := List.mem_flatMap.mp hline
    have hhandedIn : entry.1 ∈ handedIn updates schema ∧ entry.2 ∈ handedIn updates schema :=
      mem_handedIn_of_update (addedUpdates_subset text updates hentry)
    obtain ⟨hname, hvalue⟩ := hhandedIn
    rw [addedLines] at hline
    rcases List.mem_append.mp hline with hline | hline
    · split at hline
      · exact absurd hline List.not_mem_nil
      · rw [List.mem_singleton.mp hline, List.mem_append] at hmem
        have hdescription := hmem.resolve_left (by simp [hc])
        exact hhanded (mem_handedIn_descriptionOf hdescription) hdescription
    · rcases List.mem_cons.mp hline with rfl | hline
      · rw [List.mem_append, List.mem_append] at hmem
        rcases hmem with (hmem | hmem) | hmem
        · exact hhanded hname hmem
        · exact absurd hmem (by simp [hc])
        · exact hhanded hvalue hmem
      · rw [List.mem_singleton.mp hline] at hmem
        exact absurd hmem List.not_mem_nil

/-- The lines of a rewrite of ended lines hold carriage returns only if some are handed in. -/
theorem notMem_rewrittenLines {lineEnd : Text} (hend : IsLineEnding lineEnd)
    (htext : EndsLines lineEnd text) (hhanded : ∀ part ∈ handedIn updates schema, '\r' ∉ part) :
    ∀ line ∈ rewrittenLines text updates schema, '\r' ∉ line := by
  intro line hline hmem
  obtain ⟨lines, hlines, rfl⟩ := htext
  rcases mem_rewrittenLines (by decide) hline hmem with
    ⟨old, hold, hreturn⟩ | ⟨part, hpart, hreturn⟩
  · rw [rewriteLines_flatMap hlines hend] at hold
    split at hold
    · exact absurd hold List.not_mem_nil
    · rcases List.mem_append.mp hold with hold | hold
      · exact (hlines old hold).1 hreturn
      · rw [List.mem_singleton.mp hold] at hreturn
        exact absurd hreturn List.not_mem_nil
  · exact hhanded part hpart hreturn

/-- A rewrite finds out how the lines of a text end, unless there are no lines. -/
theorem EndsLines.found_eq {lineEnd : Text} (h : EndsLines lineEnd text)
    (hend : IsLineEnding lineEnd) (hne : lineEnd = ['\n'] ∨ text ≠ []) :
    (if hasReturnFeed text then ['\r', '\n'] else ['\n']) = lineEnd := by
  obtain ⟨lines, hlines, rfl⟩ := h
  rcases hend with rfl | rfl
  · rw [hasReturnFeed_of_notMem (EndsLines.notMem ⟨lines, hlines, rfl⟩)]
    rfl
  · cases lines with
    | nil => exact absurd rfl (hne.resolve_left (by decide))
    | cons line rest =>
      rw [List.flatMap_cons, List.append_assoc]
      exact if_pos (hasReturnFeed_append line _)

/-- Given ended lines, a rewrite ends its lines in the same way. -/
theorem endsLines_rewriteValues {lineEnd : Text} (hend : IsLineEnding lineEnd)
    (htext : EndsLines lineEnd text) (hne : lineEnd = ['\n'] ∨ text ≠ [])
    (hhanded : ∀ part ∈ handedIn updates schema, '\r' ∉ part) :
    EndsLines lineEnd (rewriteValues (readValues text) updates schema) := by
  rw [rewriteValues_eq, htext.found_eq hend hne, layOut_eq_flatMap]
  exact ⟨_, notMem_laidOutLines (notMem_rewrittenLines hend htext hhanded), rfl⟩

/-- A rewrite writes a line end at least. -/
theorem rewriteValues_ne_nil (text : Text) (updates : Table Text Text)
    (schema : List Definition) : rewriteValues (readValues text) updates schema ≠ [] := by
  rw [rewriteValues_eq, layOut]
  change writeFeeds _ (_ ++ ['\n']) ≠ []
  rw [writeFeeds_append]
  rcases isLineEnding_rewrite text with heq | heq <;> rw [heq] <;> simp [writeFeeds]

/-- Ended lines with line feeds for their ends. -/
theorem EndsLines.unifyNewlines (h : EndsLines ['\r', '\n'] text) :
    EndsLines ['\n'] (Text.unifyNewlines text) := by
  obtain ⟨lines, hlines, rfl⟩ := h
  exact ⟨lines, hlines, unifyNewlines_flatMap hlines (Or.inr rfl)⟩

/-- A rewrite finds the same lines with line feeds for all line ends. -/
theorem rewriteLines_unifyNewlines (h : EndsLines ['\r', '\n'] text) :
    rewriteLines (Text.unifyNewlines text) = rewriteLines text := by
  obtain ⟨lines, hlines, rfl⟩ := h
  rw [unifyNewlines_flatMap hlines (Or.inr rfl), rewriteLines_flatMap hlines (Or.inl rfl),
    rewriteLines_flatMap hlines (Or.inr rfl)]

/-- What a rewrite makes of the text with line feeds is what it makes of the text itself, with line
feeds. -/
theorem rewriteValues_unifyNewlines (htext : EndsLines ['\r', '\n'] text)
    (hhanded : ∀ part ∈ handedIn updates schema, '\r' ∉ part) :
    rewriteValues (readValues (Text.unifyNewlines text)) updates schema =
      Text.unifyNewlines (rewriteValues (readValues text) updates schema) := by
  have hlines : rewrittenLines (Text.unifyNewlines text) updates schema =
      rewrittenLines text updates schema := by
    rw [rewrittenLines, rewrittenLines, addedUpdates, addedUpdates, assignedNames, assignedNames,
      rewriteLines_unifyNewlines htext]
  have hnone := hasReturnFeed_of_notMem htext.unifyNewlines.notMem
  have hlaidOut := notMem_laidOutLines (notMem_rewrittenLines (Or.inr rfl) htext hhanded)
  rw [rewriteValues_eq, rewriteValues_eq, hlines, hnone, layOut_eq_flatMap, layOut_eq_flatMap,
    unifyNewlines_flatMap hlaidOut (isLineEnding_rewrite text)]
  rfl

end Rewriting
end EnvFiles
