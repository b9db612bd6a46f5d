import EnvFiles.Proofs.Text.Lines
import EnvFiles.Values.Rewrite
import Mathlib.Data.List.TakeWhile

/-!
# Laying lines out

Between the line ends of a text stand its lines, empty ones aside. So the lines of two texts with
a line end between them are those of the first and those of the second, and neither cutting
carriage returns off, nor putting line feeds between texts, nor writing line feeds in another way,
nor dropping some of them in a run changes any. Laying texts out keeps the lines of each of them,
whatever line ends they hold, and what a rewrite starts from has the lines of the file. Texts of
one line each are laid out with plain line ends.
-/

namespace EnvFiles

/-- The lines that are not empty. -/
def contentLines (lines : List Text) : List Text := lines.filter fun line => !line.isEmpty

/-- The parts of a text between runs of line ends, the first of them going on from a text that
stands before. -/
def partsBetweenEnds (before : Text) : Text → List Text
  | [] => Text.continueLine before []
  | c :: rest =>
    if Text.isLineEnd c then Text.continueLine before [] ++ partsBetweenEnds [] rest
    else partsBetweenEnds (before ++ [c]) rest

/-- A text before the end of a line is the line, if it is not empty. -/
theorem continueLine_eq_contentLines (line : Text) :
    Text.continueLine line [] = contentLines [line] := by
  cases line <;> rfl

section Parts

variable {c : Char}

/-- A line end ends what stands before. -/
theorem partsBetweenEnds_cons_end (hc : Text.isLineEnd c = true) (before rest : Text) :
    partsBetweenEnds before (c :: rest) =
      Text.continueLine before [] ++ partsBetweenEnds [] rest := if_pos hc

/-- Another character goes on from what stands before. -/
theorem partsBetweenEnds_cons (hc : Text.isLineEnd c = false) (before rest : Text) :
    partsBetweenEnds before (c :: rest) = partsBetweenEnds (before ++ [c]) rest :=
  if_neg (by simp [hc])

/-- The parts around a line end. -/
theorem partsBetweenEnds_append (hc : Text.isLineEnd c = true) (before first rest : Text) :
    partsBetweenEnds before (first ++ c :: rest) =
      partsBetweenEnds before first ++ partsBetweenEnds [] rest := by
  induction first generalizing before with
  | nil => exact partsBetweenEnds_cons_end hc before rest
  | cons d first ih =>
    cases hd : Text.isLineEnd d with
    | true =>
      rw [List.cons_append, partsBetweenEnds_cons_end hd, partsBetweenEnds_cons_end hd, ih,
        List.append_assoc]
    | false => rw [List.cons_append, partsBetweenEnds_cons hd, partsBetweenEnds_cons hd, ih]

/-- A line end at the end makes no difference. -/
theorem partsBetweenEnds_concat (hc : Text.isLineEnd c = true) (before text : Text) :
    partsBetweenEnds before (text ++ [c]) = partsBetweenEnds before text := by
  rw [partsBetweenEnds_append hc]
  exact List.append_nil _

/-- One line belongs to what stands before. -/
theorem partsBetweenEnds_of_isOneLine {line : Text} (h : Text.isOneLine line = true)
    (before : Text) : partsBetweenEnds before line = contentLines [before ++ line] := by
  induction line generalizing before with
  | nil => rw [partsBetweenEnds, continueLine_eq_contentLines, List.append_nil]
  | cons d line ih =>
    rw [Text.isOneLine_cons, Bool.and_eq_true, Bool.not_eq_true'] at h
    rw [partsBetweenEnds_cons h.1, ih h.2, List.append_assoc, List.singleton_append]

/-- A line end makes an empty line of its own. A carriage return may take a line feed along, which
would have made an empty line too. -/
theorem exists_lines_cons (hc : Text.isLineEnd c = true) (rest : Text) :
    ∃ more, Text.lines (c :: rest) = [] :: more ∧
      contentLines more = contentLines (Text.lines rest) := by
  by_cases hpair : c = '\r' ∧ ∃ after, rest = '\n' :: after
  · obtain ⟨rfl, after, rfl⟩ := hpair
    exact ⟨Text.lines after, Text.lines_returnFeed after, by rw [Text.lines_lineFeed]; rfl⟩
  · refine ⟨Text.lines rest, ?_, rfl⟩
    rw [Text.lines, if_pos hc]
    exact fun after hreturn hfeed => hpair ⟨hreturn, after, hfeed⟩

/-- The parts between line ends are the lines that are not empty. -/
theorem partsBetweenEnds_eq_contentLines (before text : Text) :
    partsBetweenEnds before text =
      contentLines (Text.continueLine before (Text.lines text)) := by
  induction text generalizing before with
  | nil => exact (continueLine_eq_contentLines before).trans (by cases before <;> rfl)
  | cons d rest ih =>
    cases hd : Text.isLineEnd d with
    | true =>
      obtain ⟨more, hlines, hmore⟩ := exists_lines_cons hd rest
      rw [partsBetweenEnds_cons_end hd, ih, Text.continueLine_nil, hlines, ← hmore,
        continueLine_eq_contentLines, Text.continueLine, List.append_nil]
      exact (List.filter_append [before] more).symm
    | false =>
      rw [partsBetweenEnds_cons hd, ih, Text.lines_cons hd,
        Text.continueLine_append _ _ _ (List.cons_ne_nil _ _)]

end Parts

/-- The lines of a text that are not empty. -/
theorem contentLines_lines (text : Text) :
    contentLines (Text.lines text) = partsBetweenEnds [] text := by
  rw [partsBetweenEnds_eq_contentLines, Text.continueLine_nil]

/-- One line is a line, unless it is empty. -/
theorem contentLines_lines_of_isOneLine {line : Text} (h : Text.isOneLine line = true) :
    contentLines (Text.lines line) = contentLines [line] := by
  rw [contentLines_lines, partsBetweenEnds_of_isOneLine h, List.nil_append]

/-- Texts of one line each have themselves for lines. -/
theorem flatMap_contentLines_of_isOneLine {lines : List Text}
    (h : ∀ line ∈ lines, Text.isOneLine line = true) :
    (lines.flatMap fun line => contentLines (Text.lines line)) = contentLines lines := by
  induction lines with
  | nil => rfl
  | cons first rest ih =>
    rw [List.flatMap_cons, contentLines_lines_of_isOneLine (h first (List.mem_cons_self ..)),
      ih fun line hline => h line (List.mem_cons_of_mem _ hline)]
    exact (List.filter_append [first] rest).symm

/-- Joined by line feeds, texts keep their parts. -/
theorem partsBetweenEnds_join (texts : List Text) :
    partsBetweenEnds [] (Text.join ['\n'] texts) = texts.flatMap (partsBetweenEnds []) := by
  induction texts with
  | nil => rfl
  | cons first rest ih =>
    cases rest with
    | nil => simp [Text.join]
    | cons second rest =>
      rw [Text.join, List.singleton_append, partsBetweenEnds_append (by decide), ih,
        ← List.flatMap_cons]

/-- Cutting runs of line feeds down leaves the parts between them. -/
theorem partsBetweenEnds_limitFeeds (n : Nat) (before text : Text) (h : 0 < n → before = []) :
    partsBetweenEnds before (limitFeeds n text) = partsBetweenEnds before text := by
  induction text generalizing n before with
  | nil => rfl
  | cons c rest ih =>
    rw [limitFeeds]
    by_cases hc : c = '\n'
    · subst hc
      have hfeed : Text.isLineEnd '\n' = true := by decide
      rw [if_pos rfl, partsBetweenEnds_cons_end hfeed]
      split
      · rw [partsBetweenEnds_cons_end hfeed, ih (n + 1) [] fun _ => rfl]
      · obtain rfl := h (by omega)
        exact ih n [] fun _ => rfl
    · rw [if_neg hc]
      cases hend : Text.isLineEnd c with
      | true =>
        rw [partsBetweenEnds_cons_end hend, partsBetweenEnds_cons_end hend, ih 0 [] fun _ => rfl]
      | false =>
        rw [partsBetweenEnds_cons hend, partsBetweenEnds_cons hend]
        exact ih 0 _ fun h => absurd h (by decide)

/-- Dropping line feeds at the start leaves the parts. -/
theorem partsBetweenEnds_dropWhile (text : Text) :
    partsBetweenEnds [] (text.dropWhile (· = '\n')) = partsBetweenEnds [] text := by
  induction text with
  | nil => rfl
  | cons c rest ih =>
    by_cases hc : c = '\n'
    · subst hc
      rw [List.dropWhile_cons_of_pos (by simp), ih, partsBetweenEnds_cons_end (by decide)]
      rfl
    · simp [hc]

/-- Dropping line feeds at both ends leaves the parts. -/
theorem partsBetweenEnds_trimFeeds (text : Text) :
    partsBetweenEnds [] (trimFeeds text) = partsBetweenEnds [] text := by
  have hend (text : Text) :
      partsBetweenEnds [] (text.reverse.dropWhile (· = '\n')).reverse =
        partsBetweenEnds [] text := by
    induction text using List.reverseRecOn with
    | nil => rfl
    | append_singleton text c ih =>
      rw [List.reverse_concat]
      by_cases hc : c = '\n'
      · subst hc
        rw [partsBetweenEnds_concat (by decide), List.dropWhile_cons_of_pos (by simp), ih]
      · rw [List.dropWhile_cons_of_neg (by simpa using hc), List.reverse_cons,
          List.reverse_reverse]
  rw [trimFeeds, hend, partsBetweenEnds_dropWhile]

/-- The two line ends of values files. -/
def IsLineEnding (lineEnd : Text) : Prop := lineEnd = ['\n'] ∨ lineEnd = ['\r', '\n']

/-- Writing line feeds in another way leaves the parts. -/
theorem partsBetweenEnds_writeFeeds {lineEnd : Text} (hend : IsLineEnding lineEnd)
    (before text : Text) :
    partsBetweenEnds before (writeFeeds lineEnd text) = partsBetweenEnds before text := by
  induction text generalizing before with
  | nil => rfl
  | cons c rest ih =>
    simp only [writeFeeds, List.flatMap_cons] at ih ⊢
    by_cases hc : c = '\n'
    · subst hc
      rw [if_pos rfl, partsBetweenEnds_cons_end (by decide)]
      rcases hend with rfl | rfl
      · rw [List.singleton_append, partsBetweenEnds_cons_end (by decide), ih]
      · rw [List.cons_append, List.singleton_append, partsBetweenEnds_cons_end (by decide),
          partsBetweenEnds_cons_end (by decide), ih]
        rfl
    · rw [if_neg hc, List.singleton_append, partsBetweenEnds, partsBetweenEnds]
      split
      · rw [ih]
      · exact ih _

/-- Written line feeds are plain line ends. -/
theorem hasPlainEnds_writeFeeds {lineEnd text : Text} (hend : IsLineEnding lineEnd)
    (h : ∀ c ∈ text, c = '\n' ∨ Text.isLineEnd c = false) :
    Text.hasPlainEnds (writeFeeds lineEnd text) = true := by
  induction text with
  | nil => rfl
  | cons c rest ih =>
    have hrest := ih fun d hd => h d (List.mem_cons_of_mem _ hd)
    simp only [writeFeeds, List.flatMap_cons] at hrest ⊢
    by_cases hc : c = '\n'
    · subst hc
      rw [if_pos rfl]
      rcases hend with rfl | rfl
      · rw [List.singleton_append, Text.hasPlainEnds]
        · simpa using hrest
        · exact fun _ h => absurd h (by decide)
      · exact hrest
    · have hline := (h c (List.mem_cons_self ..)).resolve_left hc
      rw [if_neg hc, List.singleton_append, Text.hasPlainEnds]
      · simpa [hline] using hrest
      · rintro after rfl
        exact absurd hline (by decide)

/-- Cutting runs of line feeds down takes line feeds away only. -/
theorem limitFeeds_subset (n : Nat) (text : Text) : limitFeeds n text ⊆ text := by
  induction text generalizing n with
  | nil => exact List.Subset.refl _
  | cons c rest ih =>
    rw [limitFeeds]
    split
    · split
      · rename_i hc _
        exact hc ▸ List.cons_subset_cons _ (ih _)
      · exact List.subset_cons_of_subset _ (ih _)
    · exact List.cons_subset_cons _ (ih _)

/-- Dropping line feeds at both ends takes characters away only. -/
theorem trimFeeds_subset (text : Text) : trimFeeds text ⊆ text := by
  intro c hc
  rw [trimFeeds, List.mem_reverse] at hc
  have hc := (List.dropWhile_suffix _).subset hc
  rw [List.mem_reverse] at hc
  exact (List.dropWhile_suffix _).subset hc

/-- The characters of joined lines are those of the lines and line feeds. -/
theorem mem_join {lines : List Text} {c : Char} (h : c ∈ Text.join ['\n'] lines) :
    c = '\n' ∨ ∃ line ∈ lines, c ∈ line := by
  induction lines with
  | nil => simp [Text.join] at h
  | cons first rest ih =>
    cases rest with
    | nil => exact Or.inr ⟨first, List.mem_cons_self .., h⟩
    | cons second rest =>
      simp only [Text.join, List.singleton_append, List.mem_append, List.mem_cons] at h
      rcases h with h | rfl | h
      · exact Or.inr ⟨first, List.mem_cons_self .., h⟩
      · exact Or.inl rfl
      · exact (ih h).imp_right fun ⟨line, hline, hc⟩ =>
          ⟨line, List.mem_cons_of_mem _ hline, hc⟩

section LayOut

variable {lineEnd : Text} {lines : List Text}

/-- Before line ends are written, line feeds are the only ones. -/
theorem lineFeed_of_mem_laidOut (h : ∀ line ∈ lines, Text.isOneLine line = true) :
    ∀ c ∈ trimFeeds (limitFeeds 0 (Text.join ['\n'] lines)) ++ ['\n'],
      c = '\n' ∨ Text.isLineEnd c = false := by
  intro c hc
  rcases List.mem_append.mp hc with hc | hc
  · rcases mem_join (limitFeeds_subset _ _ (trimFeeds_subset _ hc)) with hc | ⟨line, hline, hc⟩
    · exact Or.inl hc
    · exact Or.inr (Text.isOneLine_iff.mp (h line hline) c hc)
  · exact Or.inl (List.mem_singleton.mp hc)

/-- What is laid out has the lines of the texts given, empty ones aside. -/
theorem contentLines_lines_layOut (hend : IsLineEnding lineEnd) (lines : List Text) :
    contentLines (Text.lines (layOut lineEnd lines)) =
      lines.flatMap fun line => contentLines (Text.lines line) := by
  have hfeed : Text.isLineEnd '\n' = true := by decide
  simp only [contentLines_lines]
  rw [layOut, partsBetweenEnds_writeFeeds hend]
  change partsBetweenEnds [] (trimFeeds (limitFeeds 0 (Text.join ['\n'] lines)) ++ ['\n']) = _
  rw [partsBetweenEnds_concat hfeed, partsBetweenEnds_trimFeeds,
    partsBetweenEnds_limitFeeds 0 _ _ fun _ => rfl, partsBetweenEnds_join]

/-- What is laid out has plain line ends. -/
theorem hasPlainEnds_layOut (hend : IsLineEnding lineEnd)
    (h : ∀ line ∈ lines, Text.isOneLine line = true) :
    Text.hasPlainEnds (layOut lineEnd lines) = true :=
  hasPlainEnds_writeFeeds hend (lineFeed_of_mem_laidOut h)

end LayOut

/-- Between line feeds stand the parts of a text. -/
theorem partsBetweenEnds_splitAt (before text : Text) :
    partsBetweenEnds before text = match Text.splitAt '\n' text with
      | [] => partsBetweenEnds before []
      | piece :: pieces =>
        partsBetweenEnds before piece ++ pieces.flatMap (partsBetweenEnds []) := by
  induction text generalizing before with
  | nil => simp [Text.splitAt]
  | cons c rest ih =>
    rw [Text.splitAt]
    by_cases hc : c = '\n'
    · subst hc
      rw [if_pos rfl, partsBetweenEnds_cons_end (by decide), ih]
      cases Text.splitAt '\n' rest <;> rfl
    · rw [if_neg hc, partsBetweenEnds]
      cases hsplit : Text.splitAt '\n' rest with
      | nil => simp [ih, hsplit, partsBetweenEnds]
      | cons piece pieces => 
        cases hend : Text.isLineEnd c with
        | true => simp [ih, hsplit, partsBetweenEnds, hend]
        | false => simp [ih, hsplit, partsBetweenEnds, hend]

/-- A carriage return at the end of a piece makes no difference. -/
theorem partsBetweenEnds_dropReturn (before piece : Text) :
    partsBetweenEnds before (dropReturn piece) = partsBetweenEnds before piece := by
  fun_induction dropReturn piece generalizing before with
  | case1 => rfl
  | case2 => 
    rw [partsBetweenEnds_cons_end (by decide)]
    exact (List.append_nil _).symm
  | case3 c rest _ ih =>
    rw [partsBetweenEnds, partsBetweenEnds, ih, ih]

/-- What a rewrite starts from has the lines of the text, empty ones aside. -/
theorem contentLines_lines_rewriteLines (text : Text) :
    ((rewriteLines text).flatMap fun line => contentLines (Text.lines line)) =
      contentLines (Text.lines text) := by
  simp only [contentLines_lines]
  rw [rewriteLines]
  split
  · rename_i hempty
    rw [List.isEmpty_iff.mp hempty]
    rfl
  · rw [partsBetweenEnds_splitAt, List.flatMap_map]
    simp only [partsBetweenEnds_dropReturn]
    cases Text.splitAt '\n' text <;> rfl

/-- The pieces of a text with plain line ends are one line each. -/
theorem isOneLine_rewriteLines {text : Text} (h : Text.hasPlainEnds text = true) :
    ∀ line ∈ rewriteLines text, Text.isOneLine line = true := by
  have hpieces : ∀ piece ∈ Text.splitAt '\n' text, Text.isOneLine (dropReturn piece) = true := by
    refine Text.hasPlainEnds_induction
      (motive := fun text => ∀ piece ∈ Text.splitAt '\n' text,
        Text.isOneLine (dropReturn piece) = true) ?_ ?_ ?_ ?_ text h
    · simp [Text.splitAt, dropReturn]
    · intro rest _ ih
      simpa [Text.splitAt, dropReturn] using ih
    · intro rest _ ih
      simpa [Text.splitAt, dropReturn] using ih
    · intro c rest hc _ ih
      have hfeed : c ≠ '\n' := by rintro rfl; exact absurd hc (by decide)
      have hreturn : c ≠ '\r' := by rintro rfl; exact absurd hc (by decide)
      have hdrop (piece : Text) : dropReturn (c :: piece) = c :: dropReturn piece := by
        rw [dropReturn]
        exact fun heq _ => hreturn heq
      rw [Text.splitAt, if_neg hfeed]
      cases hsplit : Text.splitAt '\n' rest with
      | nil => simp [hdrop, hc, dropReturn]
      | cons piece pieces =>
        rw [hsplit] at ih
        simpa [hdrop, hc] using ih
  intro line hline
  rw [rewriteLines] at hline
  split at hline
  · simp at hline
  · obtain ⟨piece, hpiece, rfl⟩ := List.mem_map.mp hline
    exact hpieces piece hpiece

/-- A rewrite starts from the lines of the reader, empty ones aside. -/
theorem contentLines_rewriteLines {text : Text} (h : Text.hasPlainEnds text = true) :
    contentLines (rewriteLines text) = contentLines (Text.lines text) := by
  rw [← contentLines_lines_rewriteLines,
    flatMap_contentLines_of_isOneLine (isOneLine_rewriteLines h)]

end EnvFiles
