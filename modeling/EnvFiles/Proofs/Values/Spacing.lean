import EnvFiles.Proofs.Values.Formatting

/-!
# The spacing of what is laid out

Laying lines out touches line feeds only. Runs of them are cut down to two, so with none at the
ends no two empty lines stand together, and the first and the last line are not empty unless
nothing is left. A line feed goes only where another one or an end of the text stands beside it,
so the lines with content are the lines that were given.
-/

namespace EnvFiles

section Runs

/-- At the start of what is cut down, and together with the line feeds before it, a run has two
line feeds at most. -/
theorem add_le_two_of_isPrefix_limitFeeds {n k : Nat} (hn : n ≤ 2) {text : Text}
    (h : List.replicate k '\n' <+: limitFeeds n text) : n + k ≤ 2 := by
  induction text generalizing n k with
  | nil =>
    rw [limitFeeds, List.prefix_nil, List.replicate_eq_nil_iff] at h
    omega
  | cons c rest ih =>
    cases k with
    | zero => exact hn
    | succ k =>
      rw [limitFeeds] at h
      split at h
      · split at h
        · rename_i hlt
          rw [List.replicate_succ, List.cons_prefix_cons] at h
          have hrest := ih hlt h.2
          omega
        · exact ih hn h
      · rename_i hc
        rw [List.replicate_succ, List.cons_prefix_cons] at h
        exact absurd h.1.symm hc

/-- Three line feeds stand together nowhere in what is cut down. -/
theorem not_isInfix_limitFeeds {n : Nat} (hn : n ≤ 2) (text : Text) :
    ¬ ['\n', '\n', '\n'] <:+: limitFeeds n text := by
  induction text generalizing n with
  | nil => simp [limitFeeds]
  | cons c rest ih =>
    intro h
    have hfirst : ¬ ['\n', '\n', '\n'] <+: limitFeeds n (c :: rest) := by
      intro hprefix
      have hle : n + 3 ≤ 2 := add_le_two_of_isPrefix_limitFeeds hn hprefix
      omega
    rw [limitFeeds] at h hfirst
    split_ifs at h hfirst with hc hlt
    · exact (List.infix_cons_iff.mp h).elim hfirst (ih hlt)
    · exact ih hn h
    · exact (List.infix_cons_iff.mp h).elim hfirst (ih (Nat.zero_le 2))

end Runs

section Trimming

variable (text : Text)

/-- What is left between the line feeds at the ends is a part of the text. -/
theorem trimFeeds_isInfix : trimFeeds text <:+: text := by
  have hend := List.reverse_prefix.mpr
    (List.dropWhile_suffix (l := (text.dropWhile (· = '\n')).reverse) (· = '\n'))
  rw [List.reverse_reverse] at hend
  exact hend.isInfix.trans (List.dropWhile_suffix _).isInfix

/-- It does not end with a line feed. -/
theorem getLast?_trimFeeds : (trimFeeds text).getLast? ≠ some '\n' := by
  intro h
  have hstop := List.head?_dropWhile_not (· = '\n') (text.dropWhile (· = '\n')).reverse
  rw [trimFeeds, List.getLast?_reverse] at h
  rw [h] at hstop
  simp at hstop

/-- It does not start with a line feed. -/
theorem head?_trimFeeds : (trimFeeds text).head? ≠ some '\n' := by
  intro h
  obtain ⟨behind, hbehind⟩ : trimFeeds text <+: text.dropWhile (· = '\n') := by
    rw [trimFeeds, ← List.reverse_suffix, List.reverse_reverse]
    exact List.dropWhile_suffix _
  have hstop := List.head?_dropWhile_not (· = '\n') text
  rw [← hbehind, List.head?_append, h] at hstop
  simp at hstop

end Trimming

section Pieces

variable {text : Text}

/-- There is a piece at least. -/
theorem splitAt_ne_nil (text : Text) : Text.splitAt '\n' text ≠ [] := by
  intro h
  have hpieces := flatMap_splitAt text
  rw [h] at hpieces
  simp at hpieces

/-- The pieces around a line feed. -/
theorem splitAt_append_lineFeed (first rest : Text) :
    Text.splitAt '\n' (first ++ '\n' :: rest) =
      Text.splitAt '\n' first ++ Text.splitAt '\n' rest := by
  induction first with
  | nil => rfl
  | cons c first ih =>
    rw [List.cons_append, Text.splitAt, Text.splitAt, ih]
    split
    · rfl
    · cases hsplit : Text.splitAt '\n' first with
      | nil => exact absurd hsplit (splitAt_ne_nil first)
      | cons piece pieces => rfl

/-- Behind a line feed, ended pieces end with a line feed. -/
theorem exists_lineFeed_flatMap (pieces : List Text) :
    ∃ before : Text, '\n' :: pieces.flatMap (· ++ ['\n']) = before ++ ['\n'] := by
  cases pieces using List.reverseRecOn with
  | nil => exact ⟨[], rfl⟩
  | append_singleton front last =>
    exact ⟨'\n' :: (front.flatMap (· ++ ['\n']) ++ last), by simp⟩

/-- Without line feeds at its ends and three of them together, a text has no three of them together
with one more at each end. -/
theorem not_isInfix_enclosed (hrun : ¬ ['\n', '\n', '\n'] <:+: text)
    (hhead : text.head? ≠ some '\n') (hlast : text.getLast? ≠ some '\n') :
    ¬ ['\n', '\n', '\n'] <:+: '\n' :: (text ++ ['\n']) := by
  intro h
  rcases List.infix_cons_iff.mp h with h | ⟨front, behind, h⟩
  · rw [List.cons_prefix_cons] at h
    cases text with
    | nil => exact absurd h.2.length_le (by decide)
    | cons c rest =>
      rw [List.cons_append, List.cons_prefix_cons] at h
      exact hhead (congrArg some h.2.1.symm)
  · cases behind using List.reverseRecOn with
    | nil =>
      have htext : front ++ ['\n', '\n'] ++ ['\n'] = text ++ ['\n'] := by simpa using h
      rw [← List.append_cancel_right htext] at hlast
      simp at hlast
    | append_singleton behind last =>
      rw [← List.append_assoc] at h
      exact hrun ⟨front, behind, (List.append_inj' h rfl).1⟩

/-- Then no two of its pieces that stand together are empty. -/
theorem spaced_splitAt (hrun : ¬ ['\n', '\n', '\n'] <:+: text)
    (hhead : text.head? ≠ some '\n') (hlast : text.getLast? ≠ some '\n') :
    Spaced (Text.splitAt '\n' text) := by
  apply List.isChain_iff_forall_rel_of_append_cons_cons.mpr
  intro line next before after hsplit
  by_contra hempty
  rw [not_or, not_not, not_not] at hempty
  obtain ⟨rfl, rfl⟩ := hempty
  apply not_isInfix_enclosed hrun hhead hlast
  obtain ⟨front, hfront⟩ := exists_lineFeed_flatMap before
  rw [← flatMap_splitAt, hsplit, List.flatMap_append, ← List.cons_append, hfront]
  exact ⟨front, after.flatMap (· ++ ['\n']), by simp⟩

/-- The first of its pieces is empty only if there is no other. -/
theorem eq_nil_of_head?_splitAt (hhead : text.head? ≠ some '\n')
    (h : (Text.splitAt '\n' text).head? = some []) : text = [] := by
  cases text with
  | nil => rfl
  | cons c rest =>
    have hc : c ≠ '\n' := fun hc => hhead (congrArg some hc)
    rw [Text.splitAt, if_neg hc] at h
    split at h <;> simp at h

/-- The last of its pieces is empty only if there is no other. -/
theorem eq_nil_of_getLast?_splitAt (hlast : text.getLast? ≠ some '\n')
    (h : (Text.splitAt '\n' text).getLast? = some []) : text = [] := by
  obtain ⟨front, hsplit⟩ := List.getLast?_eq_some_iff.mp h
  have htext : front.flatMap (· ++ ['\n']) = text := by
    have hpieces := flatMap_splitAt text
    rw [hsplit, List.flatMap_append] at hpieces
    exact List.append_cancel_right hpieces
  cases front using List.reverseRecOn with
  | nil => exact htext.symm
  | append_singleton front last =>
    rw [← htext] at hlast
    simp at hlast

end Pieces

section Contents

/-- The lines with content around a line feed. -/
theorem contentLines_splitAt_append (first rest : Text) :
    contentLines (Text.splitAt '\n' (first ++ '\n' :: rest)) =
      contentLines (Text.splitAt '\n' first) ++ contentLines (Text.splitAt '\n' rest) := by
  rw [splitAt_append_lineFeed]
  exact List.filter_append ..

/-- Cutting runs of line feeds down leaves the lines with content. A run that is under way has
nothing before it on its line. -/
theorem contentLines_splitAt_limitFeeds (n : Nat) (before text : Text) (h : 0 < n → before = []) :
    contentLines (Text.splitAt '\n' (before ++ limitFeeds n text)) =
      contentLines (Text.splitAt '\n' (before ++ text)) := by
  induction text generalizing n before with
  | nil => rfl
  | cons c rest ih =>
    rw [limitFeeds]
    by_cases hc : c = '\n'
    · rw [if_pos hc, hc, contentLines_splitAt_append before rest]
      split
      · rw [contentLines_splitAt_append, ← List.nil_append (limitFeeds (n + 1) rest),
          ih (n + 1) [] fun _ => rfl, List.nil_append]
      · have hbefore : before = [] := h (by omega)
        rw [hbefore, ih n [] fun _ => rfl]
        rfl
    · rw [if_neg hc, List.append_cons before c rest, List.append_cons before c (limitFeeds 0 rest)]
      exact ih 0 _ fun hpos => absurd hpos (by decide)

/-- Dropping line feeds at the start leaves the lines with content. -/
theorem contentLines_splitAt_dropWhile (text : Text) :
    contentLines (Text.splitAt '\n' (text.dropWhile (· = '\n'))) =
      contentLines (Text.splitAt '\n' text) := by
  induction text with
  | nil => rfl
  | cons c rest ih =>
    by_cases hc : c = '\n'
    · rw [List.dropWhile_cons_of_pos (by simpa using hc), ih, hc]
      exact (contentLines_splitAt_append [] rest).symm
    · rw [List.dropWhile_cons_of_neg (by simpa using hc)]

/-- So does dropping line feeds at the end. -/
theorem contentLines_splitAt_reverse_dropWhile (text : Text) :
    contentLines (Text.splitAt '\n' (text.reverse.dropWhile (· = '\n')).reverse) =
      contentLines (Text.splitAt '\n' text) := by
  induction text using List.reverseRecOn with
  | nil => rfl
  | append_singleton text c ih =>
    rw [List.reverse_concat]
    by_cases hc : c = '\n'
    · rw [List.dropWhile_cons_of_pos (by simpa using hc), ih, hc, contentLines_splitAt_append]
      exact (List.append_nil _).symm
    · rw [List.dropWhile_cons_of_neg (by simpa using hc), List.reverse_cons, List.reverse_reverse]

/-- Dropping line feeds at both ends leaves the lines with content. -/
theorem contentLines_splitAt_trimFeeds (text : Text) :
    contentLines (Text.splitAt '\n' (trimFeeds text)) =
      contentLines (Text.splitAt '\n' text) := by
  rw [trimFeeds, contentLines_splitAt_reverse_dropWhile, contentLines_splitAt_dropWhile]

end Contents

section LaidOut

variable (lines : List Text)

/-- No two empty lines stand together in what is laid out. -/
theorem spaced_laidOutLines : Spaced (laidOutLines lines) := by
  apply spaced_splitAt
  · intro hrun
    exact not_isInfix_limitFeeds (Nat.zero_le 2) _ (hrun.trans (trimFeeds_isInfix _))
  · exact head?_trimFeeds _
  · exact getLast?_trimFeeds _

/-- Neither the first nor the last line is empty, unless it is the only one. -/
theorem laidOutLines_ends : laidOutLines lines = [[]] ∨
    laidOutLines lines ≠ [] ∧ (laidOutLines lines).head? ≠ some [] ∧
      (laidOutLines lines).getLast? ≠ some [] := by
  by_cases hempty : trimFeeds (limitFeeds 0 (Text.join ['\n'] lines)) = []
  · left
    rw [laidOutLines, hempty]
    rfl
  · right
    refine ⟨splitAt_ne_nil _, ?_, ?_⟩
    · exact fun h => hempty (eq_nil_of_head?_splitAt (head?_trimFeeds _) h)
    · exact fun h => hempty (eq_nil_of_getLast?_splitAt (getLast?_trimFeeds _) h)

/-- The lines with content are those that are given. -/
theorem contentLines_laidOutLines {lines : List Text} (hfeed : ∀ line ∈ lines, '\n' ∉ line) :
    contentLines (laidOutLines lines) = contentLines lines := by
  have hlimited := contentLines_splitAt_limitFeeds 0 [] (Text.join ['\n'] lines) fun _ => rfl
  rw [List.nil_append, List.nil_append] at hlimited
  rw [laidOutLines, contentLines_splitAt_trimFeeds, hlimited]
  cases lines with
  | nil => rfl
  | cons first rest => rw [splitAt_join (List.cons_ne_nil _ _) hfeed]

end LaidOut
end EnvFiles
