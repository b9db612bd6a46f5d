import EnvFiles.Proofs.Values.LineEnds
import Mathlib.Data.List.Chain

/-!
# Formatting fresh values files

A fresh file gives each entry its comment, its assignment and an empty line. No two empty lines
stand together and none stands first, so laying them out drops the very last one only. Reading the
file therefore meets the entries one by one: the comment of an entry waits for its own assignment,
which takes it, and nothing waits when the next entry starts. What is read is what was written,
and writing it again gives the same text.
-/

namespace EnvFiles

/-- A text on one line without blanks at its end. -/
structure IsTidyLine (text : Text) : Prop where
  isOneLine : Text.isOneLine text = true
  trimEnd_eq : Text.trimEnd text = text

/-- Entries that a fresh file can hold: distinct names, and values and comments on one line
without blanks at their ends. -/
structure PlainEntries (entries : List (Text × Text × Option Text)) : Prop where
  nodup_names : (entries.map Prod.fst).Nodup
  isName_of_mem : ∀ entry ∈ entries, isName entry.1 = true
  value_of_mem : ∀ entry ∈ entries, IsTidyLine entry.2.1
  comment_of_mem : ∀ entry ∈ entries, ∀ comment ∈ entry.2.2, IsTidyLine comment

/-- The comment line of an entry; an empty comment has none. -/
def shownComment? : Option Text → Option Text
  | some (c :: rest) => some (if c = '#' then c :: rest else '#' :: ' ' :: c :: rest)
  | _ => none

/-- The lines of an entry. -/
def entryLines (entry : Text × Text × Option Text) : List Text :=
  (shownComment? entry.2.2).toList ++ [entry.1 ++ ['='] ++ entry.2.1, []]

/-- A fresh file lays out the lines of its entries. -/
theorem formatValues_eq (entries : List (Text × Text × Option Text)) :
    formatValues entries = layOut ['\n'] (entries.flatMap entryLines) := by
  have hlines : ∀ entry : Text × Text × Option Text,
      (match entry.2.2 with
        | some (c :: rest) => [if c = '#' then c :: rest else '#' :: ' ' :: c :: rest]
        | _ => []) ++ [entry.1 ++ ['='] ++ entry.2.1, []] = entryLines entry := by
    rintro ⟨name, value, _ | _ | ⟨c, rest⟩⟩ <;> rfl
  exact congrArg (layOut ['\n']) (congrArg (entries.flatMap ·) (funext hlines))

section Comments

/-- A comment line starts as comments do. -/
theorem isComment_shownComment? {comment : Option Text} {line : Text}
    (h : shownComment? comment = some line) : isComment line = true := by
  rcases comment with _ | _ | ⟨c, rest⟩
  · simp [shownComment?] at h
  · simp [shownComment?] at h
  · obtain rfl := Option.some.inj h
    split
    · rename_i hc
      simp [isComment, hc]
    · rfl

/-- A comment line is shown as it is. -/
theorem shownComment?_of_isComment {line : Text} (h : isComment line = true) :
    shownComment? (some line) = some line := by
  cases line with
  | nil => simp [isComment] at h
  | cons c rest =>
    have hc : c = '#' := by simpa [isComment] using h
    simp [shownComment?, hc]

/-- Showing a comment twice shows it once. -/
theorem shownComment?_shownComment? (comment : Option Text) :
    shownComment? (shownComment? comment) = shownComment? comment := by
  cases hshown : shownComment? comment with
  | none => rfl
  | some line => exact shownComment?_of_isComment (isComment_shownComment? hshown)

/-- A comment is shown exactly if it is not empty, behind a number sign of its own or an added
one. -/
theorem shownComment?_eq_some_iff {comment : Option Text} {line : Text} :
    shownComment? comment = some line ↔ ∃ given, comment = some given ∧ given ≠ [] ∧
      line = if isComment given then given else '#' :: ' ' :: given := by
  rcases comment with _ | _ | ⟨c, rest⟩
  · simp [shownComment?]
  · simp [shownComment?]
  · constructor
    · intro h
      refine ⟨c :: rest, rfl, List.cons_ne_nil _ _, (Option.some.inj h).symm.trans ?_⟩
      by_cases hc : c = '#' <;> simp [isComment, hc]
    · rintro ⟨given, hgiven, -, rfl⟩
      rw [← Option.some.inj hgiven, shownComment?]
      by_cases hc : c = '#' <;> simp [isComment, hc]

/-- The line of a tidy comment is tidy. -/
theorem isTidyLine_shownComment? {comment : Option Text} {line : Text}
    (hcomment : ∀ given ∈ comment, IsTidyLine given) (h : shownComment? comment = some line) :
    IsTidyLine line := by
  obtain ⟨given, rfl, hne, rfl⟩ := shownComment?_eq_some_iff.mp h
  have hgiven := hcomment given rfl
  split
  · exact hgiven
  · refine ⟨?_, ?_⟩
    · rw [Text.isOneLine_cons, Text.isOneLine_cons, hgiven.isOneLine]
      decide
    · have hmark : Text.trimEnd (['#', ' '] ++ given) = ['#', ' '] ++ given := by
        rw [Text.trimEnd_append, hgiven.trimEnd_eq, if_neg hne]
      exact hmark

end Comments

section Spacing

variable {lines : List Text}

/-- No two neighbouring lines are both empty. -/
def Spaced (lines : List Text) : Prop := lines.IsChain fun line next => line ≠ [] ∨ next ≠ []

/-- A text without line feeds is not cut down, and ends the run of line feeds unless it is
empty. -/
theorem limitFeeds_append {piece : Text} (h : '\n' ∉ piece) (n : Nat) (rest : Text) :
    limitFeeds n (piece ++ rest) = piece ++ limitFeeds (if piece = [] then n else 0) rest := by
  induction piece generalizing n with
  | nil => rfl
  | cons c piece ih =>
    rw [List.mem_cons, not_or] at h
    rw [List.cons_append, limitFeeds, if_neg (Ne.symm h.1), ih h.2, if_neg (List.cons_ne_nil _ _)]
    split <;> rfl

/-- Spaced lines hold no run of line feeds that is cut down. -/
theorem limitFeeds_join (hfeed : ∀ line ∈ lines, '\n' ∉ line) (hspaced : Spaced lines) (n : Nat)
    (hn : lines.head? = some [] → n ≤ 1) :
    limitFeeds n (Text.join ['\n'] lines) = Text.join ['\n'] lines := by
  induction lines generalizing n with
  | nil => rfl
  | cons first rest ih =>
    obtain ⟨hfirst, hrest⟩ := List.forall_mem_cons.mp hfeed
    cases rest with
    | nil =>
      have hkept := limitFeeds_append hfirst n []
      rwa [List.append_nil, limitFeeds, List.append_nil] at hkept
    | cons second rest =>
      obtain ⟨hneighbours, hchain⟩ := List.isChain_cons_cons.mp hspaced
      rw [Text.join, limitFeeds_append hfirst, List.singleton_append, limitFeeds, if_pos rfl]
      split
      · rename_i hempty
        have hsecond := hneighbours.resolve_left fun hne => hne hempty
        rw [if_pos (Nat.lt_succ_of_le (hn (congrArg some hempty))), ih hrest hchain]
        intro hhead
        exact absurd (Option.some.inj hhead) hsecond
      · rw [if_pos (by decide), ih hrest hchain _ fun _ => Nat.le_refl 1]

/-- A line feed behind a text that neither starts nor ends with one is dropped. -/
theorem trimFeeds_append_lineFeed {text : Text} (hhead : text.head? ≠ some '\n')
    (hlast : text.getLast? ≠ some '\n') : trimFeeds (text ++ ['\n']) = text := by
  have hdrop {text : Text} (h : text.head? ≠ some '\n') :
      text.dropWhile (· = '\n') = text := by
    cases text with
    | nil => rfl
    | cons c rest => exact List.dropWhile_cons_of_neg (by simpa using h)
  cases text with
  | nil => rfl
  | cons c rest =>
    have hstart : (c :: rest ++ ['\n']).dropWhile (· = '\n') = c :: rest ++ ['\n'] := hdrop hhead
    rw [trimFeeds, hstart, List.reverse_concat, List.dropWhile_cons_of_pos (by simp),
      hdrop (List.head?_reverse.trans_ne hlast), List.reverse_reverse]

/-- One more line behind others. -/
theorem join_concat (hne : lines ≠ []) (last : Text) :
    Text.join ['\n'] (lines ++ [last]) = Text.join ['\n'] lines ++ '\n' :: last := by
  induction lines with
  | nil => exact absurd rfl hne
  | cons first rest ih =>
    cases rest with
    | nil => rfl
    | cons second rest =>
      have hrest := ih (List.cons_ne_nil _ _)
      simp only [List.cons_append, Text.join, List.nil_append] at hrest ⊢
      rw [hrest, List.append_assoc, List.cons_append]

/-- Joined lines start as the first one does, if it is not empty. -/
theorem head?_join {first : Text} (hne : first ≠ []) (rest : List Text) :
    (Text.join ['\n'] (first :: rest)).head? = first.head? := by
  cases rest with
  | nil => rfl
  | cons second rest => exact List.head?_append_of_ne_nil _ hne

/-- Joined lines end as the last one does, if it is not empty. -/
theorem getLast?_join {last : Text} (hne : last ≠ []) (front : List Text) :
    (Text.join ['\n'] (front ++ [last])).getLast? = last.getLast? := by
  cases front with
  | nil => rfl
  | cons first rest =>
    rw [join_concat (List.cons_ne_nil _ _), List.append_cons]
    exact List.getLast?_append_of_ne_nil _ hne

/-- Lines are found again between the line feeds that join them. -/
theorem splitAt_join (hne : lines ≠ []) (hfeed : ∀ line ∈ lines, '\n' ∉ line) :
    Text.splitAt '\n' (Text.join ['\n'] lines) = lines := by
  induction lines with
  | nil => exact absurd rfl hne
  | cons first rest ih =>
    obtain ⟨hfirst, hrest⟩ := List.forall_mem_cons.mp hfeed
    cases rest with
    | nil => exact Text.splitAt_of_notMem hfirst
    | cons second rest =>
      rw [Text.join, List.singleton_append, splitAt_append hfirst,
        ih (List.cons_ne_nil _ _) hrest]

/-- Of spaced lines whose first one is not empty, all but an empty last one are laid out. -/
theorem laidOutLines_concat (hfeed : ∀ line ∈ lines, '\n' ∉ line)
    (hspaced : Spaced (lines ++ [[]])) (hne : lines ≠ []) (hhead : lines.head? ≠ some []) :
    laidOutLines (lines ++ [[]]) = lines := by
  have hjoined : limitFeeds 0 (Text.join ['\n'] (lines ++ [[]])) =
      Text.join ['\n'] lines ++ ['\n'] := by
    rw [limitFeeds_join _ hspaced 0 fun _ => Nat.zero_le 1, join_concat hne]
    exact List.forall_mem_append.mpr ⟨hfeed, by simp⟩
  have hfirst : (Text.join ['\n'] lines).head? ≠ some '\n' := by
    cases lines with
    | nil => exact absurd rfl hne
    | cons first rest =>
      rw [head?_join fun hempty => hhead (congrArg some hempty)]
      exact fun h => hfeed first (List.mem_cons_self ..) (List.mem_of_head? h)
  have hlast : (Text.join ['\n'] lines).getLast? ≠ some '\n' := by
    obtain ⟨front, last, rfl⟩ := (List.eq_nil_or_concat' lines).resolve_left hne
    have hends := (List.isChain_append.mp hspaced).2.2 last (by simp) [] rfl
    rw [getLast?_join (hends.resolve_right fun h => h rfl)]
    exact fun h => hfeed last (by simp) (List.mem_of_getLast? h)
  rw [laidOutLines, hjoined, trimFeeds_append_lineFeed hfirst hlast, splitAt_join hne hfeed]

end Spacing

section Reading

variable {values comments : Table Text Text} {rest : List Text}

/-- An assignment takes the comment that waits. -/
theorem readValueLines_cons_of_declared? {line name value : Text}
    (h : declared? line = some (name, value)) (pending : Text) :
    readValueLines values comments pending (line :: rest) =
      readValueLines (values.put name value)
        (if pending.isEmpty then comments else comments.put name pending) [] rest := by
  rw [declared?] at h
  split at h
  · simp at h
  · rename_i hcomment
    have hfilled : (Text.trim line).isEmpty = false := by
      cases htrim : Text.trim line with
      | nil =>
        have hnone : assignment? [] = none := by decide
        simp [htrim, hnone] at h
      | cons c more => rfl
    simp [readValueLines, hfilled, hcomment, h]

/-- A tidy comment line waits as it is. -/
theorem readValueLines_cons_of_isComment {line : Text} (hcomment : isComment line = true)
    (htidy : IsTidyLine line) (pending : Text) :
    readValueLines values comments pending (line :: rest) =
      readValueLines values comments line rest := by
  have htrim : Text.trim line = line := by
    cases line with
    | nil => rfl
    | cons c more =>
      obtain rfl : c = '#' := by simpa [isComment] using hcomment
      rw [Text.trim, Text.trimStart, List.dropWhile_cons_of_neg (by decide), htidy.trimEnd_eq]
  have hfilled : line.isEmpty = false := by cases line <;> simp_all [isComment]
  simp [readValueLines, htrim, hfilled, hcomment]

end Reading

section Entries

variable {entries : List (Text × Text × Option Text)} {entry : Text × Text × Option Text}

/-- Entries behind a first one are plain on their own. -/
theorem PlainEntries.tail (h : PlainEntries (entry :: entries)) : PlainEntries entries where
  nodup_names := (List.nodup_cons.mp h.nodup_names).2
  isName_of_mem := fun _ hmem => h.isName_of_mem _ (List.mem_cons_of_mem _ hmem)
  value_of_mem := fun _ hmem => h.value_of_mem _ (List.mem_cons_of_mem _ hmem)
  comment_of_mem := fun _ hmem => h.comment_of_mem _ (List.mem_cons_of_mem _ hmem)

/-- The comment that a file gives to the name of an entry. -/
def keptComment? (entry : Text × Text × Option Text) : Option (Text × Text) :=
  (shownComment? entry.2.2).map fun line => (entry.1, line)

/-- Reading the lines of an entry puts its value and its comment, and nothing waits behind. -/
theorem readValueLines_entryLines (hname : isName entry.1 = true) (hvalue : IsTidyLine entry.2.1)
    (hcomment : ∀ comment ∈ entry.2.2, IsTidyLine comment) (values comments : Table Text Text)
    (rest : List Text) :
    readValueLines values comments [] (entryLines entry ++ rest) =
      readValueLines (values.put entry.1 entry.2.1)
        (comments.putAll (keptComment? entry).toList) [] rest := by
  have hdeclared : declared? (entry.1 ++ ['='] ++ entry.2.1) = some (entry.1, entry.2.1) := by
    have hadded := @declared?_added (entry.1, entry.2.1) hname hvalue.isOneLine
    rwa [hvalue.trimEnd_eq] at hadded
  rw [entryLines, keptComment?, List.append_assoc]
  cases hshown : shownComment? entry.2.2 with
  | none =>
    exact readValueLines_cons_of_declared? hdeclared []
  | some line =>
    have hiscomment := isComment_shownComment? hshown
    have hfilled : line.isEmpty = false := by cases line <;> simp_all [isComment]
    refine (readValueLines_cons_of_isComment hiscomment
      (isTidyLine_shownComment? hcomment hshown) []).trans ?_
    refine (readValueLines_cons_of_declared? hdeclared line).trans ?_
    rw [hfilled]
    rfl

/-- Reading the lines of entries puts their values and comments in order. -/
theorem readValueLines_flatMap_entryLines (h : PlainEntries entries)
    (values comments : Table Text Text) :
    readValueLines values comments [] (entries.flatMap entryLines) =
      (values.putAll (entries.map fun entry => (entry.1, entry.2.1)),
        comments.putAll (entries.filterMap keptComment?)) := by
  induction entries generalizing values comments with
  | nil => rfl
  | cons entry rest ih =>
    obtain ⟨hname, hvalue, hcomment⟩ :
        isName entry.1 = true ∧ IsTidyLine entry.2.1 ∧
          ∀ comment ∈ entry.2.2, IsTidyLine comment :=
      ⟨h.isName_of_mem entry (List.mem_cons_self ..), h.value_of_mem entry (List.mem_cons_self ..),
        h.comment_of_mem entry (List.mem_cons_self ..)⟩
    rw [List.flatMap_cons, readValueLines_entryLines hname hvalue hcomment, ih h.tail,
      List.map_cons]
    cases hentry : keptComment? entry with
    | none => rw [List.filterMap_cons_none hentry]; rfl
    | some line => rw [List.filterMap_cons_some hentry]; rfl

/-- An assignment line is not empty. -/
theorem head?_entryLines_append (entry : Text × Text × Option Text) (rest : List Text) :
    (entryLines entry ++ rest).head? ≠ some [] := by
  rw [entryLines]
  cases hshown : shownComment? entry.2.2 with
  | none => simp
  | some line =>
    have hcomment := isComment_shownComment? hshown
    cases line <;> simp_all [isComment]

/-- The lines of an entry are spaced, and so are those of more entries. -/
theorem spaced_flatMap_entryLines (entries : List (Text × Text × Option Text)) :
    Spaced (entries.flatMap entryLines) := by
  induction entries with
  | nil => exact .nil
  | cons entry rest ih =>
    rw [List.flatMap_cons, Spaced, List.isChain_append]
    refine ⟨?_, ih, ?_⟩
    · rw [entryLines]
      cases hshown : shownComment? entry.2.2 with
      | none => simp
      | some line => simp
    · intro last _ next hnext
      refine Or.inr fun hempty => ?_
      cases rest with
      | nil => simp at hnext
      | cons second rest =>
        rw [List.flatMap_cons] at hnext
        exact head?_entryLines_append second _ (hempty ▸ hnext)

/-- The lines of plain entries are one line each. -/
theorem isOneLine_of_mem_entryLines (hname : isName entry.1 = true) (hvalue : IsTidyLine entry.2.1)
    (hcomment : ∀ comment ∈ entry.2.2, IsTidyLine comment) :
    ∀ line ∈ entryLines entry, Text.isOneLine line = true := by
  intro line hline
  rw [entryLines] at hline
  rcases List.mem_append.mp hline with hline | hline
  · exact (isTidyLine_shownComment? hcomment (Option.mem_toList.mp hline)).isOneLine
  · rcases List.mem_cons.mp hline with rfl | hline
    · rw [Text.isOneLine_append, Text.isOneLine_append, isOneLine_of_isName hname,
        hvalue.isOneLine]
      decide
    · rw [List.mem_singleton.mp hline]
      rfl

/-- The lines of a fresh file are those of its entries, apart from the last empty one. -/
theorem lines_formatValues (h : PlainEntries entries) (hne : entries ≠ []) :
    Text.lines (formatValues entries) ++ [[]] = entries.flatMap entryLines := by
  have hone : ∀ line ∈ entries.flatMap entryLines, Text.isOneLine line = true := by
    intro line hline
    obtain ⟨entry, hentry, hline⟩ := List.mem_flatMap.mp hline
    exact isOneLine_of_mem_entryLines (h.isName_of_mem _ hentry) (h.value_of_mem _ hentry)
      (h.comment_of_mem _ hentry) line hline
  have hspaced := spaced_flatMap_entryLines entries
  -- the last entry ends in the empty line that is dropped
  obtain ⟨lines, hlines, hnil⟩ : ∃ lines, entries.flatMap entryLines = lines ++ [[]] ∧
      lines ≠ [] := by
    obtain ⟨front, last, rfl⟩ := (List.eq_nil_or_concat' entries).resolve_left hne
    refine ⟨front.flatMap entryLines ++ ((shownComment? last.2.2).toList ++
      [last.1 ++ ['='] ++ last.2.1]), ?_, by simp⟩
    simp [entryLines]
  have hhead : lines.head? ≠ some [] := by
    obtain ⟨first, rest, rfl⟩ := List.exists_cons_of_ne_nil hne
    have hfirst := head?_entryLines_append first (rest.flatMap entryLines)
    rwa [← List.flatMap_cons, hlines, List.head?_append_of_ne_nil _ hnil] at hfirst
  rw [formatValues_eq, layOut_eq_flatMap]
  rw [hlines] at hone hspaced ⊢
  obtain ⟨hkept, -⟩ := List.forall_mem_append.mp hone
  rw [laidOutLines_concat (fun line hline => Text.lineFeed_notMem_of_isOneLine (hkept line hline))
    hspaced hnil hhead, Text.lines_flatMap_lineFeed hkept]

/-- An empty line at the end changes nothing that is read. -/
theorem readValueLines_concat_nil (values comments : Table Text Text) (pending : Text)
    (lines : List Text) :
    readValueLines values comments pending (lines ++ [[]]) =
      readValueLines values comments pending lines := by
  induction lines generalizing values comments pending with
  | nil => rfl
  | cons line rest ih => simp only [List.cons_append, readValueLines, ih]

/-- Comments are kept for distinct names. -/
theorem nodup_keys_keptComments (h : (entries.map Prod.fst).Nodup) :
    (Table.keys (entries.filterMap keptComment?)).Nodup := by
  refine (sublist_map_filterMap (fun item found hfound => ?_) entries).nodup h
  obtain ⟨line, -, rfl⟩ := Option.map_eq_some_iff.mp hfound
  rfl

/-- A fresh file holds the values and the comments of its entries, in order. -/
theorem readValueLines_formatValues (h : PlainEntries entries) :
    readValueLines [] [] [] (Text.lines (formatValues entries)) =
      (entries.map fun entry => (entry.1, entry.2.1), entries.filterMap keptComment?) := by
  cases entries with
  | nil => rfl
  | cons entry rest =>
    have hvalues : ((entry :: rest).map fun entry => (entry.1, entry.2.1)).map Prod.fst =
        (entry :: rest).map Prod.fst := List.map_map
    rw [← readValueLines_concat_nil, lines_formatValues h (List.cons_ne_nil _ _),
      readValueLines_flatMap_entryLines h]
    exact Prod.ext (Table.ofEntries_of_nodup (hvalues ▸ h.nodup_names))
      (Table.ofEntries_of_nodup (nodup_keys_keptComments h.nodup_names))

/-- The comment kept for the name of an entry is the one that it shows. -/
theorem get?_keptComments (hnodup : (entries.map Prod.fst).Nodup) (hmem : entry ∈ entries) :
    Table.get? (entries.filterMap keptComment?) entry.1 = shownComment? entry.2.2 := by
  cases hshown : shownComment? entry.2.2 with
  | some line =>
    have hentry : keptComment? entry = some (entry.1, line) := by rw [keptComment?, hshown]; rfl
    exact Table.get?_of_mem (nodup_keys_keptComments hnodup)
      (List.mem_filterMap.mpr ⟨entry, hmem, hentry⟩)
  | none =>
    rw [Table.get?_eq_none_iff]
    intro hkey
    obtain ⟨found, hfound, hname⟩ := List.mem_map.mp hkey
    obtain ⟨other, hother, hentry⟩ := List.mem_filterMap.mp hfound
    obtain ⟨line, hline, rfl⟩ := Option.map_eq_some_iff.mp hentry
    obtain rfl := List.inj_on_of_nodup_map hnodup hother hmem hname
    rw [hshown] at hline
    contradiction

/-- Entries with their comments as they are shown are formatted alike. -/
theorem formatValues_map_shownComment? (entries : List (Text × Text × Option Text)) :
    formatValues (entries.map fun entry => (entry.1, entry.2.1, shownComment? entry.2.2)) =
      formatValues entries := by
  have hlines (entry : Text × Text × Option Text) :
      entryLines (entry.1, entry.2.1, shownComment? entry.2.2) = entryLines entry := by
    rw [entryLines, shownComment?_shownComment?]
    rfl
  rw [formatValues_eq, formatValues_eq, List.flatMap_map]
  simp only [hlines]

/-- Formatting plain entries and reading the result are inverse to each other. The names and values
read are those of the entries in their order. A name has a comment exactly if its entry has one
that is not empty, namely that comment, behind a number sign if it had none. Formatting what is
read gives the same text again. -/
theorem readValues_formatValues (h : PlainEntries entries) :
    let file := readValues (formatValues entries)
    file.values = entries.map (fun entry => (entry.1, entry.2.1)) ∧
      (∀ name comment, file.comments.get? name = some comment ↔
        ∃ value given, (name, value, some given) ∈ entries ∧ given ≠ [] ∧
          comment = if isComment given then given else '#' :: ' ' :: given) ∧
      formatValues (file.values.map fun entry =>
        (entry.1, entry.2, file.comments.get? entry.1)) = formatValues entries := by
  intro file
  obtain ⟨hvalues, hcomments⟩ : file.values = entries.map (fun entry => (entry.1, entry.2.1)) ∧
      file.comments = entries.filterMap keptComment? :=
    Prod.mk.inj (readValueLines_formatValues h)
  refine ⟨hvalues, fun name comment => ⟨fun hget => ?_, ?_⟩, ?_⟩
  · rw [hcomments] at hget
    obtain ⟨⟨name, value, given⟩, hmem, hentry⟩ :=
      List.mem_filterMap.mp (Table.mem_of_get? hget)
    obtain ⟨line, hline, hpair⟩ := Option.map_eq_some_iff.mp hentry
    obtain ⟨rfl, rfl⟩ := Prod.mk.inj hpair
    obtain ⟨given, rfl, hne, hcomment⟩ := shownComment?_eq_some_iff.mp hline
    exact ⟨value, given, hmem, hne, hcomment⟩
  · rintro ⟨value, given, hmem, hne, hcomment⟩
    rw [hcomments, get?_keptComments h.nodup_names hmem]
    exact shownComment?_eq_some_iff.mpr ⟨given, rfl, hne, hcomment⟩
  · have hread : (file.values.map fun entry => (entry.1, entry.2, file.comments.get? entry.1)) =
        entries.map fun entry => (entry.1, entry.2.1, shownComment? entry.2.2) := by
      rw [hvalues, hcomments, List.map_map]
      refine List.map_congr_left fun entry hmem => ?_
      rw [Function.comp_apply, get?_keptComments h.nodup_names hmem]
    rw [hread, formatValues_map_shownComment?]

/-- Values that look like a comment and an assignment, and comments with and without a number sign,
come back; an empty comment is none. -/
theorem readValues_formatValues_lookalikes :
    let entries : List (Text × Text × Option Text) :=
      [("A", "# x", some "#kept"), ("B_2", "", some ""), ("C", "  D=1\\", some " C=2"),
        ("_D", "'q'", none)]
    let file := readValues (formatValues entries)
    PlainEntries entries ∧
      file.values = ([("A", "# x"), ("B_2", ""), ("C", "  D=1\\"), ("_D", "'q'")] :
        Table Text Text) ∧
      file.comments.get? "A" = some ("#kept" : Text) ∧ file.comments.get? "B_2" = none ∧
      file.comments.get? "C" = some ("#  C=2" : Text) ∧
      formatValues (file.values.map fun entry =>
        (entry.1, entry.2, file.comments.get? entry.1)) = formatValues entries := by
  intro entries file
  have htidy (text : Text) (h : Text.isOneLine text = true ∧ Text.trimEnd text = text) :
      IsTidyLine text := ⟨h.1, h.2⟩
  have hplain : PlainEntries entries :=
    { nodup_names := by decide
      isName_of_mem := by decide
      value_of_mem := fun entry hentry => htidy _ <| by
        revert entry
        decide +kernel
      comment_of_mem := fun entry hentry comment hcomment => htidy _ <| by
        have hcomments : ∀ comment ∈ entries.filterMap fun entry => entry.2.2,
            Text.isOneLine comment = true ∧ Text.trimEnd comment = comment := by decide +kernel
        exact hcomments comment (List.mem_filterMap.mpr ⟨entry, hentry, hcomment⟩) }
  obtain ⟨hvalues, hcomments, hagain⟩ := readValues_formatValues hplain
  refine ⟨hplain, hvalues, ?_, ?_, ?_, hagain⟩
  · exact (hcomments "A" "#kept").mpr ⟨"# x", "#kept", by decide, by decide, rfl⟩
  · refine Option.eq_none_iff_forall_ne_some.mpr fun comment hget => ?_
    obtain ⟨value, given, hmem, hne, -⟩ := (hcomments "B_2" comment).mp hget
    have hempty : ∀ entry ∈ entries, entry.1 = "B_2" → entry.2.2 = some [] := by decide
    exact hne (Option.some.inj (hempty _ hmem rfl))
  · exact (hcomments "C" "#  C=2").mpr ⟨"  D=1\\", " C=2", by decide, by decide, rfl⟩

end Entries

end EnvFiles
