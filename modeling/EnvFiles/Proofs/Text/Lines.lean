import EnvFiles.Text.Lines
import Mathlib.Data.List.Basic
import Mathlib.Data.List.Infix

/-!
# Trimmed texts and lines

Trimming takes away blanks only, so it commutes with everything that looks at characters which
are not blank. Lines never hold the end of a line, and making all line ends line feeds changes
no line. A text whose only line ends are a line feed and a carriage return before one has the
same lines for every reader that agrees on those two.
-/

namespace EnvFiles.Text

/-- Every character that ends a line is blank. -/
theorem isBlank_of_isLineEnd {c : Char} (h : isLineEnd c = true) : isBlank c = true := by
  simp only [isLineEnd, isBlank, Bool.or_eq_true, Bool.and_eq_true, decide_eq_true_eq,
    beq_iff_eq] at h ⊢
  omega

/-- A text is one line when none of its characters ends a line. -/
theorem isOneLine_iff {text : Text} :
    isOneLine text = true ↔ ∀ c ∈ text, isLineEnd c = false := by
  simp [isOneLine]

/-- The empty text holds no line end. -/
@[simp]
theorem isOneLine_nil : isOneLine [] = true := rfl

/-- A text is one line when its first character and the rest are. -/
@[simp]
theorem isOneLine_cons (c : Char) (text : Text) :
    isOneLine (c :: text) = (!isLineEnd c && isOneLine text) := rfl

/-- Two texts are one line together when each of them is. -/
@[simp]
theorem isOneLine_append (first second : Text) :
    isOneLine (first ++ second) = (isOneLine first && isOneLine second) := List.all_append

/-- A text whose characters all come from one line is one line. -/
theorem isOneLine_of_subset {part text : Text} (hsubset : part ⊆ text)
    (h : isOneLine text = true) : isOneLine part = true := by
  rw [isOneLine_iff] at h ⊢
  exact fun c hc => h c (hsubset hc)

/-- One line holds no line feed. -/
theorem lineFeed_notMem_of_isOneLine {text : Text} (h : isOneLine text = true) :
    '\n' ∉ text := by
  intro hmem
  have hend := isOneLine_iff.mp h _ hmem
  revert hend
  decide

/-- One line holds neither a carriage return nor a line feed. -/
theorem notMem_of_isOneLine {text : Text} (h : isOneLine text = true) :
    '\r' ∉ text ∧ '\n' ∉ text :=
  ⟨fun hmem => absurd (isOneLine_iff.mp h _ hmem) (by decide), lineFeed_notMem_of_isOneLine h⟩

/-- Trimming the end drops the last character if it and all after it are blank. -/
theorem trimEnd_cons (c : Char) (text : Text) :
    trimEnd (c :: text) =
      if trimEnd text = [] ∧ isBlank c = true then [] else c :: trimEnd text := by
  rw [trimEnd]
  cases h : trimEnd text <;> simp

/-- A character that is not blank stays. -/
theorem trimEnd_cons_of_not_blank {c : Char} (h : isBlank c = false) (text : Text) :
    trimEnd (c :: text) = c :: trimEnd text := by
  simp [trimEnd_cons, h]

/-- Exactly the blank texts are trimmed to nothing. -/
theorem trimEnd_eq_nil_iff {text : Text} :
    trimEnd text = [] ↔ ∀ c ∈ text, isBlank c = true := by
  induction text with
  | nil => simp [trimEnd]
  | cons c text ih =>
    rw [trimEnd_cons]
    by_cases h : trimEnd text = [] ∧ isBlank c = true
    · simpa [h] using ih.mp h.1
    · simp only [if_neg h, List.mem_cons, forall_eq_or_imp, reduceCtorEq, false_iff, not_and]
      exact fun hc htext => h ⟨ih.mpr htext, hc⟩

/-- The end of two texts is that of the second, unless the second is blank. -/
theorem trimEnd_append (first second : Text) :
    trimEnd (first ++ second) =
      if trimEnd second = [] then trimEnd first else first ++ trimEnd second := by
  induction first with
  | nil => by_cases h : trimEnd second = [] <;> simp [h, trimEnd]
  | cons c first ih =>
    rw [List.cons_append, trimEnd_cons, ih, trimEnd_cons]
    by_cases h : trimEnd second = [] <;> simp [h]

/-- What stands before a character that is not blank stays. -/
theorem trimEnd_append_cons {c : Char} (h : isBlank c = false) (first second : Text) :
    trimEnd (first ++ c :: second) = first ++ c :: trimEnd second := by
  rw [trimEnd_append, trimEnd_cons_of_not_blank h, if_neg (List.cons_ne_nil _ _)]

/-- Trimming the end twice is trimming it once. -/
@[simp]
theorem trimEnd_trimEnd (text : Text) : trimEnd (trimEnd text) = trimEnd text := by
  induction text with
  | nil => rfl
  | cons c text ih =>
    rw [trimEnd_cons]
    by_cases h : trimEnd text = [] ∧ isBlank c = true
    · rw [if_pos h]; rfl
    · rw [if_neg h, trimEnd_cons, ih, if_neg h]

/-- Trimming the end leaves the beginning of a text. -/
theorem trimEnd_isPrefix (text : Text) : trimEnd text <+: text := by
  induction text with
  | nil => exact List.prefix_refl _
  | cons c text ih =>
    rw [trimEnd_cons]
    split
    · exact List.nil_prefix
    · exact List.cons_prefix_cons.mpr ⟨rfl, ih⟩

/-- The end of a trimmed text is trimmed. -/
theorem trimEnd_of_append {first second : Text} (h : trimEnd (first ++ second) = first ++ second) :
    trimEnd second = second := by
  rw [trimEnd_append] at h
  split at h
  · have hlength := (trimEnd_isPrefix first).length_le
    rw [h, List.length_append] at hlength
    have hnil : second = [] := List.length_eq_zero_iff.mp (by omega)
    rw [hnil]
    rfl
  · exact List.append_cancel_left h

/-- A run of characters that are not blank is not touched by trimming the end. -/
theorem takeWhile_trimEnd {p : Char → Bool} (hp : ∀ c, p c = true → isBlank c = false)
    (text : Text) : (trimEnd text).takeWhile p = text.takeWhile p := by
  induction text with
  | nil => rfl
  | cons c text ih =>
    cases hc : p c with
    | true => rw [trimEnd_cons_of_not_blank (hp c hc)]; simp [hc, ih]
    | false => rw [trimEnd_cons]; split <;> simp [hc]

/-- Trimming the end after a run of characters that are not blank. -/
theorem dropWhile_trimEnd {p : Char → Bool} (hp : ∀ c, p c = true → isBlank c = false)
    (text : Text) : (trimEnd text).dropWhile p = trimEnd (text.dropWhile p) := by
  induction text with
  | nil => rfl
  | cons c text ih =>
    cases hc : p c with
    | true => rw [trimEnd_cons_of_not_blank (hp c hc)]; simp [hc, ih]
    | false =>
      rw [List.dropWhile_cons_of_neg (by simp [hc]), trimEnd_cons]
      split <;> simp [hc]

/-- A trimmed text starts with no blank. -/
theorem trimStart_trim (text : Text) : trimStart (trim text) = trim text := by
  unfold trim trimStart
  cases h : text.dropWhile isBlank with
  | nil => rfl
  | cons c rest =>
    have hc : isBlank c = false := by
      have := List.head?_dropWhile_not isBlank text
      rw [h] at this
      simpa using this
    rw [trimEnd_cons_of_not_blank hc]
    simp [hc]

/-- Trimming twice is trimming once. -/
@[simp]
theorem trim_trim (text : Text) : trim (trim text) = trim text := by
  calc trim (trim text) = trimEnd (trimStart (trim text)) := rfl
    _ = trimEnd (trim text) := by rw [trimStart_trim]
    _ = trim text := trimEnd_trimEnd _

/-- The end of a trimmed text is trimmed already. -/
@[simp]
theorem trimEnd_trim (text : Text) : trimEnd (trim text) = trim text := trimEnd_trimEnd _

/-- Trimming takes characters away only. -/
theorem trim_subset (text : Text) : trim text ⊆ text :=
  List.Subset.trans (trimEnd_isPrefix _).subset (List.dropWhile_suffix _).subset

/-- Lines of which the first goes on from a text that stands before it. -/
def continueLine (start : Text) : List Text → List Text
  | [] => if start.isEmpty then [] else [start]
  | line :: more => (start ++ line) :: more

/-- Nothing stands before the first line. -/
@[simp]
theorem continueLine_nil (lines : List Text) : continueLine [] lines = lines := by
  cases lines <;> rfl

/-- A text before the first line can be put there in two parts. -/
theorem continueLine_append (first second : Text) (lines : List Text) (h : second ≠ []) :
    continueLine (first ++ second) lines = continueLine first (continueLine second lines) := by
  cases lines <;> simp [continueLine, h]

/-- A line feed ends a line. -/
theorem lines_lineFeed (rest : Text) : lines ('\n' :: rest) = [] :: lines rest := by
  rw [lines]
  · rfl
  · exact fun _ h => absurd h (by decide)

/-- A carriage return before a line feed ends a line together with it. -/
theorem lines_returnFeed (rest : Text) : lines ('\r' :: '\n' :: rest) = [] :: lines rest := rfl

/-- A character that ends no line stands in the first line. -/
theorem lines_cons {c : Char} (h : isLineEnd c = false) (rest : Text) :
    lines (c :: rest) = continueLine [c] (lines rest) := by
  rw [lines]
  · rw [if_neg (by simp [h])]
    cases lines rest <;> rfl
  · rintro rest rfl
    exact absurd h (by decide)

/-- Only the empty text has no lines. -/
theorem lines_eq_nil_iff {text : Text} : lines text = [] ↔ text = [] := by
  fun_cases lines text <;> simp_all

/-- A line end ends a line, unless it is a carriage return and a line feed follows. -/
theorem lines_cons_lineEnd {c : Char} (h : isLineEnd c = true) {rest : Text}
    (hpair : c = '\r' → rest.head? ≠ some '\n') : lines (c :: rest) = [] :: lines rest := by
  rw [lines, if_pos h]
  rintro after rfl rfl
  exact hpair rfl rfl

/-- Two line feeds end the lines of a text and leave an empty line at least behind them. -/
theorem lines_append_lineFeeds (first second : Text) :
    ∃ n, lines (first ++ '\n' :: '\n' :: second) =
      lines first ++ List.replicate n [] ++ [] :: lines second := by
  fun_induction lines first with
  | case1 => exact ⟨1, by rw [List.nil_append, lines_lineFeed, lines_lineFeed]; rfl⟩
  | case2 rest ih =>
    obtain ⟨n, hn⟩ := ih
    exact ⟨n, by rw [List.cons_append, List.cons_append, lines_returnFeed, hn]; rfl⟩
  | case3 c rest hpair hc ih =>
    -- A carriage return at the end goes together with the first of the line feeds.
    by_cases hreturn : c = '\r' ∧ rest = []
    · obtain ⟨rfl, rfl⟩ := hreturn
      exact ⟨0, by rw [List.singleton_append, lines_returnFeed, lines_lineFeed]; rfl⟩
    · obtain ⟨n, hn⟩ := ih
      refine ⟨n, ?_⟩
      rw [List.cons_append, lines_cons_lineEnd hc, hn]
      · rfl
      · rintro rfl
        cases rest with
        | nil => exact absurd ⟨rfl, rfl⟩ hreturn
        | cons d rest =>
          intro hd
          obtain rfl := Option.some.inj hd
          exact hpair rest rfl rfl
  | case4 c rest hpair hc hlines ih =>
    obtain rfl := lines_eq_nil_iff.mp hlines
    have hline : isLineEnd c = false := by simpa using hc
    refine ⟨0, ?_⟩
    rw [List.singleton_append, lines_cons hline, lines_lineFeed, lines_lineFeed]
    rfl
  | case5 c rest hpair hc line more hlines ih =>
    obtain ⟨n, hn⟩ := ih
    have hline : isLineEnd c = false := by simpa using hc
    refine ⟨n, ?_⟩
    rw [List.cons_append, lines_cons hline, hn, hlines]
    rfl

/-- One line before a line feed is the first line. -/
theorem lines_append_lineFeed {line : Text} (h : isOneLine line = true) (rest : Text) :
    lines (line ++ '\n' :: rest) = line :: lines rest := by
  induction line with
  | nil => exact lines_lineFeed rest
  | cons c line ih =>
    rw [isOneLine_cons, Bool.and_eq_true, Bool.not_eq_true'] at h
    rw [List.cons_append, lines_cons h.1, ih h.2]
    rfl

/-- Lines with a line feed behind each of them are the lines of the whole. -/
theorem lines_flatMap_lineFeed {all : List Text} (h : ∀ line ∈ all, isOneLine line = true) :
    lines (all.flatMap fun line => line ++ ['\n']) = all := by
  induction all with
  | nil => rfl
  | cons line rest ih =>
    obtain ⟨hline, hrest⟩ := List.forall_mem_cons.mp h
    rw [List.flatMap_cons, List.append_assoc, List.singleton_append, lines_append_lineFeed hline,
      ih hrest]

/-- Every line end of the text is a line feed or a carriage return before one. -/
def hasPlainEnds : Text → Bool
  | [] => true
  | '\r' :: '\n' :: rest => hasPlainEnds rest
  | c :: rest => (c == '\n' || !isLineEnd c) && hasPlainEnds rest

/-- A text with plain ends is made of line feeds, of carriage returns with a line feed, and of
characters that end no line. -/
theorem hasPlainEnds_induction {motive : Text → Prop} (nil : motive [])
    (lineFeed : ∀ rest, hasPlainEnds rest = true → motive rest → motive ('\n' :: rest))
    (returnFeed : ∀ rest, hasPlainEnds rest = true → motive rest →
      motive ('\r' :: '\n' :: rest))
    (inLine : ∀ c rest, isLineEnd c = false → hasPlainEnds rest = true → motive rest →
      motive (c :: rest))
    (text : Text) (h : hasPlainEnds text = true) : motive text := by
  induction text using hasPlainEnds.induct with
  | case1 => exact nil
  | case2 rest ih => exact returnFeed rest h (ih h)
  | case3 c rest hother ih =>
    rw [hasPlainEnds] at h
    · simp only [Bool.and_eq_true, Bool.or_eq_true, beq_iff_eq, Bool.not_eq_true'] at h
      obtain ⟨rfl | hend, hrest⟩ := h
      · exact lineFeed rest hrest (ih hrest)
      · exact inLine c rest hend hrest (ih hrest)
    · exact hother

/-- A text whose line ends are line feeds alone has plain ends. -/
theorem hasPlainEnds_of_forall {text : Text} (h : ∀ c ∈ text, c = '\n' ∨ isLineEnd c = false) :
    hasPlainEnds text = true := by
  induction text using hasPlainEnds.induct with
  | case1 => rfl
  | case2 rest ih => exact absurd (h '\r' (by simp)) (by decide)
  | case3 c rest hother ih =>
    rw [hasPlainEnds]
    · have hc := h c (by simp)
      have hrest := ih fun d hd => h d (List.mem_cons_of_mem _ hd)
      simpa [hrest] using hc
    · exact hother

/-- No line holds a line end. -/
theorem isOneLine_of_mem_lines {text line : Text} (h : line ∈ lines text) :
    isOneLine line = true := by
  fun_induction lines text generalizing line with
  | case1 => simp at h
  | case2 rest ih =>
    rcases List.mem_cons.mp h with rfl | h
    · rfl
    · exact ih h
  | case3 c rest _ _ ih =>
    rcases List.mem_cons.mp h with rfl | h
    · rfl
    · exact ih h
  | case4 c rest _ hc _ _ =>
    obtain rfl := List.mem_singleton.mp h
    simpa using hc
  | case5 c rest _ hc first more hlines ih =>
    rw [hlines] at ih
    rcases List.mem_cons.mp h with rfl | h
    · simpa [ih (List.mem_cons_self ..)] using hc
    · exact ih (List.mem_cons_of_mem _ h)

/-- Making all line ends line feeds changes no line. -/
theorem lines_unifyNewlines (text : Text) : lines (unifyNewlines text) = lines text := by
  fun_induction unifyNewlines text with
  | case1 => rfl
  | case2 rest ih => rw [lines_lineFeed, lines_returnFeed, ih]
  | case3 rest hother ih =>
    rw [lines_lineFeed, ih, lines]
    · rfl
    · exact fun after _ h => hother after h
  | case4 c rest hpair hreturn ih =>
    have hc : c ≠ '\r' := hreturn
    rw [lines, lines, ih]
    · exact fun after h => absurd h hc
    · exact fun after h => absurd h hc

/-- Plain line ends made line feeds are line feeds alone. -/
theorem hasPlainEnds_unifyNewlines {text : Text} (h : hasPlainEnds text = true) :
    hasPlainEnds (unifyNewlines text) = true := by
  apply hasPlainEnds_of_forall
  refine hasPlainEnds_induction
    (motive := fun text => ∀ c ∈ unifyNewlines text, c = '\n' ∨ isLineEnd c = false)
    ?_ ?_ ?_ ?_ text h
  · simp [unifyNewlines]
  · intro rest _ ih
    simpa [unifyNewlines] using ih
  · intro rest _ ih
    simpa [unifyNewlines] using ih
  · intro c rest hc _ ih
    have hreturn : c ≠ '\r' := by rintro rfl; exact absurd hc (by decide)
    rw [unifyNewlines]
    · simpa [hc] using ih
    · exact fun _ h => absurd h hreturn
    · exact hreturn

section Pieces

variable {separator : Char} {text : Text}

/-- The pieces of a text are one more than the separators between them. -/
theorem length_splitAt (separator : Char) (text : Text) :
    (splitAt separator text).length = text.count separator + 1 := by
  induction text with
  | nil => rfl
  | cons c rest ih =>
    rw [splitAt]
    split
    · rename_i heq
      rw [List.length_cons, ih, heq, List.count_cons_self]
    · rename_i hne
      split
      · simp_all
      · simp_all

/-- A text without separators is one piece. -/
theorem splitAt_of_notMem (h : separator ∉ text) : splitAt separator text = [text] := by
  induction text with
  | nil => rfl
  | cons c rest ih =>
    rw [List.mem_cons, not_or] at h
    rw [splitAt, if_neg (Ne.symm h.1), ih h.2]

/-- A text is its first piece and the others, each behind a separator. No piece has a separator in
it. -/
theorem exists_splitAt (separator : Char) (text : Text) :
    ∃ first rest, splitAt separator text = first :: rest ∧
      text = first ++ rest.flatMap (separator :: ·) ∧
      separator ∉ first ∧ ∀ piece ∈ rest, separator ∉ piece := by
  induction text with
  | nil => exact ⟨[], [], rfl, rfl, List.not_mem_nil, fun _ hmem => absurd hmem List.not_mem_nil⟩
  | cons c text ih =>
    obtain ⟨first, rest, hsplit, htext, hfirst, hrest⟩ := ih
    by_cases hc : c = separator
    · refine ⟨[], first :: rest, ?_, ?_, List.not_mem_nil, List.forall_mem_cons.mpr ⟨hfirst, hrest⟩⟩
      · rw [splitAt, if_pos hc, hsplit]
      · rw [List.nil_append, List.flatMap_cons, List.cons_append, ← htext, hc]
    · refine ⟨c :: first, rest, ?_, ?_, ?_, hrest⟩
      · rw [splitAt, if_neg hc, hsplit]
      · rw [List.cons_append, ← htext]
      · rw [List.mem_cons, not_or]
        exact ⟨Ne.symm hc, hfirst⟩

/-- A separator behind a piece stands behind the whole piece. -/
theorem append_eq_append_cons_iff (h : separator ∉ text) {rest before after : Text} :
    text ++ rest = before ++ separator :: after ↔
      ∃ more, before = text ++ more ∧ rest = more ++ separator :: after := by
  constructor
  · intro heq
    rcases List.append_eq_append_iff.mp heq with ⟨more, rfl, hrest⟩ | ⟨more, rfl, hafter⟩
    · exact ⟨more, rfl, hrest⟩
    · cases more with
      | nil => exact ⟨[], by simp, by simpa using hafter.symm⟩
      | cons c more =>
        obtain rfl := (List.cons.inj hafter).1
        exact absurd (List.mem_append_right before (List.mem_cons_self ..)) h
  · rintro ⟨more, rfl, rfl⟩
    rw [List.append_assoc]

end Pieces
end EnvFiles.Text
