import EnvFiles.Proofs.Text.Lines
import EnvFiles.Values.Rewrite

/-!
# Two readers of assignment lines

A values file is read line by line with blanks cut off at both ends, and rewritten on its raw
lines. `AssignmentLine` is what both recognise: blanks, a name, spaces and tabs, an equals sign
and a value. The rewriter takes exactly these lines for assignments. The reader takes them for
assignments of the same names, and no others as long as only spaces and tabs stand between a
name and its equals sign.
-/

namespace EnvFiles

/-- A run of characters of one kind ends where the next character is of another. -/
theorem takeWhile_append_stop {p : Char → Bool} {run rest : Text} (hrun : ∀ c ∈ run, p c = true)
    (hstop : ∀ c, rest.head? = some c → p c = false) :
    (run ++ rest).takeWhile p = run ∧ (run ++ rest).dropWhile p = rest := by
  rw [List.takeWhile_append_of_pos hrun, List.dropWhile_append_of_pos hrun]
  cases rest with
  | nil => simp
  | cons c rest => simp [hstop c rfl]

/-- The codes of the characters that continue a name, from the digits to the small letters. -/
theorem toNat_of_isNameChar {c : Char} (h : isNameChar c = true) :
    48 ≤ c.toNat ∧ c.toNat ≤ 122 := by
  change ((decide ('A'.val ≤ c.val ∧ c.val ≤ 'Z'.val) ||
    (decide ('a'.val ≤ c.val) && decide (c.val ≤ 'z'.val))) ||
    (decide ('0'.val ≤ c.val) && decide (c.val ≤ '9'.val)) || c == '_') = true at h
  simp only [Bool.or_eq_true, Bool.and_eq_true, decide_eq_true_eq, beq_iff_eq,
    UInt32.le_iff_toNat_le] at h
  change (((65 ≤ c.toNat ∧ c.toNat ≤ 90) ∨ 97 ≤ c.toNat ∧ c.toNat ≤ 122) ∨
    48 ≤ c.toNat ∧ c.toNat ≤ 57) ∨ c = '_' at h
  rcases h with h | rfl
  · omega
  · decide

/-- Characters that continue a name are not blank. -/
theorem isBlank_of_isNameChar {c : Char} (h : isNameChar c = true) :
    Text.isBlank c = false := by
  have hcode := toNat_of_isNameChar h
  rw [← Bool.not_eq_true]
  simp only [Text.isBlank, Bool.or_eq_true, Bool.and_eq_true, decide_eq_true_eq, beq_iff_eq]
  omega

/-- A character that starts a name can continue one. -/
theorem isNameChar_of_isNameStart {c : Char} (h : isNameStart c = true) : isNameChar c = true := by
  simp only [isNameStart, isNameChar, Char.isAlphanum, Bool.or_eq_true] at h ⊢
  exact h.imp_left Or.inl

/-- Spaces and tabs are blank. -/
theorem isBlank_of_isGap {c : Char} (h : isGap c = true) : Text.isBlank c = true := by
  simp only [isGap, Bool.or_eq_true, beq_iff_eq] at h
  rcases h with rfl | rfl <;> decide

/-- Every character of a name can continue a name. -/
theorem isNameChar_of_isName {name : Text} (h : isName name = true) :
    ∀ c ∈ name, isNameChar c = true := by
  cases name with
  | nil => simp
  | cons c rest =>
    simp only [isName, Bool.and_eq_true, List.all_eq_true] at h
    simpa using ⟨isNameChar_of_isNameStart h.1, h.2⟩

/-- A name is one line. -/
theorem isOneLine_of_isName {name : Text} (h : isName name = true) :
    Text.isOneLine name = true := by
  rw [Text.isOneLine_iff]
  intro c hc
  cases hend : Text.isLineEnd c with
  | false => rfl
  | true =>
    have hblank := isBlank_of_isNameChar (isNameChar_of_isName h c hc)
    rw [Text.isBlank_of_isLineEnd hend] at hblank
    exact absurd hblank (by decide)

/-- The name at the start of a text is as long as it can be. -/
theorem takeName?_eq_some_iff {text name rest : Text} :
    takeName? text = some (name, rest) ↔
      text = name ++ rest ∧ isName name = true ∧
        ∀ c, rest.head? = some c → isNameChar c = false := by
  constructor
  · intro h
    cases text with
    | nil => simp [takeName?] at h
    | cons first tail =>
      rw [takeName?] at h
      split at h
      · rename_i hfirst
        simp only [Option.some.injEq, Prod.mk.injEq] at h
        obtain ⟨rfl, rfl⟩ := h
        refine ⟨by simp, ?_, ?_⟩
        · simp [isName, hfirst]
        · intro c hc
          have hstop := List.head?_dropWhile_not isNameChar tail
          rw [hc] at hstop
          simpa using hstop
      · simp at h
  · rintro ⟨rfl, hname, hstop⟩
    cases name with
    | nil => simp [isName] at hname
    | cons first tail =>
      simp only [isName, Bool.and_eq_true, List.all_eq_true] at hname
      obtain ⟨htake, hdrop⟩ := takeWhile_append_stop hname.2 hstop
      simp [takeName?, hname.1, htake, hdrop]

/-- A name at the start of a text is not touched by trimming the end. -/
theorem takeName?_trimEnd {text name rest : Text} (h : takeName? text = some (name, rest)) :
    takeName? (Text.trimEnd text) = some (name, Text.trimEnd rest) := by
  have hnot : ∀ c, isNameChar c = true → Text.isBlank c = false := fun c =>
    isBlank_of_isNameChar
  cases text with
  | nil => simp [takeName?] at h
  | cons first tail =>
    rw [takeName?] at h
    split at h
    · rename_i hfirst
      simp only [Option.some.injEq, Prod.mk.injEq] at h
      obtain ⟨rfl, rfl⟩ := h
      rw [Text.trimEnd_cons_of_not_blank (hnot _ (isNameChar_of_isNameStart hfirst)), takeName?,
        if_pos hfirst, Text.takeWhile_trimEnd hnot, Text.dropWhile_trimEnd hnot]
    · simp at h

/-- A text that starts with a name is no comment. -/
theorem isComment_of_takeName? {text : Text} {found : Text × Text}
    (h : takeName? text = some found) : isComment text = false := by
  cases text with
  | nil => rfl
  | cons first tail =>
    have hfirst : isNameStart first = true := by
      by_contra hnot
      simp [takeName?, hnot] at h
    have hne : first ≠ '#' := by
      rintro rfl
      exact absurd hfirst (by decide)
    simpa [isComment] using hne

/-- What the reader of values files makes of a line. -/
def declared? (line : Text) : Option (Text × Text) :=
  if isComment (Text.trim line) then none else assignment? (Text.trim line)

/-- The reader takes a line for an assignment when an equals sign follows its name. -/
theorem declared?_eq_some_iff {line name value : Text} :
    declared? line = some (name, value) ↔
      ∃ rest, takeName? (Text.trim line) = some (name, rest) ∧
        rest.dropWhile Text.isBlank = '=' :: value ∧ '\n' ∉ value := by
  constructor
  · intro h
    rw [declared?] at h
    split at h
    · simp at h
    · rw [assignment?, Text.trim_trim] at h
      split at h
      · simp at h
      · rename_i found rest htake
        split at h
        · rename_i value' hdrop
          split at h
          · simp at h
          · rename_i hfeed
            simp only [Option.some.injEq, Prod.mk.injEq] at h
            obtain ⟨rfl, rfl⟩ := h
            exact ⟨rest, htake, hdrop, by simpa using hfeed⟩
        · simp at h
  · rintro ⟨rest, htake, hdrop, hfeed⟩
    rw [declared?, isComment_of_takeName? htake, assignment?, Text.trim_trim, htake]
    simp [hdrop, hfeed]

/-- An empty line declares nothing. -/
@[simp]
theorem declared?_nil : declared? [] = none := by decide

/-- What a line declares is a name. -/
theorem isName_of_declared? {line name value : Text} (h : declared? line = some (name, value)) :
    isName name = true := by
  obtain ⟨rest, htake, -, -⟩ := declared?_eq_some_iff.mp h
  exact (takeName?_eq_some_iff.mp htake).2.1

/-- The trimmed line ends with the value that it declares. -/
theorem exists_trim_eq_of_declared? {line name value : Text}
    (h : declared? line = some (name, value)) : ∃ before, Text.trim line = before ++ value := by
  obtain ⟨rest, htake, hdrop, -⟩ := declared?_eq_some_iff.mp h
  refine ⟨name ++ (rest.takeWhile Text.isBlank ++ ['=']), ?_⟩
  rw [(takeName?_eq_some_iff.mp htake).1]
  conv_lhs => rw [← List.takeWhile_append_dropWhile (p := Text.isBlank) (l := rest), hdrop]
  simp

/-- A declared value has no blanks at its end. -/
theorem trimEnd_of_declared? {line name value : Text} (h : declared? line = some (name, value)) :
    Text.trimEnd value = value := by
  obtain ⟨before, htrim⟩ := exists_trim_eq_of_declared? h
  exact Text.trimEnd_of_append (by rw [← htrim, Text.trimEnd_trim])

/-- A declared value is part of its line. -/
theorem subset_of_declared? {line name value : Text} (h : declared? line = some (name, value)) :
    value ⊆ line := by
  obtain ⟨before, htrim⟩ := exists_trim_eq_of_declared? h
  refine List.Subset.trans ?_ (Text.trim_subset line)
  rw [htrim]
  exact List.subset_append_right _ _

/-- The parts of a line that assigns a value to a name. -/
structure AssignmentLine where
  indent : Text
  name : Text
  gap : Text
  value : Text
  isBlank_indent : ∀ c ∈ indent, Text.isBlank c = true
  isName_name : isName name = true
  isGap_gap : ∀ c ∈ gap, isGap c = true

namespace AssignmentLine

/-- The line of the parts. -/
def text (line : AssignmentLine) : Text :=
  line.indent ++ (line.name ++ (line.gap ++ '=' :: line.value))

/-- The line up to its value: a rewrite keeps the spaces and tabs after the equals sign. -/
def start (line : AssignmentLine) : Text :=
  line.indent ++ (line.name ++ (line.gap ++ '=' :: line.value.takeWhile isGap))

/-- The line with another value. -/
def withValue (line : AssignmentLine) (value : Text) : AssignmentLine := { line with value }

/-- The line that a rewrite adds for an entry: neither indentation nor gap. -/
def ofEntry (entry : Text × Text) (h : isName entry.1 = true) : AssignmentLine where
  indent := []
  name := entry.1
  gap := []
  value := entry.2
  isBlank_indent := by simp
  isName_name := h
  isGap_gap := by simp

/-- The text of the line for an entry. -/
theorem text_ofEntry {entry : Text × Text} (h : isName entry.1 = true) :
    (ofEntry entry h).text = entry.1 ++ ['='] ++ entry.2 := by simp [text, ofEntry]

/-- What follows the name does not continue it. -/
theorem gap_stop (line : AssignmentLine) (value : Text) :
    ∀ c, (line.gap ++ '=' :: value).head? = some c → isNameChar c = false := by
  intro c hc
  cases hgap : line.gap with
  | nil =>
    rw [hgap] at hc
    obtain rfl := Option.some.inj hc
    decide
  | cons d rest =>
    rw [hgap] at hc
    obtain rfl := Option.some.inj hc
    have hd := isBlank_of_isGap (line.isGap_gap d (by simp [hgap]))
    cases hname : isNameChar d with
    | false => rfl
    | true =>
      rw [isBlank_of_isNameChar hname] at hd
      exact absurd hd (by decide)

/-- Behind the indentation stands the name. -/
theorem dropWhile_text (line : AssignmentLine) :
    line.text.takeWhile Text.isBlank = line.indent ∧
      line.text.dropWhile Text.isBlank = line.name ++ (line.gap ++ '=' :: line.value) := by
  apply takeWhile_append_stop line.isBlank_indent
  intro c hc
  cases hname : line.name with
  | nil => exact absurd line.isName_name (by simp [hname, isName])
  | cons first tail =>
    rw [hname] at hc
    obtain rfl := Option.some.inj hc
    exact isBlank_of_isNameChar
      (isNameChar_of_isName line.isName_name first (by simp [hname]))

/-- The name is found behind the indentation. -/
theorem takeName?_text (line : AssignmentLine) :
    takeName? (line.text.dropWhile Text.isBlank) =
      some (line.name, line.gap ++ '=' :: line.value) := by
  rw [line.dropWhile_text.2]
  exact takeName?_eq_some_iff.mpr ⟨rfl, line.isName_name, line.gap_stop line.value⟩

/-- The name stands at the start of the trimmed line. -/
theorem takeName?_trim (line : AssignmentLine) :
    takeName? (Text.trim line.text) =
      some (line.name, line.gap ++ '=' :: Text.trimEnd line.value) := by
  have h := takeName?_trimEnd line.takeName?_text
  rwa [Text.trimEnd_append_cons (by decide)] at h

/-- The rewriter recognises the line. -/
theorem assignedPart?_text (line : AssignmentLine) :
    assignedPart? line.text = some (line.name, line.start) := by
  have hstop : ∀ c, ('=' :: line.value).head? = some c → isGap c = false := by
    intro c hc
    obtain rfl := Option.some.inj hc
    decide
  have hgap := takeWhile_append_stop line.isGap_gap hstop
  rw [assignedPart?, isComment_of_takeName? line.takeName?_trim]
  simp only [Bool.false_eq_true, if_false, line.takeName?_text, hgap.2, hgap.1,
    line.dropWhile_text.1]
  simp [start]

/-- The reader recognises the line and gives it the value without blanks at its end. -/
theorem declared?_text (line : AssignmentLine) (h : '\n' ∉ line.value) :
    declared? line.text = some (line.name, Text.trimEnd line.value) := by
  refine declared?_eq_some_iff.mpr ⟨_, line.takeName?_trim, ?_, ?_⟩
  · exact (takeWhile_append_stop (fun c hc => isBlank_of_isGap (line.isGap_gap c hc))
      (by rintro c hc; obtain rfl := Option.some.inj hc; decide)).2
  · exact fun hmem => h ((Text.trimEnd_isPrefix _).subset hmem)

/-- The line is its start and what follows the spaces and tabs after the equals sign. -/
theorem start_append (line : AssignmentLine) (value : Text) :
    line.start ++ value = (line.withValue (line.value.takeWhile isGap ++ value)).text := by
  simp [start, text, withValue]

end AssignmentLine

/-- The rewriter recognises assignment lines only. -/
theorem exists_of_assignedPart? {line name start : Text}
    (h : assignedPart? line = some (name, start)) :
    ∃ parts : AssignmentLine, parts.text = line ∧ parts.name = name ∧ parts.start = start := by
  rw [assignedPart?] at h
  split at h
  · simp at h
  · split at h
    · simp at h
    · rename_i found rest htake
      split at h
      · rename_i value hdrop
        simp only [Option.some.injEq, Prod.mk.injEq] at h
        obtain ⟨rfl, rfl⟩ := h
        obtain ⟨hline, hname, -⟩ := takeName?_eq_some_iff.mp htake
        have hrest : rest.takeWhile isGap ++ '=' :: value = rest := by
          rw [← hdrop, List.takeWhile_append_dropWhile]
        refine ⟨⟨line.takeWhile Text.isBlank, found, rest.takeWhile isGap, value,
          List.all_eq_true.mp List.all_takeWhile, hname,
          List.all_eq_true.mp List.all_takeWhile⟩, ?_, rfl, ?_⟩
        · rw [AssignmentLine.text, hrest, ← hline, List.takeWhile_append_dropWhile]
        · simp [AssignmentLine.start]
      · simp at h

/-- Only spaces and tabs stand between a declared name and its equals sign. -/
def hasPlainGap (line : Text) : Bool :=
  match declared? line, takeName? (Text.trim line) with
  | some _, some (_, rest) => (rest.takeWhile Text.isBlank).all isGap
  | _, _ => true

/-- Lines of the reader with spaces and tabs before the equals sign are assignment lines. -/
theorem exists_of_declared? {line name value : Text} (h : declared? line = some (name, value))
    (hgap : hasPlainGap line = true) :
    ∃ parts : AssignmentLine, parts.text = line ∧ parts.name = name := by
  obtain ⟨rest, htake, hdrop, -⟩ := declared?_eq_some_iff.mp h
  simp only [hasPlainGap, h, htake, List.all_eq_true] at hgap
  obtain ⟨htrim, hname, -⟩ := takeName?_eq_some_iff.mp htake
  have hrest : rest.takeWhile Text.isBlank ++ '=' :: value = rest := by
    rw [← hdrop, List.takeWhile_append_dropWhile]
  obtain ⟨after, hafter⟩ := Text.trimEnd_isPrefix (Text.trimStart line)
  refine ⟨⟨line.takeWhile Text.isBlank, name, rest.takeWhile Text.isBlank, value ++ after,
    List.all_eq_true.mp List.all_takeWhile, hname, hgap⟩, ?_, rfl⟩
  change Text.trim line ++ after = line.dropWhile Text.isBlank at hafter
  calc line.takeWhile Text.isBlank ++
        (name ++ (rest.takeWhile Text.isBlank ++ '=' :: (value ++ after)))
      = line.takeWhile Text.isBlank ++
        ((name ++ (rest.takeWhile Text.isBlank ++ '=' :: value)) ++ after) := by simp
    _ = line.takeWhile Text.isBlank ++ line.dropWhile Text.isBlank := by
        rw [hrest, ← htrim, hafter]
    _ = line := List.takeWhile_append_dropWhile

end EnvFiles
