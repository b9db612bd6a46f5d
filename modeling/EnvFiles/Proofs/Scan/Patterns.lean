import EnvFiles.Proofs.Scan.References
import Mathlib.Data.List.Forall2
import Mathlib.Data.List.Infix

/-!
# All matches of a pattern

A pattern says what a reference consists of: something before the name, the name and something
after it. Wherever it matches with a name it also matches with a part of that name, unless what
comes after says where the name ends, so there is one longest match at a position. Two matches of
one pattern never overlap. So the search from left to right, which goes on behind each match, gives
the longest match at every position at which the pattern matches.
-/

namespace EnvFiles

/-- A pattern of references: what can stand before the name and what can stand after it. -/
structure ReferencePattern where
  before : List Text
  after : List Text
  deriving DecidableEq, Repr

/-- The patterns: a property of the process environment, a quoted key of it and a property of the
module's environment. -/
def referencePatterns : List ReferencePattern := [
  ⟨["process.env."], [""]⟩,
  ⟨["process.env[\"", "process.env['"], ["\"]", "']"]⟩,
  ⟨["import.meta.env."], [""]⟩]

/-- A match on a line: the position where it begins, the name and the text that is matched. -/
structure LineMatch where
  position : Nat
  name : Text
  matched : Text
  deriving DecidableEq, Repr

/-- What is recorded of a match, with the name that it is recorded under. -/
def LineMatch.recordedIn (file : Text) (number : Nat) (item : LineMatch) : Text × Usage :=
  (item.name, ⟨file, number, item.matched⟩)

namespace ReferencePattern

/-- The pattern matches the beginning of a text, with the given name in what is matched. -/
def Matches (pattern : ReferencePattern) (text name matched : Text) : Prop :=
  ∃ start ∈ pattern.before, ∃ close ∈ pattern.after,
    IsReferenceName name ∧ matched = start ++ name ++ close ∧ matched <+: text

/-- No other match at the beginning of the text has a longer name. -/
def LongestMatch (pattern : ReferencePattern) (text name matched : Text) : Prop :=
  pattern.Matches text name matched ∧
    ∀ other more, pattern.Matches text other more → other.length ≤ name.length

/-- The list has one match for each position of a line at which the pattern matches, the one with
the longest name, in the order of the positions; and no two matches of the pattern overlap. -/
structure ListsMatches (pattern : ReferencePattern) (line : Text) (found : List LineMatch) :
    Prop where
  increasing : found.Pairwise fun first second => first.position < second.position
  mem_iff : ∀ item, item ∈ found ↔
    pattern.LongestMatch (line.drop item.position) item.name item.matched
  mem_positions_iff : ∀ position, position ∈ found.map LineMatch.position ↔
    ∃ name matched, pattern.Matches (line.drop position) name matched
  apart : ∀ {first second : Nat} {name matched other more : Text}, first < second →
    pattern.Matches (line.drop first) name matched →
      pattern.Matches (line.drop second) other more → first + matched.length ≤ second

/-- What stands before the name begins with the mark, and the mark does not come again in a
match. -/
def IsMarked (pattern : ReferencePattern) (mark : Char) : Prop :=
  (∀ start ∈ pattern.before, start.head? = some mark ∧ mark ∉ start.tail) ∧
    (∀ close ∈ pattern.after, mark ∉ close) ∧ isReferenceChar mark = false

section Marks

variable {pattern : ReferencePattern} {mark : Char} {line text name matched other more : Text}

/-- Each of the patterns has a mark. -/
theorem exists_mark (h : pattern ∈ referencePatterns) : ∃ mark, pattern.IsMarked mark := by
  simp only [referencePatterns, List.mem_cons, List.not_mem_nil, or_false] at h
  rcases h with rfl | rfl | rfl
  · exact ⟨'p', by unfold IsMarked; decide⟩
  · exact ⟨'p', by unfold IsMarked; decide⟩
  · exact ⟨'i', by unfold IsMarked; decide⟩

/-- In a match the mark comes first and only there. -/
theorem IsMarked.matched_eq (hmark : pattern.IsMarked mark)
    (h : pattern.Matches text name matched) : ∃ tail, matched = mark :: tail ∧ mark ∉ tail := by
  obtain ⟨hbefore, hafter, hchar⟩ := hmark
  obtain ⟨start, hstart, close, hclose, hname, rfl, -⟩ := h
  obtain ⟨hhead, htail⟩ := hbefore start hstart
  obtain ⟨tail, rfl⟩ := List.head?_eq_some_iff.mp hhead
  have hnot : mark ∉ name := fun hmem => by simp [hname.isReferenceChar mark hmem] at hchar
  exact ⟨tail ++ name ++ close, by simp, by simp_all⟩

/-- Two matches of a pattern with a mark do not overlap: the second one would begin with the mark
inside the first one. -/
theorem IsMarked.apart (hmark : pattern.IsMarked mark) {first second : Nat} (hlt : first < second)
    (h : pattern.Matches (line.drop first) name matched)
    (h' : pattern.Matches (line.drop second) other more) : first + matched.length ≤ second := by
  obtain ⟨tail, rfl, hnot⟩ := hmark.matched_eq h
  obtain ⟨tail', rfl, -⟩ := hmark.matched_eq h'
  obtain ⟨-, -, -, -, -, -, rest, hrest⟩ := h
  obtain ⟨-, -, -, -, -, -, rest', hrest'⟩ := h'
  by_contra hoverlap
  obtain ⟨offset, rfl⟩ : ∃ offset, second = first + (offset + 1) :=
    ⟨second - first - 1, by omega⟩
  have hinside : offset < tail.length := by
    rw [List.length_cons] at hoverlap
    omega
  have hsecond : (line.drop first)[offset + 1]? = some mark := by
    rw [← List.head?_drop, List.drop_drop, ← hrest']
    rfl
  rw [← hrest, List.cons_append, List.getElem?_cons_succ,
    List.getElem?_append_left hinside] at hsecond
  exact hnot (List.mem_of_getElem? hsecond)

end Marks
end ReferencePattern

/-- A form finds the longest matches of a pattern, and it finds one wherever the pattern
matches. -/
structure ReferenceForm.Reads (form : ReferenceForm) (pattern : ReferencePattern) : Prop where
  eq_some_iff : ∀ text name matched,
    (∃ rest, form text = some ⟨name, matched, rest⟩) ↔ pattern.LongestMatch text name matched
  exists_eq_some : ∀ text name matched, pattern.Matches text name matched →
    ∃ found, form text = some found

section Forms

variable {form : ReferenceForm} {pattern : ReferencePattern}
  {start text name other matched rest : Text}

/-- A name can go on as long as the characters after it can go on a name. -/
theorem IsReferenceName.append (h : IsReferenceName name)
    (hrest : ∀ c ∈ rest, EnvFiles.isReferenceChar c = true) : IsReferenceName (name ++ rest) := by
  obtain ⟨c, more, rfl, hupper, hmore⟩ := h
  refine ⟨c, more ++ rest, rfl, hupper, fun d hd => ?_⟩
  exact (List.mem_append.mp hd).elim (hmore d) (hrest d)

/-- No name at the beginning of a text is longer than one at which the text stops going on with
it. -/
theorem StopsName.length_le (h : StopsName rest) (hother : IsReferenceName other)
    (hbegins : other <+: name ++ rest) : other.length ≤ name.length := by
  by_contra hlength
  -- A longer name would hold the character at which the shorter one stops.
  obtain ⟨more, rfl⟩ := List.prefix_of_prefix_length_le (List.prefix_append name rest) hbegins
    (by omega)
  rw [List.prefix_append_right_inj] at hbegins
  cases more with
  | nil => simp at hlength
  | cons c more =>
    obtain ⟨last, rfl⟩ := hbegins
    have hchar := hother.isReferenceChar c (by simp)
    rw [h c rfl] at hchar
    cases hchar

/-- The text stops going on with the longest name at its beginning. -/
theorem IsReferenceName.stopsName (h : IsReferenceName name)
    (hlongest : ∀ other, IsReferenceName other → other <+: name ++ rest →
      other.length ≤ name.length) : StopsName rest := by
  intro c hc
  obtain ⟨more, rfl⟩ := List.head?_eq_some_iff.mp hc
  rw [Bool.eq_false_iff]
  intro hchar
  have hlength := hlongest (name ++ [c]) (h.append (by simpa using hchar)) ⟨more, by simp⟩
  rw [List.length_append, List.length_singleton] at hlength
  omega

/-- A property is matched by its start and any beginning of its name. -/
theorem matches_property_iff :
    ReferencePattern.Matches ⟨[start], [""]⟩ text name matched ↔
      IsReferenceName name ∧ matched = start ++ name ∧ matched <+: text := by
  simp [ReferencePattern.Matches]

/-- A property is read with the longest name. -/
theorem reads_propertyForm (start : Text) : (propertyForm start).Reads ⟨[start], [""]⟩ where
  eq_some_iff text name matched := by
    simp only [propertyForm_eq_some_iff, ReferencePattern.LongestMatch, matches_property_iff]
    constructor
    · rintro ⟨rest, hname, hstops, rfl, rfl⟩
      refine ⟨⟨hname, rfl, List.prefix_append _ rest⟩, ?_⟩
      rintro other _ ⟨hother, rfl, hbegins⟩
      rw [List.append_assoc, List.prefix_append_right_inj] at hbegins
      exact hstops.length_le hother hbegins
    · rintro ⟨⟨hname, rfl, rest, rfl⟩, hlongest⟩
      refine ⟨rest, hname, hname.stopsName fun other hother hbegins => ?_, rfl, rfl⟩
      refine hlongest other (start ++ other) ⟨hother, rfl, ?_⟩
      rwa [List.append_assoc, List.prefix_append_right_inj]
  exists_eq_some text name matched h := by
    obtain ⟨hname, rfl, rest, rfl⟩ := matches_property_iff.mp h
    let longest := name ++ rest.takeWhile isReferenceChar
    refine ⟨⟨longest, start ++ longest, rest.dropWhile isReferenceChar⟩,
      propertyForm_eq_some_iff.mpr ⟨?_, fun c hc => ?_, rfl, ?_⟩⟩
    · exact hname.append fun c hc => List.mem_takeWhile_imp hc
    · have hnot := List.head?_dropWhile_not isReferenceChar rest
      rw [hc] at hnot
      simpa using hnot
    · simp [longest, List.append_assoc, List.takeWhile_append_dropWhile]

/-- A key is matched as it is read. -/
theorem matches_key_iff :
    ReferencePattern.Matches ⟨[start ++ "[\"", start ++ "['"], ["\"]", "']"]⟩ text name matched ↔
      ∃ rest, keyForm start text = some ⟨name, matched, rest⟩ := by
  simp only [keyForm_eq_some_iff]
  constructor
  · rintro ⟨before, hbefore, after, hafter, hname, rfl, rest, rfl⟩
    refine ⟨rest, hname, ?_⟩
    simp only [List.mem_cons, List.not_mem_nil, or_false] at hbefore hafter
    rcases hbefore with rfl | rfl <;> rcases hafter with rfl | rfl
    · exact ⟨'"', '"', rfl, rfl, by simp, rfl⟩
    · exact ⟨'"', '\'', rfl, rfl, by simp, rfl⟩
    · exact ⟨'\'', '"', rfl, rfl, by simp, rfl⟩
    · exact ⟨'\'', '\'', rfl, rfl, by simp, rfl⟩
  · rintro ⟨rest, hname, opening, closing, hopening, hclosing, rfl, rfl⟩
    refine ⟨start ++ ['[', opening], ?_, [closing, ']'], ?_, hname, by simp, rest, rfl⟩
    · rw [isQuote, Bool.or_eq_true, beq_iff_eq, beq_iff_eq] at hopening
      rcases hopening with rfl | rfl <;> simp
    · rw [isQuote, Bool.or_eq_true, beq_iff_eq, beq_iff_eq] at hclosing
      rcases hclosing with rfl | rfl <;> simp

/-- The name of a key ends at the quote, so there is no other match than the one that is read. -/
theorem reads_keyForm (start : Text) :
    (keyForm start).Reads ⟨[start ++ "[\"", start ++ "['"], ["\"]", "']"]⟩ where
  eq_some_iff text name matched := by
    rw [← matches_key_iff]
    refine ⟨fun h => ⟨h, fun other more hother => ?_⟩, fun h => h.1⟩
    obtain ⟨rest, hread⟩ := matches_key_iff.mp h
    obtain ⟨rest', hread'⟩ := matches_key_iff.mp hother
    rw [hread] at hread'
    simp_all
  exists_eq_some text name matched h := by
    obtain ⟨rest, hread⟩ := matches_key_iff.mp h
    exact ⟨_, hread⟩

/-- Each form reads the pattern at its place. -/
theorem forall₂_reads : List.Forall₂ ReferenceForm.Reads referenceForms referencePatterns :=
  .cons (reads_propertyForm _) (.cons (reads_keyForm "process.env")
    (.cons (reads_propertyForm _) .nil))

/-- What a form finds on a line, as matches of a pattern. -/
def lineMatches (form : ReferenceForm) (line : Text) : List LineMatch :=
  (foundIn form line).map fun item => ⟨item.1, item.2.name, item.2.matched⟩

/-- What is found with a form is listed as the pattern says. -/
theorem ReferenceForm.Reads.listsMatches (h : form.Reads pattern) (hform : form ∈ referenceForms)
    (hpattern : pattern ∈ referencePatterns) (line : Text) :
    pattern.ListsMatches line (lineMatches form line) where
  increasing := List.pairwise_map.mpr (pairwise_foundIn form line)
  mem_iff item := by
    obtain ⟨position, name, matched⟩ := item
    rw [← h.eq_some_iff]
    simp only [lineMatches, List.mem_map, Prod.exists, LineMatch.mk.injEq]
    constructor
    · rintro ⟨_, found, hmem, rfl, rfl, rfl⟩
      exact ⟨found.rest, (mem_foundIn_iff hform).mp hmem⟩
    · rintro ⟨rest, hfound⟩
      exact ⟨position, _, (mem_foundIn_iff hform).mpr hfound, rfl, rfl, rfl⟩
  mem_positions_iff position := by
    simp only [lineMatches, List.map_map, List.mem_map, Prod.exists]
    constructor
    · rintro ⟨_, found, hmem, rfl⟩
      have hlongest := (h.eq_some_iff _ _ _).mp ⟨found.rest, (mem_foundIn_iff hform).mp hmem⟩
      exact ⟨found.name, found.matched, hlongest.1⟩
    · rintro ⟨name, matched, hmatches⟩
      obtain ⟨found, hfound⟩ := h.exists_eq_some _ name matched hmatches
      exact ⟨position, found, (mem_foundIn_iff hform).mpr hfound, rfl⟩
  apart hlt hfirst hsecond := by
    obtain ⟨mark, hmark⟩ := ReferencePattern.exists_mark hpattern
    exact hmark.apart hlt hfirst hsecond

end Forms

/-- The usages on a line are listed pattern by pattern. For each pattern there is exactly one at
every position at which the pattern matches, with the longest name there, and they stand in the
order of their positions. No two matches of a pattern overlap, so none is hidden by an earlier
one. -/
theorem usagesOn_lists_matches (line : Text) (number : Nat) (file : Text) :
    ∃ found : List (List LineMatch),
      List.Forall₂ (fun pattern items => pattern.ListsMatches line items) referencePatterns found ∧
        usagesOn line number file = found.flatten.map (LineMatch.recordedIn file number) := by
  refine ⟨referenceForms.map fun form => lineMatches form line, ?_, ?_⟩
  · rw [List.forall₂_map_right_iff, List.forall₂_iff_zip]
    refine ⟨rfl, fun hmem => ?_⟩
    have hreads := (List.forall₂_iff_zip.mp forall₂_reads.flip).2 hmem
    obtain ⟨hpattern, hform⟩ := List.of_mem_zip hmem
    exact hreads.listsMatches hform hpattern line
  · rw [usagesOn, List.map_flatten, List.map_map, List.flatMap_def]
    refine congrArg List.flatten (List.map_congr_left fun form hform => ?_)
    obtain ⟨mark, hmark⟩ := exists_isMarked hform
    rw [referencesFrom_eq hmark 0 line (by simp)]
    simp [lineMatches, LineMatch.recordedIn, Function.comp_def]

/-- A reference right behind another one and a start that is written twice hide nothing. -/
example : usagesOn "process.env.Aprocess.env.process.env.B2c" 1 "a.ts" =
    [(("A" : Text), ⟨"a.ts", 1, "process.env.A"⟩),
      (("B2" : Text), ⟨"a.ts", 1, "process.env.B2"⟩)] := by
  decide

end EnvFiles
