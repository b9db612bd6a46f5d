import EnvFiles.Proofs.Comment.Directive

/-!
# Which requirement level a comment gets

A requirement tag is the word of a level in brackets, written with characters that stand for its
letters when case is ignored. The first one in a comment gives the level, and a comment without one
is optional. A dotless small i and a capital I with dot stand for the letter i, but the small form
of a tag written with one of them is the word of no level, so a comment is not read if its first
requirement tag is written so.
-/

namespace EnvFiles

open Text

/-- What is related to two lists one after the other is one part for each of them. -/
theorem forall₂_append_left_iff {α β : Type} {r : α → β → Prop} {first second : List α}
    {whole : List β} :
    List.Forall₂ r (first ++ second) whole ↔
      ∃ start rest, List.Forall₂ r first start ∧ List.Forall₂ r second rest ∧
        whole = start ++ rest := by
  constructor
  · intro h
    have hflip : List.Forall₂ (flip r) whole (first ++ second) := List.Forall₂.flip h
    exact ⟨whole.take first.length, whole.drop first.length,
      (List.forall₂_take_append _ _ _ hflip).flip, (List.forall₂_drop_append _ _ _ hflip).flip,
      (List.take_append_drop ..).symm⟩
  · rintro ⟨start, rest, hstart, hrest, rfl⟩
    exact List.rel_append hstart hrest

/-- A word in brackets covers what meets it, in brackets. -/
theorem foldedStart?_bracketed {word text covered rest : Text} :
    foldedStart? ("[" ++ word ++ "]") text = some (covered, rest) ↔
      ∃ held, List.Forall₂ (fun p c => sameLetter p c = true) word held ∧
        covered = bracketed held ∧ text = bracketed held ++ rest := by
  rw [foldedStart?_eq_some_iff]
  change List.Forall₂ _ ('[' :: (word ++ [']'])) covered ∧ _ ↔ _
  simp only [List.forall₂_cons_left_iff, forall₂_append_left_iff, List.forall₂_nil_left_iff,
    sameLetter_bracket_iff (Or.inl rfl), sameLetter_bracket_iff (Or.inr rfl)]
  constructor
  · rintro ⟨⟨_, _, rfl, ⟨held, _, hmeets, ⟨_, _, rfl, rfl, rfl⟩, rfl⟩, rfl⟩, rfl⟩
    exact ⟨held, hmeets, rfl, rfl⟩
  · rintro ⟨held, hmeets, rfl, rfl⟩
    exact ⟨⟨_, _, rfl, ⟨held, _, hmeets, ⟨_, _, rfl, rfl, rfl⟩, rfl⟩, rfl⟩, rfl⟩

section Written

/-- A word written with characters that stand for the letters of a level's word. -/
def Requirement.WrittenAs (level : Requirement) (spelling : Text) : Prop :=
  List.Forall₂ StandsFor level.word spelling

/-- Words of levels are small ASCII letters other than k and s. -/
theorem plain_of_mem_word (level : Requirement) : ∀ c ∈ level.word,
    c.toNat < 128 ∧ c.toLower = c ∧ c ≠ 'k' ∧ c ≠ 's' ∧ c ≠ '[' ∧ c ≠ ']' := by
  have hall : level.word.all (fun c => c.toNat < 128 && c.toLower == c && c != 'k' && c != 's' &&
      c != '[' && c != ']') = true := by
    cases level <;> decide +kernel
  simpa [and_assoc] using hall

variable {level : Requirement} {spelling : Text}

/-- When case is ignored, a level's word is met by what it can be written as. -/
theorem forall₂_sameLetter_word : List.Forall₂ (fun p c => sameLetter p c = true) level.word
    spelling ↔ level.WrittenAs spelling := by
  have hplain := plain_of_mem_word level
  unfold Requirement.WrittenAs
  generalize level.word = word at hplain
  induction word generalizing spelling with
  | nil => rw [List.forall₂_nil_left_iff, List.forall₂_nil_left_iff]
  | cons p word ih =>
    obtain ⟨⟨hascii, hsmall, hk, hs, -⟩, hrest⟩ := List.forall_mem_cons.mp hplain
    simp only [List.forall₂_cons_left_iff, sameLetter_iff_standsFor hascii hsmall hk hs,
      ih hrest]

/-- Every character of a spelling stands for a letter of the word. -/
theorem Requirement.WrittenAs.exists_standsFor (h : level.WrittenAs spelling) :
    ∀ c ∈ spelling, ∃ p ∈ level.word, StandsFor p c := by
  unfold Requirement.WrittenAs at h
  generalize level.word = word at h
  induction h with
  | nil => exact fun c hc => absurd hc List.not_mem_nil
  | cons hstands _ ih =>
    refine List.forall_mem_cons.mpr ⟨⟨_, List.mem_cons_self .., hstands⟩, fun c hc => ?_⟩
    obtain ⟨p, hp, hp'⟩ := ih c hc
    exact ⟨p, List.mem_cons_of_mem _ hp, hp'⟩

/-- No bracket stands for a letter of a level's word. -/
theorem Requirement.WrittenAs.isPlain (h : level.WrittenAs spelling) : IsPlain spelling := by
  have hnot {bracket : Char} (hbracket : bracket = '[' ∨ bracket = ']') : bracket ∉ spelling := by
    intro hmem
    obtain ⟨p, hp, hstands⟩ := h.exists_standsFor bracket hmem
    obtain ⟨-, -, -, -, hopen, hclose⟩ := plain_of_mem_word level p hp
    rcases hstands with hlower | ⟨-, hi⟩
    · rcases hbracket with rfl | rfl
      · exact hopen hlower.symm
      · exact hclose hlower.symm
    · rcases hbracket with rfl | rfl <;> exact absurd hi (by decide)
  exact ⟨hnot (Or.inl rfl), hnot (Or.inr rfl)⟩

/-- A level's word in brackets covers what it can be written as, in brackets. -/
theorem foldedStart?_level {text covered rest : Text} :
    foldedStart? ("[" ++ level.word ++ "]") text = some (covered, rest) ↔
      ∃ spelling, level.WrittenAs spelling ∧ covered = bracketed spelling ∧
        text = bracketed spelling ++ rest := by
  simp only [foldedStart?_bracketed, forall₂_sameLetter_word]

/-- What is found as a requirement tag is the word of a level in brackets. -/
theorem exists_of_requirementTag {text : Text} {found : Found Text}
    (h : requirementTag text = some found) :
    ∃ (level : Requirement) (spelling rest : Text), level.WrittenAs spelling ∧
      text = bracketed spelling ++ rest ∧ found = ⟨bracketed spelling, spelling⟩ := by
  obtain ⟨level, -, hlevel⟩ := List.exists_of_findSome?_eq_some h
  obtain ⟨⟨covered, rest⟩, hcovers, rfl⟩ := Option.map_eq_some_iff.mp hlevel
  obtain ⟨spelling, hwritten, rfl, htext⟩ := foldedStart?_level.mp hcovers
  have hmeaning : (bracketed spelling).tail.dropLast = spelling := by simp [bracketed]
  exact ⟨level, spelling, rest, hwritten, htext, congrArg (Found.mk _) hmeaning⟩

/-- A requirement tag is found where the word of a level is written in brackets. -/
theorem requirementTag_eq_some_iff {text : Text} {found : Found Text} :
    requirementTag text = some found ↔
      ∃ (level : Requirement) (spelling rest : Text), level.WrittenAs spelling ∧
        text = bracketed spelling ++ rest ∧ found = ⟨bracketed spelling, spelling⟩ := by
  refine ⟨exists_of_requirementTag, ?_⟩
  rintro ⟨level, spelling, rest, hwritten, rfl, rfl⟩
  have hsome : (requirementTag (bracketed spelling ++ rest)).isSome = true := by
    rw [requirementTag, List.findSome?_isSome_iff]
    refine ⟨level, by cases level <;> decide, ?_⟩
    rw [foldedStart?_level.mpr ⟨spelling, hwritten, rfl, rfl⟩]
    rfl
  -- Whichever level is tried with success, the brackets enclose the same word.
  obtain ⟨found, hfound⟩ := Option.isSome_iff_exists.mp hsome
  obtain ⟨_, spelling', _, hwritten', htext, rfl⟩ := exists_of_requirementTag hfound
  obtain rfl := eq_of_bracketed_append hwritten.isPlain.2 hwritten'.isPlain.2 htext.symm
  exact hfound

/-- A dotless small i or a capital I with dot among the characters of a text. -/
def HasStrangeI (text : Text) : Prop := 'ı' ∈ text ∨ 'İ' ∈ text

/-- The small form of a spelling is the word of the level, unless an i is written as one of the two
characters whose small forms are not ASCII. -/
theorem Requirement.WrittenAs.lower_eq (h : level.WrittenAs spelling)
    (hplain : ¬ HasStrangeI spelling) : lower spelling = level.word := by
  obtain ⟨hdotless, hdotted⟩ := not_or.mp hplain
  have hletters : List.Forall₂ (fun p c => Char.toLower c = p) level.word spelling := by
    refine List.forall₂_iff_zip.mpr ⟨h.length_eq, fun {p c} hmem => ?_⟩
    rcases List.forall₂_zip h hmem with hlower | ⟨-, rfl | rfl⟩
    · exact hlower
    · exact absurd (List.of_mem_zip hmem).2 hdotless
    · exact absurd (List.of_mem_zip hmem).2 hdotted
  have hlower : asciiLower spelling = level.word := by
    rw [← List.forall₂_eq_eq_eq, asciiLower, List.forall₂_map_left_iff]
    exact hletters.flip
  rw [lower_of_ascii (ascii_of_asciiLower fun c hc => ?_), hlower]
  exact (plain_of_mem_word level c (hlower ▸ hc)).1

/-- The small form of a spelling names a level unless an i is written strangely. -/
theorem Requirement.WrittenAs.ofWord?_lower (h : level.WrittenAs spelling)
    (hplain : ¬ HasStrangeI spelling) : Requirement.ofWord? (lower spelling) = some level := by
  rw [h.lower_eq hplain, Requirement.ofWord?_word]

/-- The small form of a text with a strange i names no level. -/
theorem ofWord?_lower_of_hasStrangeI {text : Text} (h : HasStrangeI text) :
    Requirement.ofWord? (lower text) = none := by
  obtain ⟨d, hd, hcode⟩ : ∃ d ∈ lower text, 128 ≤ d.toNat := by
    rcases h with hmem | hmem
    · exact exists_mem_lower (Or.inl rfl) hmem
    · exact exists_mem_lower (Or.inr rfl) hmem
  refine List.find?_eq_none.mpr fun level _ hword => ?_
  rw [← beq_iff_eq.mp hword] at hd
  exact absurd (plain_of_mem_word level d hd).1 (not_lt.mpr hcode)

end Written

/-- The first requirement tag of a comment: a level's word is written in brackets after some text,
and no such tag starts earlier. -/
structure FirstLevelTag (comment before : Text) (level : Requirement) (spelling : Text) : Prop where
  written : level.WrittenAs spelling
  stands : before ++ bracketed spelling <+: comment
  first : ∀ (start : Text) (other : Requirement) (otherSpelling : Text),
    other.WrittenAs otherSpelling → start ++ bracketed otherSpelling <+: comment →
      before.length ≤ start.length

section Finding

variable {comment : Text}

/-- The search for a requirement tag finds the first one. -/
theorem firstMatch_requirementTag_eq_some_iff {found : Found Text} :
    firstMatch requirementTag comment = some found ↔
      ∃ before level spelling, FirstLevelTag comment before level spelling ∧
        found = ⟨bracketed spelling, spelling⟩ := by
  rw [firstMatch_eq_some_iff]
  constructor
  · rintro ⟨before, rest, rfl, hfound, hfirst⟩
    obtain ⟨level, spelling, rest, hwritten, rfl, rfl⟩ := requirementTag_eq_some_iff.mp hfound
    refine ⟨before, level, spelling, ⟨hwritten, ⟨rest, List.append_assoc ..⟩, ?_⟩, rfl⟩
    rintro start other otherSpelling hother ⟨after, hafter⟩
    rw [List.append_assoc] at hafter
    by_contra hlt
    have hnone := hfirst start _ hafter.symm (not_le.mp hlt)
    rw [requirementTag_eq_some_iff.mpr ⟨other, otherSpelling, after, hother, rfl, rfl⟩] at hnone
    cases hnone
  · rintro ⟨before, level, spelling, ⟨hwritten, ⟨rest, rfl⟩, hfirst⟩, rfl⟩
    refine ⟨before, bracketed spelling ++ rest, List.append_assoc .., ?_, ?_⟩
    · exact requirementTag_eq_some_iff.mpr ⟨level, spelling, rest, hwritten, rfl, rfl⟩
    · intro start after hafter hlt
      refine Option.eq_none_iff_forall_ne_some.mpr fun found hfound => ?_
      obtain ⟨other, otherSpelling, rest', hother, rfl, -⟩ := requirementTag_eq_some_iff.mp hfound
      rw [hafter] at hfirst
      exact absurd (hfirst start other otherSpelling hother
        ⟨rest', List.append_assoc ..⟩) (not_le.mpr hlt)

/-- The search for a requirement tag finds nothing when no level's word stands in brackets. -/
theorem firstMatch_requirementTag_eq_none_iff :
    firstMatch requirementTag comment = none ↔
      ∀ (level : Requirement) (spelling : Text), level.WrittenAs spelling →
        ¬ bracketed spelling <:+: comment := by
  rw [firstMatch_eq_none_iff]
  constructor
  · rintro h level spelling hwritten ⟨start, rest, htext⟩
    rw [List.append_assoc] at htext
    have hnone := h start _ htext.symm
    rw [requirementTag_eq_some_iff.mpr ⟨level, spelling, rest, hwritten, rfl, rfl⟩] at hnone
    cases hnone
  · intro h start after htext
    refine Option.eq_none_iff_forall_ne_some.mpr fun found hfound => ?_
    obtain ⟨level, spelling, rest, hwritten, rfl, -⟩ := requirementTag_eq_some_iff.mp hfound
    exact h level spelling hwritten ⟨start, rest, (List.append_assoc ..).trans htext.symm⟩

end Finding

/-- The first requirement tag of a comment is written with a strange i. -/
def Misspelt (comment spelling : Text) : Prop :=
  (∃ before level, FirstLevelTag comment before level spelling) ∧ HasStrangeI spelling

section Misspelt

variable {comment spelling : Text}

/-- A comment whose first requirement tag is misspelt is not read. -/
theorem readComment_of_misspelt (patterns : List DirectivePattern) (h : Misspelt comment spelling) :
    readComment patterns comment = .error (.unknownRequirement (lower spelling)) := by
  obtain ⟨⟨before, level, hfirst⟩, hstrange⟩ := h
  have hfound := firstMatch_requirementTag_eq_some_iff.mpr ⟨before, level, spelling, hfirst, rfl⟩
  rw [readComment_of_some hfound, ofWord?_lower_of_hasStrangeI hstrange]

end Misspelt

end EnvFiles
