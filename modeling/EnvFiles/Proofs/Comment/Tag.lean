import EnvFiles.Proofs.Text.Case
import EnvFiles.Proofs.Text.Parts
import Mathlib.Data.List.Forall2

/-!
# Written tags and what each pattern makes of them

A tag is written as its keyword in some spelling, with arguments after it for some keywords, in
brackets. No keyword is a beginning of another one, so a pattern matches at the start of a written
tag exactly if it is that of the keyword, whatever follows the tag.
-/

namespace EnvFiles

open Text

/-- The keywords of requirement tags and directive tags. -/
inductive TagKeyword
  | required
  | optional
  | deprecated
  | prompt
  | computed
  | copy
  | default
  | boolean
  | localOnly
  | placeholder
  deriving DecidableEq, Repr

namespace TagKeyword

/-- How a keyword is written in small letters. -/
def word : TagKeyword → Text
  | required => "required"
  | optional => "optional"
  | deprecated => "deprecated"
  | prompt => "prompt"
  | computed => "computed"
  | copy => "copy"
  | default => "default"
  | boolean => "boolean"
  | localOnly => "local-only"
  | placeholder => "placeholder"

/-- No keyword is a beginning of another one. -/
theorem not_isPrefix {keyword other : TagKeyword} (h : keyword ≠ other) :
    ¬ keyword.word <+: other.word := by
  revert h
  cases keyword <;> cases other <;> decide +kernel

/-- Keywords have no capital letters. -/
theorem asciiLower_word (keyword : TagKeyword) : asciiLower keyword.word = keyword.word := by
  cases keyword <;> decide +kernel

/-- Keywords are ASCII. -/
theorem ascii_word (keyword : TagKeyword) : ∀ c ∈ keyword.word, c.toNat < 128 := by
  have hall : keyword.word.all (fun c => c.toNat < 128) = true := by
    cases keyword <;> decide +kernel
  simpa using hall

/-- The keyword of a requirement level. -/
def ofLevel : Requirement → TagKeyword
  | .required => required
  | .optional => optional
  | .deprecated => deprecated

/-- The keyword of a requirement level is its word. -/
theorem word_ofLevel (level : Requirement) : (ofLevel level).word = level.word := by
  cases level <;> rfl

end TagKeyword

/-- A spelling of a keyword: capitals may stand for its letters. -/
def TagKeyword.Spelled (keyword : TagKeyword) (spelling : Text) : Prop :=
  asciiLower spelling = keyword.word

instance (keyword : TagKeyword) (spelling : Text) : Decidable (keyword.Spelled spelling) :=
  inferInstanceAs (Decidable (asciiLower spelling = keyword.word))

/-- A spelling of a keyword is ASCII. -/
theorem TagKeyword.Spelled.ascii {keyword : TagKeyword} {spelling : Text}
    (h : keyword.Spelled spelling) : ∀ c ∈ spelling, c.toNat < 128 := by
  refine ascii_of_asciiLower fun c hc => keyword.ascii_word c ?_
  rwa [← h]

section Folding

/-- A pattern covers the characters at the start of a text that meet its own one by one. -/
theorem foldedStart?_eq_some_iff {pattern text covered rest : Text} :
    foldedStart? pattern text = some (covered, rest) ↔
      List.Forall₂ (fun p c => sameLetter p c = true) pattern covered ∧ text = covered ++ rest := by
  induction pattern generalizing text covered with
  | nil =>
    rw [List.forall₂_nil_left_iff, foldedStart?, Option.some.injEq, Prod.mk.injEq, eq_comm]
    refine and_congr_right fun hnil => ?_
    rw [hnil, List.nil_append]
  | cons p pattern ih =>
    rw [List.forall₂_cons_left_iff]
    constructor
    · intro h
      cases text with
      | nil => cases h
      | cons c text =>
        rw [foldedStart?] at h
        split at h
        · rename_i hsame
          obtain ⟨⟨inner, after⟩, hinner, heq⟩ := Option.map_eq_some_iff.mp h
          obtain ⟨rfl, rfl⟩ := Prod.mk.inj heq
          obtain ⟨hmeets, rfl⟩ := ih.mp hinner
          exact ⟨⟨c, inner, hsame, hmeets, rfl⟩, rfl⟩
        · cases h
    · rintro ⟨⟨c, inner, hsame, hmeets, rfl⟩, rfl⟩
      rw [List.cons_append, foldedStart?, if_pos hsame, ih.mpr ⟨hmeets, rfl⟩]
      rfl

/-- A spelling of an ASCII word is covered by the word. -/
theorem foldedStart?_append {spelling : Text} (hascii : ∀ c ∈ spelling, c.toNat < 128)
    (more rest : Text) :
    foldedStart? (asciiLower spelling ++ more) (spelling ++ rest) =
      (foldedStart? more rest).map fun found => (spelling ++ found.1, found.2) := by
  induction spelling with
  | nil =>
    change foldedStart? more rest = (foldedStart? more rest).map _
    cases foldedStart? more rest <;> rfl
  | cons c spelling ih =>
    obtain ⟨hc, hrest⟩ := List.forall_mem_cons.mp hascii
    have hsame : sameLetter c.toLower c = true := by
      rw [sameLetter_ascii (toLower_lt hc) hc, beq_iff_eq]
      exact (forall_ascii (p := fun c => c.toLower.toLower = c.toLower) (by decide) hc).symm
    change foldedStart? (c.toLower :: (asciiLower spelling ++ more)) (c :: (spelling ++ rest)) = _
    rw [foldedStart?, if_pos hsame, ih hrest, Option.map_map]
    rfl

/-- A word does not cover the spelling of another one, unless one of them is a beginning of the
other. -/
theorem foldedStart?_eq_none {pattern spelling : Text} (hsmall : asciiLower pattern = pattern)
    (hpattern : ∀ c ∈ pattern, c.toNat < 128) (hascii : ∀ c ∈ spelling, c.toNat < 128)
    (h : ¬ pattern <+: asciiLower spelling) (h' : ¬ asciiLower spelling <+: pattern)
    (more rest : Text) : foldedStart? (pattern ++ more) (spelling ++ rest) = none := by
  induction pattern generalizing spelling with
  | nil => exact absurd List.nil_prefix h
  | cons p pattern ih =>
    cases spelling with
    | nil => exact absurd List.nil_prefix h'
    | cons c spelling =>
      obtain ⟨hp, hpattern'⟩ := List.forall_mem_cons.mp hpattern
      obtain ⟨hc, hascii'⟩ := List.forall_mem_cons.mp hascii
      obtain ⟨hpSmall, hsmall'⟩ := List.cons.inj hsmall
      change foldedStart? (p :: (pattern ++ more)) (c :: (spelling ++ rest)) = none
      rw [foldedStart?, sameLetter_ascii hp hc, hpSmall]
      split
      · rename_i hsame
        have hlower : asciiLower (c :: spelling) = p :: asciiLower spelling :=
          congrArg (· :: _) (beq_iff_eq.mp hsame)
        rw [hlower, List.cons_prefix_cons] at h h'
        rw [ih hsmall' hpattern' hascii' (fun hprefix => h ⟨rfl, hprefix⟩)
          fun hprefix => h' ⟨rfl, hprefix⟩]
        rfl
      · rfl

variable {keyword other : TagKeyword} {spelling : Text} (h : other.Spelled spelling)

include h

/-- A keyword in brackets covers the start of a tag that is written with it. -/
theorem foldedStart?_of_spelled (more rest : Text) :
    foldedStart? (("[" ++ other.word) ++ more) ('[' :: (spelling ++ rest)) =
      (foldedStart? more rest).map fun found => ('[' :: (spelling ++ found.1), found.2) := by
  have hcovers := foldedStart?_append h.ascii more rest
  rw [h] at hcovers
  change foldedStart? ('[' :: (other.word ++ more)) _ = _
  rw [foldedStart?, if_pos ((sameLetter_bracket _).mpr rfl), hcovers, Option.map_map]
  rfl

/-- A keyword in brackets does not cover the start of a tag that is written with another one. -/
theorem foldedStart?_of_ne (hne : other ≠ keyword) (more rest : Text) :
    foldedStart? (("[" ++ keyword.word) ++ more) ('[' :: (spelling ++ rest)) = none := by
  have hnone := foldedStart?_eq_none keyword.asciiLower_word keyword.ascii_word h.ascii
    (h ▸ TagKeyword.not_isPrefix (Ne.symm hne)) (h ▸ TagKeyword.not_isPrefix hne) more rest
  change foldedStart? ('[' :: (keyword.word ++ more)) _ = _
  rw [foldedStart?, if_pos ((sameLetter_bracket _).mpr rfl), hnone]
  rfl

omit h

/-- What starts with a bracket covers nothing that starts with another character. -/
theorem foldedStart?_bracket (pattern : Text) {c : Char} (hc : c ≠ '[') (rest : Text) :
    foldedStart? ('[' :: pattern) (c :: rest) = none := by
  rw [foldedStart?, if_neg fun hsame => hc ((sameLetter_bracket c).mp hsame)]

/-- A character covers itself. -/
theorem foldedStart?_single (c : Char) (rest : Text) :
    foldedStart? [c] (c :: rest) = some ([c], rest) := by
  have hsame : sameLetter c c = true := by rw [sameLetter, beq_self_eq_true, Bool.true_or]
  rw [foldedStart?, if_pos hsame]
  rfl

end Folding

section Patterns

/-- What a tag is written as. -/
def writtenTag (spelling arguments : Text) : Text := bracketed (spelling ++ arguments)

/-- A written tag, taken apart. -/
theorem writtenTag_append (spelling arguments rest : Text) :
    writtenTag spelling arguments ++ rest = '[' :: (spelling ++ (arguments ++ ']' :: rest)) := by
  simp [writtenTag, bracketed]

variable {keyword other : TagKeyword} {spelling : Text} (h : other.Spelled spelling)

include h

/-- A pattern for a word alone matches the tag of the word. -/
theorem wordTag_written (meaning : Directive) (rest : Text) :
    wordTag other.word meaning (writtenTag spelling [] ++ rest) =
      some ⟨writtenTag spelling [], meaning⟩ := by
  rw [wordTag, writtenTag_append, foldedStart?_of_spelled h]
  change ((foldedStart? [']'] (']' :: rest)).map _).map _ = _
  rw [foldedStart?_single]
  simp [writtenTag, bracketed]

/-- A pattern for another word does not match. -/
theorem wordTag_of_ne (hne : other ≠ keyword) (arguments : Text) (meaning : Directive)
    (rest : Text) : wordTag keyword.word meaning (writtenTag spelling arguments ++ rest) = none := by
  rw [wordTag, writtenTag_append, foldedStart?_of_ne h hne]
  rfl

/-- A pattern for a word with an argument matches the tag of the word with such an argument. -/
theorem argumentTag_written {first others : Char → Bool} {c : Char} {argument : Text}
    (hfirst : first c = true) (hargument : ∀ d ∈ argument, others d = true)
    (hclose : others ']' = false) (meaning : Text → Directive) (rest : Text) :
    argumentTag other.word first others meaning
        (writtenTag spelling (':' :: c :: argument) ++ rest) =
      some ⟨writtenTag spelling (':' :: c :: argument), meaning (c :: argument)⟩ := by
  have hcovered : foldedStart? (("[" ++ other.word) ++ ":")
      ('[' :: (spelling ++ (':' :: c :: argument ++ ']' :: rest))) =
        some ('[' :: (spelling ++ [':']), c :: (argument ++ ']' :: rest)) := by
    rw [foldedStart?_of_spelled h]
    change (foldedStart? [':'] (':' :: _)).map _ = _
    rw [foldedStart?_single]
    rfl
  have hstop : ∀ d, (']' :: rest).head? = some d → others d = false := fun d hd => by
    rwa [← Option.some.inj hd]
  obtain ⟨htake, hdrop⟩ := takeWhile_append_stop hargument hstop
  rw [argumentTag, writtenTag_append, hcovered]
  simp only [hfirst, if_true, hdrop, htake]
  simp [writtenTag, bracketed]

/-- A pattern for another word with an argument does not match. -/
theorem argumentTag_of_ne (hne : other ≠ keyword) (arguments : Text)
    (first others : Char → Bool) (meaning : Text → Directive) (rest : Text) :
    argumentTag keyword.word first others meaning (writtenTag spelling arguments ++ rest) =
      none := by
  rw [argumentTag, writtenTag_append, foldedStart?_of_ne h hne]

/-- The yes/no pattern does not match the tag of another word. -/
theorem booleanTag_of_ne (hne : other ≠ .boolean) (arguments rest : Text) :
    booleanTag (writtenTag spelling arguments ++ rest) = none := by
  have hnone := foldedStart?_of_ne h hne [] (arguments ++ ']' :: rest)
  rw [List.append_nil] at hnone
  change foldedStart? "[boolean" _ = none at hnone
  rw [booleanTag, writtenTag_append, hnone]

/-- A requirement level is not found at the start of the tag of another word. -/
theorem foldedStart?_level_of_ne {level : Requirement} (hne : other ≠ .ofLevel level)
    (more arguments rest : Text) :
    foldedStart? (("[" ++ level.word) ++ more) (writtenTag spelling arguments ++ rest) = none := by
  rw [writtenTag_append, ← TagKeyword.word_ofLevel, foldedStart?_of_ne h hne]

/-- No requirement level is found at the start of a tag that names none. -/
theorem requirementTag_of_ne (hne : ∀ level, other ≠ .ofLevel level) (arguments rest : Text) :
    requirementTag (writtenTag spelling arguments ++ rest) = none := by
  rw [requirementTag, List.findSome?_eq_none_iff]
  intro level _
  rw [foldedStart?_level_of_ne h (hne level)]
  rfl

omit h

/-- The requirement level that a tag names is found. -/
theorem requirementTag_written {level : Requirement}
    (h : (TagKeyword.ofLevel level).Spelled spelling) (rest : Text) :
    requirementTag (writtenTag spelling [] ++ rest) = some ⟨writtenTag spelling [], spelling⟩ := by
  have hown : foldedStart? (("[" ++ level.word) ++ "]") (writtenTag spelling [] ++ rest) =
      some (writtenTag spelling [], rest) := by
    rw [writtenTag_append, ← TagKeyword.word_ofLevel, foldedStart?_of_spelled h]
    change (foldedStart? [']'] (']' :: rest)).map _ = _
    rw [foldedStart?_single]
    simp [writtenTag, bracketed]
  have hmeaning : (writtenTag spelling []).tail.dropLast = spelling := by
    simp [writtenTag, bracketed]
  have hother (other : Requirement) (hne : TagKeyword.ofLevel level ≠ .ofLevel other) :=
    foldedStart?_level_of_ne h hne "]" [] rest
  cases level with
  | required => simp only [requirementTag, List.findSome?_cons, hown, Option.map_some, hmeaning]
  | optional =>
    rw [requirementTag, List.findSome?_cons, hother .required (by decide)]
    simp only [Option.map_none, List.findSome?_cons, hown, Option.map_some, hmeaning]
  | deprecated =>
    rw [requirementTag, List.findSome?_cons, hother .required (by decide), Option.map_none,
      List.findSome?_cons, hother .optional (by decide)]
    simp only [Option.map_none, List.findSome?_cons, hown, Option.map_some, hmeaning]

end Patterns

section Boolean

variable {spelling : Text} (h : TagKeyword.boolean.Spelled spelling)

include h

/-- The keyword of a yes/no tag is covered up to its arguments. -/
theorem foldedStart?_boolean (rest : Text) :
    foldedStart? "[boolean" ('[' :: (spelling ++ rest)) = some ('[' :: spelling, rest) := by
  have hcovers := foldedStart?_of_spelled h [] rest
  rw [List.append_nil] at hcovers
  change foldedStart? "[boolean" _ = some ('[' :: (spelling ++ []), rest) at hcovers
  rwa [List.append_nil] at hcovers

/-- Without literals a yes/no tag stands for `true` and `false`. -/
theorem booleanTag_bare (rest : Text) :
    booleanTag (writtenTag spelling [] ++ rest) =
      some ⟨writtenTag spelling [], .boolean "true" "false"⟩ := by
  have hliterals : literalPair? (']' :: rest) = none := rfl
  rw [booleanTag, writtenTag_append, foldedStart?_boolean h]
  simp only [List.nil_append, hliterals]
  simp [writtenTag, bracketed]

/-- The literals of a yes/no tag are found. -/
theorem booleanTag_literals {yes no : Text} (hyes : yes ≠ [] ∧ '/' ∉ yes ∧ ']' ∉ yes)
    (hno : no ≠ [] ∧ ']' ∉ no) (rest : Text) :
    booleanTag (writtenTag spelling (':' :: (yes ++ '/' :: no)) ++ rest) =
      some ⟨writtenTag spelling (':' :: (yes ++ '/' :: no)), .boolean yes no⟩ := by
  have hfirst : ∀ c ∈ yes, (c != '/' && c != ']') = true := fun c hc => by
    rw [Bool.and_eq_true, bne_iff_ne, bne_iff_ne]
    exact ⟨fun heq => hyes.2.1 (heq ▸ hc), fun heq => hyes.2.2 (heq ▸ hc)⟩
  have hslash : ∀ c, ('/' :: (no ++ ']' :: rest)).head? = some c →
      (c != '/' && c != ']') = false := fun c hc => by rw [← Option.some.inj hc]; rfl
  have hsecond : ∀ c ∈ no, (c != ']') = true := fun c hc =>
    bne_iff_ne.mpr fun heq => hno.2 (heq ▸ hc)
  have hclose : ∀ c, (']' :: rest).head? = some c → (c != ']') = false := fun c hc => by
    rw [← Option.some.inj hc]; rfl
  obtain ⟨htake, hdrop⟩ := takeWhile_append_stop hfirst hslash
  obtain ⟨htake', hdrop'⟩ := takeWhile_append_stop hsecond hclose
  have hliterals : literalPair? (':' :: (yes ++ '/' :: (no ++ ']' :: rest))) = some (yes, no) := by
    rw [literalPair?, htake, hdrop]
    cases yes with
    | nil => exact absurd rfl hyes.1
    | cons c yes =>
      simp only [htake', hdrop']
      cases no with
      | nil => exact absurd rfl hno.1
      | cons d no => rfl
  have hargument : ':' :: (yes ++ '/' :: no) ++ ']' :: rest =
      ':' :: (yes ++ '/' :: (no ++ ']' :: rest)) := by simp
  rw [booleanTag, writtenTag_append, foldedStart?_boolean h, hargument]
  simp only [hliterals]
  simp [writtenTag, bracketed]

end Boolean

/-- The ways to write a built-in directive, but for the spelling of its keyword. -/
inductive DirectiveTag
  | prompt
  | computed (what : Text)
  | copy (source : Text)
  | fixed (value : Text)
  /-- A yes/no tag without literals. -/
  | boolean
  | literals (yes no : Text)
  | localOnly
  | placeholder
  deriving DecidableEq, Repr

namespace DirectiveTag

/-- The keyword of a tag. -/
def keyword : DirectiveTag → TagKeyword
  | prompt => .prompt
  | computed _ => .computed
  | copy _ => .copy
  | fixed _ => .default
  | boolean | literals _ _ => .boolean
  | localOnly => .localOnly
  | placeholder => .placeholder

/-- What is written after the keyword. -/
def arguments : DirectiveTag → Text
  | computed argument | copy argument | fixed argument => ':' :: argument
  | literals yes no => ':' :: (yes ++ '/' :: no)
  | _ => []

/-- The directive that a tag stands for. -/
def directive : DirectiveTag → Directive
  | prompt => .prompt
  | computed what => .computed what
  | copy source => .copy source
  | fixed value => .fixed (some value)
  | boolean => .boolean "true" "false"
  | literals yes no => .boolean yes no
  | localOnly => .localOnly
  | placeholder => .placeholder

/-- Arguments that can be read back: a kind of word characters, a name, a value without brackets,
literals without brackets, and the first of these without a slash. -/
def WellFormed : DirectiveTag → Prop
  | computed what => what ≠ [] ∧ ∀ c ∈ what, isWord c = true
  | copy source => isName source = true
  | fixed value => value ≠ [] ∧ IsPlain value
  | literals yes no => (yes ≠ [] ∧ '/' ∉ yes ∧ IsPlain yes) ∧ no ≠ [] ∧ IsPlain no
  | _ => True

instance : DecidablePred WellFormed
  | computed what =>
    @instDecidableAnd _ _ inferInstance (List.decidableBAll (fun c => isWord c = true) what)
  | copy source => inferInstanceAs (Decidable (isName source = true))
  | fixed value => inferInstanceAs (Decidable (value ≠ [] ∧ IsPlain value))
  | literals yes no =>
    inferInstanceAs (Decidable ((yes ≠ [] ∧ '/' ∉ yes ∧ IsPlain yes) ∧ no ≠ [] ∧ IsPlain no))
  | prompt | boolean | localOnly | placeholder => .isTrue trivial

end DirectiveTag

section Directives

variable {tag : DirectiveTag} {spelling : Text} (h : tag.keyword.Spelled spelling)
  (rest : Text)

include h

/-- A pattern for a word alone finds the directive of a tag with that keyword. -/
theorem wordTag_eq (keyword : TagKeyword) (meaning : Directive)
    (hown : tag.keyword = keyword → tag.arguments = [] ∧ tag.directive = meaning) :
    wordTag keyword.word meaning (writtenTag spelling tag.arguments ++ rest) =
      if tag.keyword = keyword then some ⟨writtenTag spelling tag.arguments, tag.directive⟩
      else none := by
  by_cases hkeyword : tag.keyword = keyword
  · obtain ⟨harguments, hdirective⟩ := hown hkeyword
    rw [if_pos hkeyword, harguments, hdirective]
    exact wordTag_written (hkeyword ▸ h) meaning rest
  · rw [if_neg hkeyword]
    exact wordTag_of_ne h hkeyword tag.arguments meaning rest

/-- A pattern for a word with an argument finds the directive of a tag with that keyword. -/
theorem argumentTag_eq (keyword : TagKeyword) (first others : Char → Bool)
    (meaning : Text → Directive) (hclose : others ']' = false)
    (hown : tag.keyword = keyword → ∃ c argument, tag.arguments = ':' :: c :: argument ∧
      first c = true ∧ (∀ d ∈ argument, others d = true) ∧ tag.directive = meaning (c :: argument)) :
    argumentTag keyword.word first others meaning (writtenTag spelling tag.arguments ++ rest) =
      if tag.keyword = keyword then some ⟨writtenTag spelling tag.arguments, tag.directive⟩
      else none := by
  by_cases hkeyword : tag.keyword = keyword
  · obtain ⟨c, argument, harguments, hfirst, hothers, hdirective⟩ := hown hkeyword
    rw [if_pos hkeyword, harguments, hdirective]
    exact argumentTag_written (hkeyword ▸ h) hfirst hothers hclose meaning rest
  · rw [if_neg hkeyword]
    exact argumentTag_of_ne h hkeyword tag.arguments first others meaning rest

/-- The yes/no pattern finds the directive of a yes/no tag. -/
theorem booleanTag_eq (htag : tag.WellFormed) :
    booleanTag (writtenTag spelling tag.arguments ++ rest) =
      if tag.keyword = .boolean then some ⟨writtenTag spelling tag.arguments, tag.directive⟩
      else none := by
  cases tag with
  | boolean => exact booleanTag_bare h rest
  | literals yes no =>
    obtain ⟨⟨hyes, hslash, -, hyesClose⟩, hno, -, hnoClose⟩ := htag
    exact booleanTag_literals h ⟨hyes, hslash, hyesClose⟩ ⟨hno, hnoClose⟩ rest
  | _ => exact booleanTag_of_ne h (by rintro ⟨⟩) _ rest

/-- The keywords of the built-in directive tags, in the order in which they are looked for. -/
def directiveKeywords : List TagKeyword :=
  [.prompt, .computed, .copy, .default, .boolean, .localOnly, .placeholder]

/-- At the start of a written directive tag the pattern of its keyword finds its directive, whatever
follows, and no other pattern finds anything. -/
theorem map_directiveTags (htag : tag.WellFormed) :
    directiveTags.map (fun attempt => attempt (writtenTag spelling tag.arguments ++ rest)) =
      directiveKeywords.map fun keyword =>
        if tag.keyword = keyword then some ⟨writtenTag spelling tag.arguments, tag.directive⟩
        else none := by
  have hprompt := wordTag_eq h rest .prompt .prompt fun hkeyword => by
    cases tag <;> cases hkeyword
    exact ⟨rfl, rfl⟩
  have hcomputed := argumentTag_eq h rest .computed isWord isWord .computed (by decide)
    fun hkeyword => by
      cases tag <;> cases hkeyword
      rename_i what
      cases what with
      | nil => exact absurd rfl htag.1
      | cons c what =>
        obtain ⟨hfirst, hothers⟩ := List.forall_mem_cons.mp htag.2
        exact ⟨c, what, rfl, hfirst, hothers, rfl⟩
  have hcopy := argumentTag_eq h rest .copy isFoldedNameStart isFoldedNameChar .copy
    (by decide +kernel) fun hkeyword => by
      cases tag <;> cases hkeyword
      rename_i source
      cases source with
      | nil => cases htag
      | cons c source =>
        obtain ⟨hfirst, hothers⟩ := Bool.and_eq_true_iff.mp htag
        exact ⟨c, source, rfl, isFoldedNameStart_of_isNameStart hfirst,
          fun d hd => isFoldedNameChar_of_isNameChar (List.all_eq_true.mp hothers d hd), rfl⟩
  have hdefault := argumentTag_eq h rest .default (· != ']') (· != ']')
    (fun value => .fixed (some value)) rfl fun hkeyword => by
      cases tag <;> cases hkeyword
      rename_i value
      cases value with
      | nil => exact absurd rfl htag.1
      | cons c value =>
        have hclose : ∀ d ∈ c :: value, (d != ']') = true := fun d hd =>
          bne_iff_ne.mpr fun heq => htag.2.2 (heq ▸ hd)
        obtain ⟨hfirst, hothers⟩ := List.forall_mem_cons.mp hclose
        exact ⟨c, value, rfl, hfirst, hothers, rfl⟩
  have hlocalOnly := wordTag_eq h rest .localOnly .localOnly fun hkeyword => by
    cases tag <;> cases hkeyword
    exact ⟨rfl, rfl⟩
  have hplaceholder := wordTag_eq h rest .placeholder .placeholder fun hkeyword => by
    cases tag <;> cases hkeyword
    exact ⟨rfl, rfl⟩
  simp only [directiveKeywords, List.map_cons, List.map_nil]
  rw [← hprompt, ← hcomputed, ← hcopy, ← hdefault, ← booleanTag_eq h rest htag, ← hlocalOnly,
    ← hplaceholder]
  rfl

end Directives

/-- No directive is found at the start of a tag with another keyword. -/
theorem directiveTags_of_notMem {keyword : TagKeyword} {spelling : Text}
    (h : keyword.Spelled spelling) (hkeyword : keyword ∉ directiveKeywords) (arguments rest : Text) :
    ∀ attempt ∈ directiveTags, attempt (writtenTag spelling arguments ++ rest) = none := by
  have hne : ∀ other ∈ directiveKeywords, keyword ≠ other := fun other hother heq =>
    hkeyword (heq ▸ hother)
  refine List.forall_mem_cons.mpr ⟨wordTag_of_ne h (hne .prompt (by decide)) _ _ _, ?_⟩
  refine List.forall_mem_cons.mpr
    ⟨argumentTag_of_ne h (hne .computed (by decide)) _ _ _ _ _, ?_⟩
  refine List.forall_mem_cons.mpr ⟨argumentTag_of_ne h (hne .copy (by decide)) _ _ _ _ _, ?_⟩
  refine List.forall_mem_cons.mpr ⟨argumentTag_of_ne h (hne .default (by decide)) _ _ _ _ _, ?_⟩
  refine List.forall_mem_cons.mpr ⟨booleanTag_of_ne h (hne .boolean (by decide)) _ _, ?_⟩
  refine List.forall_mem_cons.mpr ⟨wordTag_of_ne h (hne .localOnly (by decide)) _ _ _, ?_⟩
  refine List.forall_mem_cons.mpr ⟨wordTag_of_ne h (hne .placeholder (by decide)) _ _ _, ?_⟩
  exact fun _ hmem => absurd hmem List.not_mem_nil

/-- Requirement tags start with a bracket. -/
theorem startsAtBracket_requirementTag : StartsAtBracket requirementTag where
  nil := rfl
  cons c rest hc := by
    rw [requirementTag, List.findSome?_eq_none_iff]
    intro level _
    change (foldedStart? ('[' :: (level.word ++ "]")) _).map _ = none
    rw [foldedStart?_bracket _ hc]
    rfl

/-- What holds of the patterns for a word alone and for a word with an argument, as far as they name
built-in directives, and of the yes/no pattern holds of all directive tags. -/
theorem forall_mem_directiveTags {p : (Text → Option (Found Directive)) → Prop}
    (hword : ∀ word meaning, meaning.isBuiltin = true → p (wordTag word meaning))
    (hargument : ∀ word first others meaning, (∀ argument, (meaning argument).isBuiltin = true) →
      p (argumentTag word first others meaning)) (hboolean : p booleanTag) :
    ∀ attempt ∈ directiveTags, p attempt := by
  simp only [directiveTags, List.forall_mem_cons]
  exact ⟨hword _ _ rfl, hargument _ _ _ _ fun _ => rfl, hargument _ _ _ _ fun _ => rfl,
    hargument _ _ _ _ fun _ => rfl, hboolean, hword _ _ rfl, hword _ _ rfl,
    fun _ hmem => absurd hmem List.not_mem_nil⟩

/-- Directive tags start with a bracket. -/
theorem startsAtBracket_directiveTags : ∀ attempt ∈ directiveTags, StartsAtBracket attempt := by
  apply forall_mem_directiveTags
  · refine fun word meaning _ => ⟨rfl, fun c rest hc => ?_⟩
    change (foldedStart? ('[' :: (word ++ "]")) _).map _ = none
    rw [foldedStart?_bracket _ hc]
    rfl
  · refine fun word first others meaning _ => ⟨rfl, fun c rest hc => ?_⟩
    have hnone : foldedStart? (("[" ++ word) ++ ":") (c :: rest) = none :=
      foldedStart?_bracket _ hc rest
    rw [argumentTag, hnone]
  · refine ⟨rfl, fun c rest hc => ?_⟩
    have hnone : foldedStart? "[boolean" (c :: rest) = none := foldedStart?_bracket _ hc rest
    rw [booleanTag, hnone]

/-- Directive tags name built-in directives. -/
theorem isBuiltin_of_mem_directiveTags : ∀ attempt ∈ directiveTags, ∀ text found,
    attempt text = some found → found.meaning.isBuiltin = true := by
  apply forall_mem_directiveTags
  · intro word meaning hmeaning text found h
    obtain ⟨covered, -, rfl⟩ := Option.map_eq_some_iff.mp h
    exact hmeaning
  · intro word first others meaning hmeaning text found h
    unfold argumentTag at h
    repeat' split at h
    all_goals cases h
    exact hmeaning _
  · intro text found h
    unfold booleanTag at h
    repeat' split at h
    all_goals cases h
    all_goals rfl

/-- A spelling of a keyword has no brackets. -/
theorem TagKeyword.Spelled.isPlain {keyword : TagKeyword} {spelling : Text}
    (h : keyword.Spelled spelling) : IsPlain spelling := by
  have hplain : '[' ∉ keyword.word ∧ ']' ∉ keyword.word := by cases keyword <;> decide +kernel
  rw [← h] at hplain
  exact ⟨fun hmem => hplain.1 (List.mem_map_of_mem (f := Char.toLower) hmem),
    fun hmem => hplain.2 (List.mem_map_of_mem (f := Char.toLower) hmem)⟩

/-- Well-formed arguments have no brackets. -/
theorem DirectiveTag.WellFormed.isPlain {tag : DirectiveTag} (h : tag.WellFormed) :
    IsPlain tag.arguments := by
  have hcolon {argument : Text} (hargument : IsPlain argument) : IsPlain (':' :: argument) := by
    simpa [IsPlain] using hargument
  cases tag with
  | computed what =>
    exact hcolon ⟨fun hmem => absurd (h.2 _ hmem) (by decide),
      fun hmem => absurd (h.2 _ hmem) (by decide)⟩
  | copy source =>
    exact hcolon ⟨fun hmem => absurd (isNameChar_of_isName h _ hmem) (by decide),
      fun hmem => absurd (isNameChar_of_isName h _ hmem) (by decide)⟩
  | fixed value => exact hcolon h.2
  | literals yes no =>
    refine hcolon ?_
    simpa [IsPlain] using And.intro ⟨h.1.2.2.1, h.2.2.1⟩ ⟨h.1.2.2.2, h.2.2.2⟩
  | _ => exact ⟨List.not_mem_nil, List.not_mem_nil⟩

end EnvFiles
