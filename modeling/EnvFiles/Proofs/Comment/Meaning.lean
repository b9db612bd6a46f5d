import EnvFiles.Proofs.Comment.Level
import EnvFiles.Proofs.Text.Occurrences

/-!
# What is read from any comment

Without plugins every comment is read, except when its first requirement tag is written with a
strange i. Its meaning has the level of the first requirement tag, the directive of the first
built-in pattern that is found, and a description in which every bracketed text is left as often
as it stands in the comment, apart from the two texts that named the level and the directive.
-/

namespace EnvFiles

open Text

/-- The text that names the level of a comment, and the level: the first requirement tag, or
nothing in a comment without one, which is optional. -/
inductive NamesLevel (comment : Text) : Text → Requirement → Prop
  | untagged (h : ∀ (level : Requirement) (spelling : Text), level.WrittenAs spelling →
      ¬ bracketed spelling <:+: comment) : NamesLevel comment [] .optional
  | tagged {before spelling : Text} {level : Requirement}
      (h : FirstLevelTag comment before level spelling) :
      NamesLevel comment (bracketed spelling) level

/-- The text that names the directive of a comment, and the directive: what the first built-in
pattern that is found covers and says, or nothing and the placeholder if none is found. -/
inductive NamesDirective (comment : Text) : Text → Directive → Prop
  | untagged (h : ∀ attempt ∈ directiveTags, firstMatch attempt comment = none) :
      NamesDirective comment [] .placeholder
  | tagged {before after : List (Text → Option (Found Directive))}
      {attempt : Text → Option (Found Directive)} {found : Found Directive}
      (htags : directiveTags = before ++ attempt :: after)
      (hbefore : ∀ other ∈ before, firstMatch other comment = none)
      (h : firstMatch attempt comment = some found) :
      NamesDirective comment found.matched found.meaning

/-- The meaning of a comment whose level and directive are named by two texts. -/
structure CommentMeaning.Tells (comment levelTag directiveTag : Text)
    (meaning : CommentMeaning) : Prop where
  level : NamesLevel comment levelTag meaning.requirement
  directive : NamesDirective comment directiveTag meaning.directive
  builtin : meaning.directive.isBuiltin = true
  description : meaning.description =
    cleanDescription (eraseFirst directiveTag (eraseFirst levelTag comment))
  /-- Every bracketed text stands in the description, with its blanks joined, as often as in the
  comment, less what the two texts hold of it. -/
  leaves : ∀ inner, IsPlain inner → occurrences (bracketed inner) comment ≤
    occurrences (normaliseBlanks (bracketed inner)) meaning.description +
      occurrences (bracketed inner) levelTag + occurrences (bracketed inner) directiveTag

section Directives

/-- What a pattern covers starts with the bracket at which the pattern starts. -/
theorem exists_cons_of_foldedStart? {pattern text covered rest : Text}
    (h : foldedStart? ('[' :: pattern) text = some (covered, rest)) :
    ∃ held, covered = '[' :: held := by
  obtain ⟨c, held, hopen, -, rfl⟩ := List.forall₂_cons_left_iff.mp (foldedStart?_eq_some_iff.mp h).1
  exact ⟨held, by rw [(sameLetter_bracket c).mp hopen]⟩

/-- A directive tag covers a text from bracket to bracket. -/
theorem exists_bracketed_of_mem_directiveTags : ∀ attempt ∈ directiveTags, ∀ text found,
    attempt text = some found → ∃ held, found.matched = bracketed held := by
  apply forall_mem_directiveTags
  · intro word meaning _ text found h
    obtain ⟨⟨covered, rest⟩, hcovers, rfl⟩ := Option.map_eq_some_iff.mp h
    obtain ⟨held, -, hheld, -⟩ := foldedStart?_bracketed.mp hcovers
    exact ⟨held, hheld⟩
  · intro word first others meaning _ text found h
    unfold argumentTag at h
    split at h
    · rename_i covered c rest hcovers
      obtain ⟨held, rfl⟩ := exists_cons_of_foldedStart? hcovers
      split at h
      · split at h
        · cases h
          exact ⟨held ++ (c :: rest.takeWhile others), rfl⟩
        · cases h
      · cases h
    · cases h
  · intro text found h
    unfold booleanTag at h
    split at h
    · cases h
    · rename_i covered rest hcovers
      obtain ⟨held, rfl⟩ := exists_cons_of_foldedStart? hcovers
      split at h
      · rename_i yes no _
        cases h
        exact ⟨held ++ ":" ++ yes ++ "/" ++ no, rfl⟩
      · cases h
        exact ⟨held, rfl⟩
      · cases h

variable {comment : Text}

/-- Without plugins the directive of a comment is named by what the built-in patterns find. -/
theorem namesDirective_findDirective (comment : Text) :
    NamesDirective comment ((findDirective [] comment).2.getD []) (findDirective [] comment).1 := by
  rw [findDirective, List.findSome?_nil, Option.none_or]
  cases hfound : directiveTags.findSome? fun tag =>
      (firstMatch tag comment).map fun found => (found.meaning, some found.matched) with
  | none =>
    refine .untagged fun attempt hattempt => ?_
    exact Option.map_eq_none_iff.mp (List.findSome?_eq_none_iff.mp hfound attempt hattempt)
  | some named =>
    obtain ⟨before, attempt, after, htags, hnamed, hbefore⟩ := List.findSome?_eq_some_iff.mp hfound
    obtain ⟨found, hmatch, rfl⟩ := Option.map_eq_some_iff.mp hnamed
    refine .tagged htags (fun other hother => ?_) hmatch
    exact Option.map_eq_none_iff.mp (hbefore other hother)

/-- A text that names a directive is what a built-in pattern covers somewhere. -/
theorem NamesDirective.eq_nil_or_exists {raw : Text} {directive : Directive}
    (h : NamesDirective comment raw directive) :
    raw = [] ∧ directive = .placeholder ∨
      ∃ attempt ∈ directiveTags, ∃ text found, attempt text = some found ∧
        raw = found.matched ∧ directive = found.meaning := by
  cases h with
  | untagged => exact Or.inl ⟨rfl, rfl⟩
  | @tagged _ _ attempt found htags _ hmatch =>
    obtain ⟨text, -, hfound⟩ := exists_suffix_of_firstMatch hmatch
    exact Or.inr ⟨attempt, htags ▸ List.mem_append_right _ (List.mem_cons_self ..), text, found,
      hfound, rfl, rfl⟩

/-- The text that names a directive goes from bracket to bracket. -/
theorem NamesDirective.exists_bracketed {raw : Text} {directive : Directive}
    (h : NamesDirective comment raw directive) : raw = [] ∨ ∃ held, raw = bracketed held := by
  rcases h.eq_nil_or_exists with ⟨rfl, -⟩ | ⟨attempt, hattempt, text, found, hfound, rfl, -⟩
  · exact Or.inl rfl
  · exact Or.inr (exists_bracketed_of_mem_directiveTags attempt hattempt text found hfound)

/-- The directive that a text names is built in. -/
theorem NamesDirective.isBuiltin {raw : Text} {directive : Directive}
    (h : NamesDirective comment raw directive) : directive.isBuiltin = true := by
  rcases h.eq_nil_or_exists with ⟨-, rfl⟩ | ⟨attempt, hattempt, text, found, hfound, -, rfl⟩
  · rfl
  · exact isBuiltin_of_mem_directiveTags attempt hattempt text found hfound

end Directives

section Leftover

/-- Cleaning a description keeps the places of a bracketed text. -/
theorem occurrences_le_cleanDescription (inner text : Text) :
    occurrences (bracketed inner) text ≤
      occurrences (normaliseBlanks (bracketed inner)) (cleanDescription text) := by
  unfold cleanDescription
  split
  · rename_i rest
    rw [occurrences_cons_of_ne (by decide), ← occurrences_trimStart]
    exact occurrences_le_normaliseBlanks _
  · exact occurrences_le_normaliseBlanks _

/-- The text that names a level goes from bracket to bracket. -/
theorem NamesLevel.exists_bracketed {comment levelTag : Text} {level : Requirement}
    (h : NamesLevel comment levelTag level) :
    levelTag = [] ∨ ∃ held, levelTag = bracketed held := by
  cases h with
  | untagged => exact Or.inl rfl
  | tagged _ => exact Or.inr ⟨_, rfl⟩

/-- A comment without the texts that name its level and its directive, cleaned, is a description
in which everything else is left. -/
theorem tells_of_names {comment levelTag directiveTag : Text} {level : Requirement}
    {directive : Directive} (hlevel : NamesLevel comment levelTag level)
    (hdirective : NamesDirective comment directiveTag directive) :
    CommentMeaning.Tells comment levelTag directiveTag
      { requirement := level, directive,
        description := cleanDescription (eraseFirst directiveTag (eraseFirst levelTag comment)) }
    where
  level := hlevel
  directive := hdirective
  builtin := hdirective.isBuiltin
  description := rfl
  leaves inner hinner := by
    have hfirst := occurrences_le_eraseFirst hinner hlevel.exists_bracketed comment
    have hsecond := occurrences_le_eraseFirst hinner hdirective.exists_bracketed
      (eraseFirst levelTag comment)
    have hcleaned := occurrences_le_cleanDescription inner
      (eraseFirst directiveTag (eraseFirst levelTag comment))
    simp only
    omega

end Leftover

/-- Without plugins a comment is read unless its first requirement tag is misspelt. -/
theorem exists_readComment {comment : Text} (h : ∀ spelling, ¬ Misspelt comment spelling) :
    ∃ meaning levelTag directiveTag, readComment [] comment = .ok meaning ∧
      meaning.Tells comment levelTag directiveTag := by
  have hdirective := namesDirective_findDirective comment
  cases hfound : firstMatch requirementTag comment with
  | none =>
    have hlevel : NamesLevel comment [] .optional :=
      .untagged (firstMatch_requirementTag_eq_none_iff.mp hfound)
    refine ⟨_, _, _, ?_, tells_of_names hlevel hdirective⟩
    rw [readComment_of_none hfound, eraseFirst_nil]
  | some found =>
    obtain ⟨before, level, spelling, hfirst, rfl⟩ := firstMatch_requirementTag_eq_some_iff.mp hfound
    have hplain : ¬ HasStrangeI spelling := fun hstrange =>
      h spelling ⟨⟨before, level, hfirst⟩, hstrange⟩
    refine ⟨_, _, _, ?_, tells_of_names (.tagged hfirst) hdirective⟩
    rw [readComment_of_some hfound, hfirst.written.ofWord?_lower hplain]

/-- A tag that is no well-formed one stays, and so does one that is not closed. -/
example : readComment [] "[Required] [requird] for  [prompt" =
    .ok ⟨.required, .placeholder, "[requird] for [prompt"⟩ := by rfl

end EnvFiles
