import EnvFiles.Proofs.Attempt
import EnvFiles.Proofs.Comment.Tag
import EnvFiles.Proofs.Example

/-!
# Which directive a comment names

The first pattern of a plugin that is found names the directive, whatever built-in tags stand in
the comment. Where none is found the directive is a built-in one.
-/

namespace EnvFiles

/-- The directive of a comment comes from the first pattern that is found, or it is built in. -/
theorem findDirective_cases (patterns : List DirectivePattern) (comment : Text) :
    (∃ before pattern after raw, patterns = before ++ pattern :: after ∧
      (∀ other ∈ before, other.find comment = none) ∧ pattern.find comment = some raw ∧
        findDirective patterns comment = (.plugin pattern.kind raw, some raw)) ∨
    (∀ pattern ∈ patterns, pattern.find comment = none) ∧
      (findDirective patterns comment).1.isBuiltin = true := by
  cases hclaimed : patterns.findSome? fun pattern =>
      (pattern.find comment).map fun raw => (Directive.plugin pattern.kind raw, some raw) with
  | some named =>
    obtain ⟨before, pattern, after, hpatterns, hnamed, hbefore⟩ :=
      List.findSome?_eq_some_iff.mp hclaimed
    obtain ⟨raw, hraw, rfl⟩ := Option.map_eq_some_iff.mp hnamed
    refine Or.inl ⟨before, pattern, after, raw, hpatterns, fun other hmem => ?_, hraw, ?_⟩
    · exact Option.map_eq_none_iff.mp (hbefore other hmem)
    · rw [findDirective, hclaimed]
      rfl
  | none =>
    refine Or.inr ⟨fun pattern hmem => ?_, ?_⟩
    · exact Option.map_eq_none_iff.mp (List.findSome?_eq_none_iff.mp hclaimed pattern hmem)
    rw [findDirective, hclaimed, Option.none_or]
    cases hfound : directiveTags.findSome? fun tag =>
        (Text.firstMatch tag comment).map fun found => (found.meaning, some found.matched) with
    | none => rfl
    | some named =>
      obtain ⟨attempt, hattempt, hnamed⟩ := List.exists_of_findSome?_eq_some hfound
      obtain ⟨found, hmatch, rfl⟩ := Option.map_eq_some_iff.mp hnamed
      obtain ⟨text, -, hfirst⟩ := Text.exists_suffix_of_firstMatch hmatch
      exact isBuiltin_of_mem_directiveTags attempt hattempt text found hfirst

variable {patterns : List DirectivePattern} {comment : Text}

/-- A comment without a requirement tag is read. -/
theorem readComment_of_none (h : Text.firstMatch requirementTag comment = none) :
    readComment patterns comment = .ok
      { directive := (findDirective patterns comment).1
        description := cleanDescription
          (Text.eraseFirst ((findDirective patterns comment).2.getD []) comment) } := by
  rw [readComment, h]
  rcases findDirective patterns comment with ⟨directive, _ | raw⟩
  · simp only [Option.getD_none, Text.eraseFirst_nil]
    rfl
  · rfl

/-- A comment with a requirement tag is read when the word in its first one names a level in small
letters. -/
theorem readComment_of_some {found : Found Text}
    (h : Text.firstMatch requirementTag comment = some found) :
    readComment patterns comment = match Requirement.ofWord? (Text.lower found.meaning) with
      | some requirement => .ok
          { requirement
            directive := (findDirective patterns comment).1
            description := cleanDescription
              (Text.eraseFirst ((findDirective patterns comment).2.getD [])
                (Text.eraseFirst found.matched comment)) }
      | none => .error (.unknownRequirement (Text.lower found.meaning)) := by
  rw [readComment, h]
  simp only
  cases Requirement.ofWord? (Text.lower found.meaning) with
  | none => rfl
  | some requirement =>
    rcases findDirective patterns comment with ⟨directive, _ | raw⟩
    · simp only [Option.getD_none, Text.eraseFirst_nil]
      rfl
    · rfl

/-- A comment that is read names the directive that is found in it. -/
theorem directive_of_readComment {meaning : CommentMeaning}
    (h : readComment patterns comment = .ok meaning) :
    meaning.directive = (findDirective patterns comment).1 := by
  cases hfound : Text.firstMatch requirementTag comment with
  | none =>
    rw [readComment_of_none hfound] at h
    rw [← Except.ok.inj h]
  | some found =>
    rw [readComment_of_some hfound] at h
    split at h
    · rw [← Except.ok.inj h]
    · cases h

/-- A definition has the directive that is found in its comment. -/
theorem directive_of_ofAssignment {name value : Text} {definition : Definition}
    (h : Definition.ofAssignment patterns comment name value = .ok definition) :
    definition.directive = (findDirective patterns comment).1 := by
  obtain ⟨meaning, hmeaning, hdone⟩ := exists_of_bind_eq_ok h
  rw [← Except.ok.inj hdone]
  exact directive_of_readComment hmeaning

end EnvFiles
