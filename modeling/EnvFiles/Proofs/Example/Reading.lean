import EnvFiles.Proofs.Comment.Meaning

/-!
# Which example files are read

The assignments of an example file and the comments above them do not depend on what the comments
mean. The file is read exactly if none of these comments has a misspelt requirement tag at its
first one, and then each assignment is declared with the meaning of its comment.
-/

namespace EnvFiles

open Text

/-- An assignment of an example file, with the comment above it. -/
structure Declaration where
  comment : Text
  name : Text
  value : Text
  deriving DecidableEq, Repr

/-- The assignments among lines of an example file, given the comment lines pending before them. -/
def declarationsFrom : PendingComment → List Text → List Declaration
  | _, [] => []
  | pending, line :: rest =>
    let trimmed := trim line
    if trimmed.isEmpty then declarationsFrom {} rest
    else if isComment trimmed then declarationsFrom (pending.add trimmed) rest
    else match assignment? trimmed with
      | none => declarationsFrom pending rest
      | some (name, value) => ⟨pending.text, name, value⟩ :: declarationsFrom {} rest

/-- The assignments of an example file in order. -/
def declarationsOf (text : Text) : List Declaration := declarationsFrom {} (lines text)

/-- The definition of an assignment. -/
def Declaration.read (patterns : List DirectivePattern) (declaration : Declaration) :
    Except Failure Definition :=
  Definition.ofAssignment patterns declaration.comment declaration.name declaration.value

/-- Lines are read by reading the assignments among them and declaring what comes out. -/
theorem readDeclarations_eq (patterns : List DirectivePattern) (definitions : List Definition)
    (pending : PendingComment) (lines : List Text) :
    readDeclarations patterns definitions pending lines =
      ((declarationsFrom pending lines).mapM (Declaration.read patterns)).map
        fun read => read.foldl declare definitions := by
  induction lines generalizing definitions pending with
  | nil => rfl
  | cons line rest ih =>
    simp only [readDeclarations, declarationsFrom]
    split
    · exact ih definitions {}
    · split
      · exact ih definitions _
      · cases assignment? (trim line) with
        | none => exact ih definitions pending
        | some assigned =>
          obtain ⟨name, value⟩ := assigned
          simp only [List.mapM_cons, Declaration.read]
          cases Definition.ofAssignment patterns pending.text name value with
          | error failure => rfl
          | ok definition =>
            change readDeclarations patterns (declare definitions definition) {} rest = _
            rw [ih]
            change _ = Except.map _ ((declarationsFrom {} rest).mapM (Declaration.read patterns) >>=
              fun read => pure (definition :: read))
            cases (declarationsFrom {} rest).mapM (Declaration.read patterns) <;> rfl

/-- Computations one after another come to results if each of them does. -/
theorem mapM_eq_ok_iff {ε α β : Type} {compute : α → Except ε β} {items : List α}
    {results : List β} :
    items.mapM compute = .ok results ↔
      List.Forall₂ (fun item result => compute item = .ok result) items results := by
  induction items generalizing results with
  | nil =>
    rw [List.mapM_nil, List.forall₂_nil_left_iff]
    exact ⟨fun h => (Except.ok.inj h).symm, fun h => h ▸ rfl⟩
  | cons item rest ih =>
    rw [List.mapM_cons, List.forall₂_cons_left_iff, bind_eq_ok_iff]
    refine exists_congr fun result => ?_
    rw [bind_eq_ok_iff]
    constructor
    · rintro ⟨hitem, others, hrest, heq⟩
      exact ⟨others, hitem, ih.mp hrest, (Except.ok.inj heq).symm⟩
    · rintro ⟨others, hitem, hrest, rfl⟩
      exact ⟨hitem, others, ih.mpr hrest, rfl⟩

/-- An assignment is read as what it says, with the meaning of its comment. -/
theorem read_eq_ok_iff {patterns : List DirectivePattern} {declaration : Declaration}
    {definition : Definition} :
    declaration.read patterns = .ok definition ↔
      definition.name = declaration.name ∧ definition.exampleValue = declaration.value ∧
        definition.rawComment = declaration.comment ∧
        readComment patterns declaration.comment =
          .ok ⟨definition.requirement, definition.directive, definition.description⟩ := by
  rw [Declaration.read, Definition.ofAssignment, bind_eq_ok_iff]
  constructor
  · rintro ⟨meaning, hmeaning, heq⟩
    obtain rfl := Except.ok.inj heq
    exact ⟨rfl, rfl, rfl, hmeaning⟩
  · obtain ⟨name, value, requirement, directive, description, comment⟩ := definition
    rintro ⟨rfl, rfl, rfl, hmeaning⟩
    exact ⟨_, hmeaning, rfl⟩

/-- An example file is read by reading its assignments and declaring what they come to. -/
theorem readExample_eq (patterns : List DirectivePattern) (text sourcePath : Text) :
    readExample patterns text sourcePath =
      ((declarationsOf text).mapM (Declaration.read patterns)).map fun definitions =>
        { sourcePath, definitions := definitions.foldl declare [] } := by
  rw [readExample, readDeclarations_eq, ← declarationsOf]
  cases (declarationsOf text).mapM (Declaration.read patterns) <;> rfl

/-- An example file is read if each of its assignments is, and what they come to is declared in
their order. -/
theorem readExample_eq_ok_iff_forall₂ {patterns : List DirectivePattern} {text sourcePath : Text}
    {schema : Schema} :
    readExample patterns text sourcePath = .ok schema ↔
      ∃ definitions, List.Forall₂
          (fun declaration definition => Declaration.read patterns declaration = .ok definition)
          (declarationsOf text) definitions ∧
        schema = { sourcePath, definitions := definitions.foldl declare [] } := by
  rw [readExample_eq]
  simp only [← mapM_eq_ok_iff]
  cases (declarationsOf text).mapM (Declaration.read patterns) with
  | error failure => exact iff_of_false (fun h => by cases h) fun ⟨_, h, _⟩ => by cases h
  | ok definitions =>
    constructor
    · intro h
      exact ⟨definitions, rfl, (Except.ok.inj h).symm⟩
    · rintro ⟨other, hother, rfl⟩
      obtain rfl := Except.ok.inj hother
      rfl

/-- A definition that comes from an assignment and has the meaning of the comment above it. -/
structure Declaration.Defines (declaration : Declaration) (definition : Definition) : Prop where
  name : definition.name = declaration.name
  exampleValue : definition.exampleValue = declaration.value
  rawComment : definition.rawComment = declaration.comment
  tells : ∃ levelTag directiveTag, CommentMeaning.Tells declaration.comment levelTag directiveTag
    ⟨definition.requirement, definition.directive, definition.description⟩

/-- An assignment under a comment with a misspelt tag has no definition. -/
theorem read_of_misspelt (patterns : List DirectivePattern) {declaration : Declaration}
    {spelling : Text} (h : Misspelt declaration.comment spelling) :
    declaration.read patterns = .error (.unknownRequirement (lower spelling)) := by
  rw [Declaration.read, Definition.ofAssignment, readComment_of_misspelt patterns h]
  rfl

/-- Without plugins an assignment under any other comment has one. -/
theorem exists_read {declaration : Declaration}
    (h : ∀ spelling, ¬ Misspelt declaration.comment spelling) :
    ∃ definition, declaration.read [] = .ok definition ∧ declaration.Defines definition := by
  obtain ⟨meaning, levelTag, directiveTag, hmeaning, htells⟩ := exists_readComment h
  refine ⟨{ name := declaration.name, exampleValue := declaration.value,
            requirement := meaning.requirement, directive := meaning.directive,
            description := meaning.description, rawComment := declaration.comment },
    ?_, rfl, rfl, rfl, levelTag, directiveTag, htells⟩
  rw [Declaration.read, Definition.ofAssignment, hmeaning]
  rfl

/-- Assignments are read one by one up to the first one under a comment with a misspelt tag. -/
theorem mapM_read_cases (declarations : List Declaration) :
    (∃ declaration ∈ declarations, ∃ spelling, Misspelt declaration.comment spelling ∧
      declarations.mapM (Declaration.read []) = .error (.unknownRequirement (lower spelling))) ∨
    (∀ declaration ∈ declarations, ∀ spelling, ¬ Misspelt declaration.comment spelling) ∧
      ∃ definitions, declarations.mapM (Declaration.read []) = .ok definitions ∧
        List.Forall₂ Declaration.Defines declarations definitions := by
  induction declarations with
  | nil => exact Or.inr ⟨fun _ hmem => absurd hmem List.not_mem_nil, [], rfl, .nil⟩
  | cons declaration rest ih =>
    by_cases hmisspelt : ∃ spelling, Misspelt declaration.comment spelling
    · obtain ⟨spelling, hspelling⟩ := hmisspelt
      refine Or.inl ⟨declaration, List.mem_cons_self .., spelling, hspelling, ?_⟩
      rw [List.mapM_cons, read_of_misspelt [] hspelling]
      rfl
    · have hplain := not_exists.mp hmisspelt
      obtain ⟨definition, hread, hdefines⟩ := exists_read hplain
      rcases ih with ⟨other, hother, spelling, hspelling, hfails⟩ |
        ⟨hrest, definitions, hreads, hall⟩
      · refine Or.inl ⟨other, List.mem_cons_of_mem _ hother, spelling, hspelling, ?_⟩
        rw [List.mapM_cons, hread, hfails]
        rfl
      · refine Or.inr ⟨List.forall_mem_cons.mpr ⟨hplain, hrest⟩, definition :: definitions, ?_,
          .cons hdefines hall⟩
        rw [List.mapM_cons, hread, hreads]
        rfl

/-- Without plugins every example file is read, except for one that declares a variable under a
comment whose first requirement tag is written with a dotless small i or a capital I with dot. Every
other comment has one of the three levels, a built-in directive, and a description that keeps
each bracketed text but for the two texts that named the level and the directive. The definitions
of a file that is read are those of its assignments with the meanings of their comments, where a
name declared again replaces its definition. -/
theorem readExample_cases (text sourcePath : Text) :
    (∀ comment,
      (∃ spelling, Misspelt comment spelling ∧
        readComment [] comment = .error (.unknownRequirement (lower spelling))) ∨
      (∀ spelling, ¬ Misspelt comment spelling) ∧
        ∃ meaning levelTag directiveTag, readComment [] comment = .ok meaning ∧
          meaning.Tells comment levelTag directiveTag) ∧
    ((∃ declaration ∈ declarationsOf text, ∃ spelling, Misspelt declaration.comment spelling ∧
        readExample [] text sourcePath = .error (.unknownRequirement (lower spelling))) ∨
      (∀ declaration ∈ declarationsOf text, ∀ spelling, ¬ Misspelt declaration.comment spelling) ∧
        ∃ definitions, List.Forall₂ Declaration.Defines (declarationsOf text) definitions ∧
          readExample [] text sourcePath =
            .ok { sourcePath, definitions := definitions.foldl declare [] }) := by
  refine ⟨fun comment => ?_, ?_⟩
  · by_cases hmisspelt : ∃ spelling, Misspelt comment spelling
    · obtain ⟨spelling, hspelling⟩ := hmisspelt
      exact Or.inl ⟨spelling, hspelling, readComment_of_misspelt [] hspelling⟩
    · exact Or.inr ⟨not_exists.mp hmisspelt, exists_readComment (not_exists.mp hmisspelt)⟩
  · rw [readExample, readDeclarations_eq]
    rcases mapM_read_cases (declarationsOf text) with
      ⟨declaration, hmem, spelling, hspelling, hfails⟩ | ⟨hplain, definitions, hreads, hall⟩
    · refine Or.inl ⟨declaration, hmem, spelling, hspelling, ?_⟩
      rw [declarationsOf] at hfails
      rw [hfails]
      rfl
    · refine Or.inr ⟨hplain, definitions, hall, ?_⟩
      rw [declarationsOf] at hreads
      rw [hreads]
      rfl

/-- A requirement tag with a dotless small i makes the file unreadable. -/
theorem readExample_dotless :
    readExample [] "# [optıonal]\nX=1\n" = .error (.unknownRequirement "optıonal") := by
  rfl

end EnvFiles
