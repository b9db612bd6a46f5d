import EnvFiles.Example
import EnvFiles.Proofs.Comment.Tag
import EnvFiles.Proofs.Table

/-!
# What example files declare

Whatever stands in an example file and whatever patterns plugins have, its definitions have
distinct names, and every text of a definition that can get into a values file comes from one
line of the file: the example value, the literals of the directive and the description. A
specific schema that overrides a shared one keeps this.
-/

namespace EnvFiles

/-- The literals that a directive can write. -/
def Directive.literals : Directive → List Text
  | .fixed (some value) => [value]
  | .boolean yes no => [yes, no]
  | _ => []

/-- A definition whose name is a name and whose texts stay on one line. -/
structure Definition.Sound (definition : Definition) : Prop where
  isName_name : isName definition.name = true
  isOneLine_exampleValue : Text.isOneLine definition.exampleValue = true
  trimEnd_exampleValue : Text.trimEnd definition.exampleValue = definition.exampleValue
  isOneLine_description : Text.isOneLine definition.description = true
  isOneLine_of_mem_literals :
    ∀ literal ∈ definition.directive.literals, Text.isOneLine literal = true

/-- A schema of sound definitions with distinct names. -/
structure SoundSchema (definitions : List Definition) : Prop where
  nodup_names : (definitions.map Definition.name).Nodup
  sound_of_mem : ∀ definition ∈ definitions, definition.Sound

namespace Text

/-- What is found somewhere in a text is found at the start of one of its ends. -/
theorem exists_suffix_of_firstMatch {α : Type} {attempt : Text → Option α} {text : Text}
    {result : α} (h : firstMatch attempt text = some result) :
    ∃ suffix, suffix <:+ text ∧ attempt suffix = some result := by
  obtain ⟨before, suffix, rfl, hattempt, -⟩ := firstMatch_eq_some_iff.mp h
  exact ⟨suffix, List.suffix_append before suffix, hattempt⟩

/-- Erasing a part takes characters away only. -/
theorem eraseFirst_subset (part text : Text) : eraseFirst part text ⊆ text := by
  rcases eraseFirst_cases part text with hkept | ⟨before, after, rfl, hleft⟩
  · rw [hkept]
    exact List.Subset.refl _
  · rw [hleft]
    exact List.append_subset.mpr ⟨List.subset_append_of_subset_left _ (List.subset_append_left ..),
      List.subset_append_right ..⟩

/-- Single spaces take the place of line ends. -/
theorem isOneLine_collapseFrom (inRun : Bool) (text : Text) (h : isOneLine text = true) :
    isOneLine (collapseFrom inRun text) = true := by
  induction text generalizing inRun with
  | nil => rfl
  | cons c rest ih =>
    rw [isOneLine_cons, Bool.and_eq_true] at h
    rw [collapseFrom]
    split
    · split
      · exact ih true h.2
      · rw [isOneLine_cons, ih true h.2]
        rfl
    · rw [isOneLine_cons, ih false h.2, h.1]
      rfl

/-- Parts on one line each stay on one line when they are joined there. -/
theorem isOneLine_join {separator : Text} (hseparator : isOneLine separator = true)
    {parts : List Text} (h : ∀ part ∈ parts, isOneLine part = true) :
    isOneLine (join separator parts) = true := by
  fun_induction join separator parts with
  | case1 => rfl
  | case2 part => exact h part (List.mem_singleton_self _)
  | case3 part next rest ih =>
    rw [isOneLine_append, isOneLine_append, h part (List.mem_cons_self ..), hseparator,
      ih fun other hother => h other (List.mem_cons_of_mem _ hother)]
    rfl

end Text

section Comments

/-- What a pattern covers stands at the start of the text. -/
theorem append_of_foldedStart? {pattern text covered rest : Text}
    (h : foldedStart? pattern text = some (covered, rest)) : covered ++ rest = text :=
  (foldedStart?_eq_some_iff.mp h).2.symm

/-- The literals of a tag stand in the text, or are the two words for yes and no. -/
def LiteralsFrom (text : Text) (directive : Directive) : Prop :=
  ∀ literal ∈ directive.literals, literal ⊆ text ∨ literal = "true" ∨ literal = "false"

/-- A word alone has no literals. -/
theorem literalsFrom_wordTag {word text : Text} {meaning : Directive} {found : Found Directive}
    (hmeaning : meaning.literals = []) (h : wordTag word meaning text = some found) :
    LiteralsFrom text found.meaning := by
  obtain ⟨covered, -, rfl⟩ := Option.map_eq_some_iff.mp h
  intro literal hliteral
  rw [hmeaning] at hliteral
  exact absurd hliteral List.not_mem_nil

/-- The argument of a tag stands in the text. -/
theorem literalsFrom_argumentTag {word text : Text} {first others : Char → Bool}
    {meaning : Text → Directive} {found : Found Directive}
    (hmeaning : ∀ argument, ∀ literal ∈ (meaning argument).literals, literal = argument)
    (h : argumentTag word first others meaning text = some found) :
    LiteralsFrom text found.meaning := by
  unfold argumentTag at h
  split at h
  · rename_i covered c rest hstart
    split at h
    · split at h
      · obtain rfl := Option.some.inj h
        intro literal hliteral
        left
        rw [hmeaning _ literal hliteral, ← append_of_foldedStart? hstart]
        refine List.subset_append_of_subset_right covered (List.cons_subset_cons c ?_)
        exact (List.takeWhile_prefix _).subset
      · simp at h
    · simp at h
  · simp at h

/-- The two literals of a yes/no tag stand in the text. -/
theorem subset_of_literalPair? {text yes no : Text} (h : literalPair? text = some (yes, no)) :
    yes ⊆ text ∧ no ⊆ text := by
  unfold literalPair? at h
  split at h
  · rename_i rest
    simp only at h
    split at h
    · rename_i after hyes hafter
      split at h
      · obtain ⟨rfl, rfl⟩ := Prod.mk.inj (Option.some.inj h)
        refine ⟨List.subset_cons_of_subset _ (List.takeWhile_prefix _).subset,
          List.subset_cons_of_subset _ ?_⟩
        calc after.takeWhile (· != ']') ⊆ after := (List.takeWhile_prefix _).subset
          _ ⊆ '/' :: after := List.subset_cons_self ..
          _ ⊆ rest := hafter ▸ (List.dropWhile_suffix _).subset
      · simp at h
    · simp at h
  · simp at h

/-- The literals of a yes/no tag stand in the text, or are the usual two. -/
theorem literalsFrom_booleanTag {text : Text} {found : Found Directive}
    (h : booleanTag text = some found) : LiteralsFrom text found.meaning := by
  unfold booleanTag at h
  split at h
  · simp at h
  · rename_i covered rest hstart
    have hrest : rest ⊆ text := by
      rw [← append_of_foldedStart? hstart]
      exact List.subset_append_right ..
    split at h
    · rename_i yes no hpair
      obtain rfl := Option.some.inj h
      have hsubset := subset_of_literalPair? hpair
      intro literal hliteral
      simp only [Directive.literals, List.mem_cons, List.not_mem_nil, or_false] at hliteral
      rcases hliteral with rfl | rfl
      · exact Or.inl (List.Subset.trans hsubset.1 hrest)
      · exact Or.inl (List.Subset.trans hsubset.2 hrest)
    · obtain rfl := Option.some.inj h
      intro literal hliteral
      simp only [Directive.literals, List.mem_cons, List.not_mem_nil, or_false] at hliteral
      exact Or.inr hliteral
    · simp at h

/-- The literals of a directive tag stand in the text, or are the usual two. -/
theorem literalsFrom_directiveTags {tag : Text → Option (Found Directive)} {text : Text}
    {found : Found Directive} (htag : tag ∈ directiveTags) (h : tag text = some found) :
    LiteralsFrom text found.meaning := by
  simp only [directiveTags, List.mem_cons, List.not_mem_nil, or_false] at htag
  rcases htag with rfl | rfl | rfl | rfl | rfl | rfl | rfl
  · exact literalsFrom_wordTag rfl h
  · exact literalsFrom_argumentTag (by simp [Directive.literals]) h
  · exact literalsFrom_argumentTag (by simp [Directive.literals]) h
  · exact literalsFrom_argumentTag (by simp [Directive.literals]) h
  · exact literalsFrom_booleanTag h
  · exact literalsFrom_wordTag rfl h
  · exact literalsFrom_wordTag rfl h

/-- The literals of the directive that a comment names stand in the comment, or are the usual
two. -/
theorem literalsFrom_findDirective (patterns : List DirectivePattern) (comment : Text) :
    LiteralsFrom comment (findDirective patterns comment).1 := by
  have hnone (directive : Directive) (h : directive.literals = []) :
      LiteralsFrom comment directive := by
    intro literal hliteral
    rw [h] at hliteral
    exact absurd hliteral List.not_mem_nil
  rw [findDirective]
  generalize hclaimed : patterns.findSome? _ = claimed
  generalize hbuiltin : directiveTags.findSome? _ = builtin
  cases claimed with
  | some named =>
    obtain ⟨pattern, -, hpattern⟩ := List.exists_of_findSome?_eq_some hclaimed
    obtain ⟨raw, -, rfl⟩ := Option.map_eq_some_iff.mp hpattern
    exact hnone _ rfl
  | none =>
    cases builtin with
    | none => exact hnone _ rfl
    | some named =>
      obtain ⟨tag, htag, hfound⟩ := List.exists_of_findSome?_eq_some hbuiltin
      obtain ⟨found, hmatch, rfl⟩ := Option.map_eq_some_iff.mp hfound
      obtain ⟨suffix, hsuffix, hattempt⟩ := Text.exists_suffix_of_firstMatch hmatch
      intro literal hliteral
      exact (literalsFrom_directiveTags htag hattempt literal hliteral).imp_left
        fun hsubset => List.Subset.trans hsubset hsuffix.subset

/-- A cleaned description stays on one line. -/
theorem isOneLine_cleanDescription {text : Text} (h : Text.isOneLine text = true) :
    Text.isOneLine (cleanDescription text) = true := by
  have hnormalised (part : Text) (hpart : Text.isOneLine part = true) :
      Text.isOneLine (Text.normaliseBlanks part) = true :=
    Text.isOneLine_of_subset (Text.trim_subset _) (Text.isOneLine_collapseFrom false part hpart)
  unfold cleanDescription
  split
  · refine hnormalised _ (Text.isOneLine_of_subset ?_ h)
    exact List.subset_cons_of_subset _ (List.dropWhile_suffix _).subset
  · exact hnormalised _ h

/-- A comment on one line has its meaning there. -/
theorem isOneLine_of_readComment {patterns : List DirectivePattern} {comment : Text}
    {meaning : CommentMeaning} (hcomment : Text.isOneLine comment = true)
    (h : readComment patterns comment = .ok meaning) :
    Text.isOneLine meaning.description = true ∧
      ∀ literal ∈ meaning.directive.literals, Text.isOneLine literal = true := by
  have hliterals : ∀ literal ∈ (findDirective patterns comment).1.literals,
      Text.isOneLine literal = true := by
    intro literal hliteral
    rcases literalsFrom_findDirective patterns comment literal hliteral with hsubset | rfl | rfl
    · exact Text.isOneLine_of_subset hsubset hcomment
    · decide
    · decide
  have hdescription (description : Text) (hsubset : description ⊆ comment) :
      Text.isOneLine (cleanDescription description) = true :=
    isOneLine_cleanDescription (Text.isOneLine_of_subset hsubset hcomment)
  have herased (raw description : Text) (hsubset : description ⊆ comment) :
      Text.isOneLine (cleanDescription (Text.eraseFirst raw description)) = true :=
    hdescription _ (List.Subset.trans (Text.eraseFirst_subset _ _) hsubset)
  unfold readComment at h
  rcases hdirective : findDirective patterns comment with ⟨directive, raw?⟩
  rw [hdirective] at h hliterals
  cases hlevel : Text.firstMatch requirementTag comment with
  | none =>
    rw [hlevel] at h
    obtain rfl := Except.ok.inj h
    refine ⟨?_, hliterals⟩
    cases raw? with
    | none => exact hdescription comment (List.Subset.refl _)
    | some raw => exact herased raw comment (List.Subset.refl _)
  | some found =>
    simp only [hlevel] at h
    split at h
    · obtain rfl := Except.ok.inj h
      refine ⟨?_, hliterals⟩
      cases raw? with
      | none => exact hdescription _ (Text.eraseFirst_subset _ _)
      | some raw => exact herased raw _ (Text.eraseFirst_subset _ _)
    · cases h

end Comments

section Declarations

variable {patterns : List DirectivePattern}

/-- The comment lines collected stay on one line each. -/
def PendingComment.IsOneLine (pending : PendingComment) : Prop :=
  ∀ part ∈ pending.parts, Text.isOneLine part = true

/-- Collecting one more comment line. -/
theorem PendingComment.IsOneLine.add {pending : PendingComment} (h : pending.IsOneLine)
    {line : Text} (hline : Text.isOneLine line = true) : (pending.add line).IsOneLine := by
  have hpart : Text.isOneLine (Text.trim ((Text.trim line).drop 1)) = true :=
    Text.isOneLine_of_subset (List.Subset.trans (Text.trim_subset _)
      (List.Subset.trans (List.drop_subset 1 _) (Text.trim_subset line))) hline
  intro part hmem
  simp only [PendingComment.add] at hmem
  split at hmem
  · exact h part hmem
  · rcases List.mem_append.mp hmem with hmem | hmem
    · exact h part hmem
    · rw [List.mem_singleton.mp hmem]
      exact hpart

/-- An assignment line under a comment declares a sound definition. -/
theorem sound_ofAssignment {comment line name value : Text} {definition : Definition}
    (hcomment : Text.isOneLine comment = true) (hline : Text.isOneLine line = true)
    (hdeclared : declared? line = some (name, value))
    (h : Definition.ofAssignment patterns comment name value = .ok definition) :
    definition.Sound := by
  unfold Definition.ofAssignment at h
  cases hmeaning : readComment patterns comment with
  | error failure =>
    rw [hmeaning] at h
    cases h
  | ok meaning =>
    rw [hmeaning] at h
    obtain rfl := Except.ok.inj h
    obtain ⟨hdescription, hliterals⟩ := isOneLine_of_readComment hcomment hmeaning
    exact {
      isName_name := isName_of_declared? hdeclared
      isOneLine_exampleValue := Text.isOneLine_of_subset (subset_of_declared? hdeclared) hline
      trimEnd_exampleValue := trimEnd_of_declared? hdeclared
      isOneLine_description := hdescription
      isOneLine_of_mem_literals := hliterals }

/-- One more sound definition. -/
theorem SoundSchema.declare {definitions : List Definition} (h : SoundSchema definitions)
    {definition : Definition} (hsound : definition.Sound) :
    SoundSchema (EnvFiles.declare definitions definition) where
  nodup_names := nodup_map_upsert h.nodup_names definition
  sound_of_mem := by
    intro other hother
    rcases mem_of_mem_upsert hother with rfl | hother
    · exact hsound
    · exact h.sound_of_mem other hother

/-- No definitions at all. -/
theorem soundSchema_nil : SoundSchema [] :=
  ⟨List.nodup_nil, fun _ hmem => absurd hmem List.not_mem_nil⟩

/-- Lines declare sound definitions. -/
theorem soundSchema_readDeclarations {lines : List Text} {definitions result : List Definition}
    {pending : PendingComment} (hlines : ∀ line ∈ lines, Text.isOneLine line = true)
    (hdefinitions : SoundSchema definitions) (hpending : pending.IsOneLine)
    (h : readDeclarations patterns definitions pending lines = .ok result) :
    SoundSchema result := by
  induction lines generalizing definitions pending with
  | nil =>
    obtain rfl := Except.ok.inj h
    exact hdefinitions
  | cons line rest ih =>
    have hline := hlines line (List.mem_cons_self ..)
    have hrest : ∀ other ∈ rest, Text.isOneLine other = true :=
      fun other hother => hlines other (List.mem_cons_of_mem _ hother)
    have hnothing : PendingComment.IsOneLine {} := fun _ hmem => absurd hmem List.not_mem_nil
    simp only [readDeclarations] at h
    split at h
    · exact ih hrest hdefinitions hnothing h
    · split at h
      · exact ih hrest hdefinitions
          (hpending.add (Text.isOneLine_of_subset (Text.trim_subset line) hline)) h
      · rename_i hcomment
        split at h
        · exact ih hrest hdefinitions hpending h
        · rename_i name value hassignment
          have hdeclared : declared? line = some (name, value) := by
            rw [declared?, if_neg hcomment, hassignment]
          cases hdefinition :
              Definition.ofAssignment patterns pending.text name value with
          | error failure =>
            rw [hdefinition] at h
            cases h
          | ok definition =>
            rw [hdefinition] at h
            have htext : Text.isOneLine pending.text = true :=
              Text.isOneLine_join (by decide) hpending
            exact ih hrest
              (hdefinitions.declare (sound_ofAssignment htext hline hdeclared hdefinition))
              hnothing h

/-- An example file declares sound definitions. -/
theorem soundSchema_readExample {text sourcePath : Text} {schema : Schema}
    (h : readExample patterns text sourcePath = .ok schema) : SoundSchema schema.definitions := by
  unfold readExample at h
  cases hdefinitions : readDeclarations patterns [] {} (Text.lines text) with
  | error failure =>
    rw [hdefinitions] at h
    cases h
  | ok definitions =>
    rw [hdefinitions] at h
    obtain rfl := Except.ok.inj h
    exact soundSchema_readDeclarations (fun _ hline => Text.isOneLine_of_mem_lines hline)
      soundSchema_nil (fun _ hmem => absurd hmem List.not_mem_nil) hdefinitions

/-- Definitions declared one after another are sound together. -/
theorem soundSchema_foldl_declare {definitions more : List Definition}
    (h : SoundSchema definitions) (hmore : ∀ definition ∈ more, definition.Sound) :
    SoundSchema (more.foldl declare definitions) := by
  induction more generalizing definitions with
  | nil => exact h
  | cons definition rest ih =>
    exact ih (h.declare (hmore definition (List.mem_cons_self ..)))
      fun other hother => hmore other (List.mem_cons_of_mem _ hother)

/-- A sound schema overridden by a sound one is sound. -/
theorem soundSchema_mergeDefinitions {shared specific : List Definition}
    (hshared : SoundSchema shared) (hspecific : SoundSchema specific) :
    SoundSchema (mergeDefinitions shared specific) := by
  refine soundSchema_foldl_declare soundSchema_nil fun definition hmem => ?_
  rcases List.mem_append.mp hmem with hmem | hmem
  · exact hshared.sound_of_mem definition hmem
  · exact hspecific.sound_of_mem definition hmem

/-- What was declared was there or is new. -/
theorem mem_or_mem_of_mem_foldl_declare {definitions more : List Definition}
    {definition : Definition} (h : definition ∈ more.foldl declare definitions) :
    definition ∈ definitions ∨ definition ∈ more := by
  induction more generalizing definitions with
  | nil => exact Or.inl h
  | cons other rest ih =>
    rcases ih h with hdeclared | hrest
    · rcases mem_of_mem_upsert hdeclared with rfl | hold
      · exact Or.inr (List.mem_cons_self ..)
      · exact Or.inl hold
    · exact Or.inr (List.mem_cons_of_mem _ hrest)

/-- A definition of two schemas together stands in one of them. -/
theorem mem_or_mem_of_mem_mergeDefinitions {shared specific : List Definition}
    {definition : Definition} (h : definition ∈ mergeDefinitions shared specific) :
    definition ∈ shared ∨ definition ∈ specific := by
  rcases mem_or_mem_of_mem_foldl_declare h with hnone | hmem
  · exact absurd hnone List.not_mem_nil
  · exact List.mem_append.mp hmem

/-- Definitions of new names are added in their order. -/
theorem foldl_declare_of_nodup {definitions more : List Definition}
    (h : ((definitions ++ more).map Definition.name).Nodup) :
    more.foldl declare definitions = definitions ++ more := by
  induction more generalizing definitions with
  | nil => exact (List.append_nil _).symm
  | cons definition rest ih =>
    have hnew : definition.name ∉ definitions.map Definition.name := by
      rw [List.map_append, List.nodup_append] at h
      intro hmem
      exact h.2.2 _ hmem _ (List.mem_map_of_mem (List.mem_cons_self ..)) rfl
    rw [List.foldl_cons, declare, upsert_of_notMem hnew]
    rw [List.append_cons] at h
    rw [ih h, ← List.append_cons]

/-- A definition stays when others of other names are declared. -/
theorem mem_foldl_declare_of_notMem {definitions more : List Definition} {definition : Definition}
    (h : definition ∈ definitions) (hname : definition.name ∉ more.map Definition.name) :
    definition ∈ more.foldl declare definitions := by
  induction more generalizing definitions with
  | nil => exact h
  | cons other rest ih =>
    rw [List.map_cons, List.mem_cons, not_or] at hname
    exact ih (mem_upsert_of_ne h hname.1) hname.2

/-- A shared definition stays in two schemas together unless the second one has its name. -/
theorem mem_mergeDefinitions_of_notMem {shared specific : List Definition}
    (hnodup : (shared.map Definition.name).Nodup) {definition : Definition}
    (h : definition ∈ shared) (hname : definition.name ∉ specific.map Definition.name) :
    definition ∈ mergeDefinitions shared specific := by
  have hshared : shared.foldl declare [] = shared := foldl_declare_of_nodup hnodup
  rw [mergeDefinitions, List.foldl_append, hshared]
  exact mem_foldl_declare_of_notMem h hname

/-- Declaring definitions of distinct names replaces those that had their names. -/
theorem mem_foldl_declare_iff {definitions more : List Definition}
    (hdefinitions : (definitions.map Definition.name).Nodup)
    (hmore : (more.map Definition.name).Nodup) {definition : Definition} :
    definition ∈ more.foldl declare definitions ↔ definition ∈ more ∨
      definition ∈ definitions ∧ definition.name ∉ more.map Definition.name := by
  induction more generalizing definitions with
  | nil => simp
  | cons first rest ih =>
    rw [List.map_cons, List.nodup_cons] at hmore
    rw [List.foldl_cons, declare, ih (nodup_map_upsert hdefinitions first) hmore.2,
      mem_upsert_iff hdefinitions, List.map_cons, List.mem_cons, List.mem_cons]
    constructor
    · rintro (h | ⟨rfl | ⟨h, hne⟩, hrest⟩)
      · exact Or.inl (Or.inr h)
      · exact Or.inl (Or.inl rfl)
      · exact Or.inr ⟨h, not_or.mpr ⟨hne, hrest⟩⟩
    · rintro ((rfl | h) | ⟨h, hname⟩)
      · exact Or.inr ⟨Or.inl rfl, hmore.1⟩
      · exact Or.inl h
      · exact Or.inr ⟨Or.inr ⟨h, (not_or.mp hname).1⟩, (not_or.mp hname).2⟩

/-- Two schemas together hold the definitions of the specific one, and those of the shared one
whose names the specific one does not have. -/
theorem mem_mergeDefinitions_iff {shared specific : List Definition}
    (hshared : (shared.map Definition.name).Nodup)
    (hspecific : (specific.map Definition.name).Nodup) {definition : Definition} :
    definition ∈ mergeDefinitions shared specific ↔ definition ∈ specific ∨
      definition ∈ shared ∧ definition.name ∉ specific.map Definition.name := by
  have hfirst : shared.foldl declare [] = shared := foldl_declare_of_nodup hshared
  rw [mergeDefinitions, List.foldl_append, hfirst, mem_foldl_declare_iff hshared hspecific]

/-- Declared definitions have the names in order of first occurrence. -/
theorem map_name_foldl_declare (definitions : List Definition) :
    (definitions.foldl declare []).map Definition.name =
      firstOccurrences (definitions.map Definition.name) := by
  induction definitions using List.reverseRecOn with
  | nil => rfl
  | append_singleton definitions last ih =>
    rw [List.foldl_append, List.foldl_cons, List.foldl_nil, declare, map_upsert, ih,
      List.map_append, List.map_singleton, firstOccurrences_concat]

/-- Declared definitions have distinct names. -/
theorem nodup_map_name_foldl_declare (definitions : List Definition) :
    ((definitions.foldl declare []).map Definition.name).Nodup := by
  rw [map_name_foldl_declare]
  exact nodup_firstOccurrences _

/-- Of the definitions of one name the last one counts. -/
theorem mem_foldl_declare_nil_iff {definitions : List Definition} {definition : Definition} :
    definition ∈ definitions.foldl declare [] ↔
      ∃ before after, definitions = before ++ definition :: after ∧
        definition.name ∉ after.map Definition.name := by
  induction definitions using List.reverseRecOn with
  | nil => simp
  | append_singleton definitions last ih =>
    rw [List.foldl_append, List.foldl_cons, List.foldl_nil, declare,
      mem_upsert_iff (nodup_map_name_foldl_declare definitions), ih]
    constructor
    · rintro (rfl | ⟨⟨before, after, rfl, hafter⟩, hne⟩)
      · exact ⟨definitions, [], rfl, List.not_mem_nil⟩
      · refine ⟨before, after ++ [last], by simp, ?_⟩
        simp only [List.map_append, List.mem_append, List.map_singleton, List.mem_singleton]
        exact not_or.mpr ⟨hafter, hne⟩
    · rintro ⟨before, after, heq, hafter⟩
      rcases List.eq_nil_or_concat' after with rfl | ⟨after, other, rfl⟩
      · obtain ⟨-, hlast⟩ := List.append_inj' heq rfl
        exact Or.inl (List.singleton_inj.mp hlast).symm
      · rw [← List.cons_append, ← List.append_assoc] at heq
        obtain ⟨rfl, hlast⟩ := List.append_inj' heq rfl
        obtain rfl := List.singleton_inj.mp hlast
        simp only [List.map_append, List.mem_append, List.map_singleton, List.mem_singleton,
          not_or] at hafter
        exact Or.inr ⟨⟨before, after, rfl, hafter.1⟩, hafter.2⟩

/-- Definitions with distinct names are determined by the order of their names. -/
theorem eq_of_map_name_eq {first second : List Definition}
    (hnames : first.map Definition.name = second.map Definition.name)
    (hnodup : (second.map Definition.name).Nodup) (hsubset : first ⊆ second) : first = second :=
  eq_of_map_key_eq Definition.name hnames hnodup hsubset

/-- Declaring definitions after others is merging what both come to. -/
theorem foldl_declare_append (first second : List Definition) :
    (first ++ second).foldl declare [] =
      mergeDefinitions (first.foldl declare []) (second.foldl declare []) := by
  have hnames : ((first ++ second).foldl declare []).map Definition.name =
      (mergeDefinitions (first.foldl declare []) (second.foldl declare [])).map
        Definition.name := by
    rw [mergeDefinitions, map_name_foldl_declare, map_name_foldl_declare, List.map_append,
      List.map_append, map_name_foldl_declare, map_name_foldl_declare,
      firstOccurrences_append_firstOccurrences, firstOccurrences_firstOccurrences_append]
  refine eq_of_map_name_eq hnames (nodup_map_name_foldl_declare _) fun definition hmem => ?_
  rw [mem_mergeDefinitions_iff (nodup_map_name_foldl_declare _) (nodup_map_name_foldl_declare _)]
  obtain ⟨before, after, hsplit, hlast⟩ := mem_foldl_declare_nil_iff.mp hmem
  rcases List.append_eq_append_iff.mp hsplit with ⟨front, -, hsecond⟩ | ⟨rest, hfirst, hrest⟩
  · exact Or.inl (mem_foldl_declare_nil_iff.mpr ⟨front, after, hsecond, hlast⟩)
  · cases rest with
    | nil => exact Or.inl (mem_foldl_declare_nil_iff.mpr ⟨[], after, hrest.symm, hlast⟩)
    | cons other rest =>
      obtain ⟨rfl, hafter⟩ := List.cons.inj hrest
      rw [hafter, List.append_eq, List.map_append, List.mem_append, not_or] at hlast
      refine Or.inr ⟨mem_foldl_declare_nil_iff.mpr ⟨before, rest, hfirst, hlast.1⟩, ?_⟩
      rw [map_name_foldl_declare, mem_firstOccurrences]
      exact hlast.2

end Declarations
end EnvFiles
