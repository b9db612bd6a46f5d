import EnvFiles.Proofs.Example
import EnvFiles.Proofs.Example.Reading

/-!
# The grammar of example files

An example file is read line by line with the comment so far in hand. What comes out can be said
by the places of its lines alone. A line is blank, a comment, a declaration or something else. The
comment of a declaration is made of the comment lines above it, up to the next line that is blank
or a declaration. The last declaration of a name counts, and the names come in the order of their
first declarations.
-/

namespace EnvFiles

/-- What a line of an example file is. -/
inductive ExampleLine
  | blank
  | comment (text : Text)
  | declaration (name value : Text)
  | other
  deriving DecidableEq, Repr

/-- What the line is, blanks at its ends aside. The text of a comment follows its number sign. -/
def exampleLine (line : Text) : ExampleLine :=
  let trimmed := Text.trim line
  if trimmed.isEmpty then .blank
  else if isComment trimmed then .comment (Text.trim (trimmed.drop 1))
  else match assignment? trimmed with
    | some (name, value) => .declaration name value
    | none => .other

namespace ExampleLine

/-- A blank line and a declaration end the comment above them. -/
def severs : ExampleLine → Bool
  | blank | declaration .. => true
  | comment _ | other => false

/-- The text of a comment, if it has one. -/
def remark? : ExampleLine → Option Text
  | comment text => if text.isEmpty then none else some text
  | _ => none

/-- The name that is declared. -/
def name? : ExampleLine → Option Text
  | declaration name _ => some name
  | _ => none

end ExampleLine

/-- The names that lines declare, one for each declaration. -/
def namesDeclared (lines : List Text) : List Text :=
  lines.filterMap fun line => (exampleLine line).name?

/-- The texts of the comment lines at the end of some lines, down from the last one that severs. -/
def remarks (above : List Text) : List Text :=
  (above.reverse.takeWhile fun line => !(exampleLine line).severs).reverse.filterMap fun line =>
    (exampleLine line).remark?

/-- The comment of a declaration below some lines. -/
def commentBelow (above : List Text) : Text := Text.join " " (remarks above)

/-- A definition is what the last declaration of its name among the lines says: the value stands
behind the equals sign, the comment between the declaration and the next line above it that
severs, and the rest is what the comment means. -/
def LastDeclared (patterns : List DirectivePattern) (lines : List Text)
    (definition : Definition) : Prop :=
  ∃ above line below gap, lines = above ++ line :: below ∧
    exampleLine line = .declaration definition.name definition.exampleValue ∧
    Text.trim line = definition.name ++ (gap ++ '=' :: definition.exampleValue) ∧
    (∀ c ∈ gap, Text.isBlank c = true) ∧
    definition.name ∉ namesDeclared below ∧
    definition.rawComment = commentBelow above ∧
    readComment patterns definition.rawComment =
      .ok ⟨definition.requirement, definition.directive, definition.description⟩

section Lines

/-- A declaration has its value behind an equals sign, with nothing but blanks between the name and
the sign. -/
theorem exists_gap_of_exampleLine {line name value : Text}
    (h : exampleLine line = .declaration name value) :
    ∃ gap, Text.trim line = name ++ (gap ++ '=' :: value) ∧
      ∀ c ∈ gap, Text.isBlank c = true := by
  have hdeclared : declared? line = some (name, value) := by
    simp only [exampleLine] at h
    split at h
    · cases h
    · split at h
      · cases h
      · rename_i hcomment
        split at h
        · rename_i hassignment
          obtain ⟨rfl, rfl⟩ := ExampleLine.declaration.inj h
          rw [declared?, if_neg hcomment, hassignment]
        · cases h
  obtain ⟨rest, htake, hdrop, -⟩ := declared?_eq_some_iff.mp hdeclared
  refine ⟨rest.takeWhile Text.isBlank, ?_, List.all_eq_true.mp List.all_takeWhile⟩
  rw [← hdrop, List.takeWhile_append_dropWhile]
  exact (takeName?_eq_some_iff.mp htake).1

/-- One more line above: it severs, adds its text, or does neither. -/
theorem remarks_concat (above : List Text) (line : Text) :
    remarks (above ++ [line]) =
      if (exampleLine line).severs then []
      else remarks above ++ (exampleLine line).remark?.toList := by
  rw [remarks, List.reverse_append, List.reverse_singleton, List.singleton_append,
    List.takeWhile_cons]
  cases hsevers : (exampleLine line).severs with
  | true => rfl
  | false =>
    have hlast : [line].filterMap (fun line => (exampleLine line).remark?) =
        (exampleLine line).remark?.toList := by
      cases hremark : (exampleLine line).remark? <;> simp [hremark]
    rw [Bool.not_false, if_pos rfl, List.reverse_cons, List.filterMap_append, hlast]
    rfl

/-- The declarations among lines that stand below others, each under its comment. -/
def declarationsBelow (above : List Text) : List Text → List Declaration
  | [] => []
  | line :: rest =>
    match exampleLine line with
    | .declaration name value =>
      ⟨commentBelow above, name, value⟩ :: declarationsBelow (above ++ [line]) rest
    | _ => declarationsBelow (above ++ [line]) rest

/-- Going on from a line, by what it is. -/
theorem declarationsFrom_cons (pending : PendingComment) (line : Text) (rest : List Text) :
    declarationsFrom pending (line :: rest) =
      match exampleLine line with
      | .blank => declarationsFrom {} rest
      | .comment text => declarationsFrom
          ⟨if text.isEmpty then pending.parts else pending.parts ++ [text], true⟩ rest
      | .declaration name value => ⟨pending.text, name, value⟩ :: declarationsFrom {} rest
      | .other => declarationsFrom pending rest := by
  simp only [declarationsFrom, exampleLine]
  split
  · rfl
  · split
    · rw [PendingComment.add, Text.trim_trim]
    · cases assignment? (Text.trim line) <;> rfl

/-- The comment in hand is made of the comment lines since the last line that severed. -/
theorem declarationsFrom_eq_declarationsBelow {pending : PendingComment} {above : List Text}
    (h : pending.parts = remarks above) (lines : List Text) :
    declarationsFrom pending lines = declarationsBelow above lines := by
  induction lines generalizing pending above with
  | nil => rfl
  | cons line rest ih =>
    have hnext := remarks_concat above line
    rw [declarationsFrom_cons, declarationsBelow]
    cases hkind : exampleLine line with
    | blank =>
      rw [hkind] at hnext
      exact ih hnext.symm
    | comment text =>
      rw [hkind] at hnext
      refine ih ?_
      rw [hnext, h]
      cases text <;> simp [ExampleLine.severs, ExampleLine.remark?]
    | declaration name value =>
      rw [hkind] at hnext
      rw [PendingComment.text, h, ← commentBelow]
      exact congrArg _ (ih hnext.symm)
    | other =>
      rw [hkind] at hnext
      refine ih ?_
      rw [hnext, h]
      exact (List.append_nil _).symm

/-- Lines above others are read first. -/
theorem declarationsBelow_append (above first second : List Text) :
    declarationsBelow above (first ++ second) =
      declarationsBelow above first ++ declarationsBelow (above ++ first) second := by
  induction first generalizing above with
  | nil => rw [List.append_nil]; rfl
  | cons line rest ih =>
    have hrest := ih (above ++ [line])
    rw [List.append_assoc, List.singleton_append] at hrest
    rw [List.cons_append, declarationsBelow, declarationsBelow]
    cases exampleLine line <;> simp [hrest]

/-- The names of the declarations are those that the lines declare. -/
theorem map_name_declarationsBelow (above lines : List Text) :
    (declarationsBelow above lines).map Declaration.name = namesDeclared lines := by
  induction lines generalizing above with
  | nil => rfl
  | cons line rest ih =>
    rw [declarationsBelow, namesDeclared, List.filterMap_cons]
    have hrest := ih (above ++ [line])
    cases exampleLine line <;> simp [ExampleLine.name?, hrest, namesDeclared]

/-- Each declaration has its place among the lines, and those behind it stand below that place. -/
theorem exists_place_of_declarationsBelow_eq {above lines : List Text}
    {before after : List Declaration} {declaration : Declaration}
    (h : declarationsBelow above lines = before ++ declaration :: after) :
    ∃ front line below, lines = front ++ line :: below ∧
      exampleLine line = .declaration declaration.name declaration.value ∧
      declaration.comment = commentBelow (above ++ front) ∧
      after.map Declaration.name = namesDeclared below := by
  induction lines generalizing above before with
  | nil => exact absurd h (by simp [declarationsBelow])
  | cons line rest ih =>
    have hlater {before : List Declaration}
        (h : declarationsBelow (above ++ [line]) rest = before ++ declaration :: after) :
        ∃ front other below, line :: rest = front ++ other :: below ∧
          exampleLine other = .declaration declaration.name declaration.value ∧
          declaration.comment = commentBelow (above ++ front) ∧
          after.map Declaration.name = namesDeclared below := by
      obtain ⟨front, other, below, rfl, hother, hcomment, hafter⟩ := ih h
      exact ⟨line :: front, other, below, rfl, hother, by simpa using hcomment, hafter⟩
    rw [declarationsBelow] at h
    cases hkind : exampleLine line with
    | declaration name value =>
      rw [hkind] at h
      cases before with
      | nil =>
        obtain ⟨rfl, rfl⟩ := List.cons.inj h
        exact ⟨[], line, rest, rfl, hkind, by rw [List.append_nil],
          map_name_declarationsBelow _ _⟩
      | cons first before => exact hlater (List.cons.inj h).2
    | blank => rw [hkind] at h; exact hlater h
    | comment text => rw [hkind] at h; exact hlater h
    | other => rw [hkind] at h; exact hlater h

/-- A line that declares something does so at its place among the lines. -/
theorem declarationsBelow_of_place (above front : List Text) {line : Text} (below : List Text)
    {name value : Text} (h : exampleLine line = .declaration name value) :
    declarationsBelow above (front ++ line :: below) =
      declarationsBelow above front ++ ⟨commentBelow (above ++ front), name, value⟩ ::
        declarationsBelow (above ++ front ++ [line]) below := by
  rw [declarationsBelow_append, declarationsBelow, h]

/-- The assignments of an example file are the declarations among its lines. -/
theorem declarationsOf_eq (text : Text) :
    declarationsOf text = declarationsBelow [] (Text.lines text) :=
  declarationsFrom_eq_declarationsBelow rfl _

end Lines

section Related

variable {α β : Type} {related : α → β → Prop}

/-- A related list splits where the other one does. -/
theorem exists_split_of_forall₂ {items : List α} {before after : List β} {result : β}
    (h : List.Forall₂ related items (before ++ result :: after)) :
    ∃ first item rest, items = first ++ item :: rest ∧ related item result ∧
      List.Forall₂ related rest after := by
  have hdrop := List.forall₂_drop_append items before (result :: after) h
  obtain ⟨item, rest, hitem, hrest, hsplit⟩ := List.forall₂_cons_right_iff.mp hdrop
  exact ⟨items.take before.length, item, rest, by rw [← hsplit, List.take_append_drop], hitem,
    hrest⟩

/-- Related lists exist where related items do. -/
theorem exists_forall₂ {items : List α} (h : ∀ item ∈ items, ∃ result, related item result) :
    ∃ results, List.Forall₂ related items results := by
  induction items with
  | nil => exact ⟨[], .nil⟩
  | cons item rest ih =>
    obtain ⟨hitem, hrest⟩ := List.forall_mem_cons.mp h
    obtain ⟨result, hresult⟩ := hitem
    obtain ⟨results, hresults⟩ := ih hrest
    exact ⟨result :: results, .cons hresult hresults⟩

end Related

section Reading

variable {patterns : List DirectivePattern} {text sourcePath : Text}

/-- The names of what assignments come to are those of the assignments. -/
theorem map_name_of_forall₂ {declarations : List Declaration} {definitions : List Definition}
    (h : List.Forall₂ (fun declaration definition => Declaration.read patterns declaration =
      .ok definition) declarations definitions) :
    definitions.map Definition.name = declarations.map Declaration.name := by
  induction h with
  | nil => rfl
  | cons hread _ ih => rw [List.map_cons, List.map_cons, ih, (read_eq_ok_iff.mp hread).1]

/-- Of what the assignments come to, the last definition of a name is what the last declaration of
the name says. -/
theorem lastDeclared_of_forall₂ {definitions : List Definition} {definition : Definition}
    (h : List.Forall₂ (fun declaration definition => Declaration.read patterns declaration =
      .ok definition) (declarationsOf text) definitions)
    (hmem : definition ∈ definitions.foldl declare []) :
    LastDeclared patterns (Text.lines text) definition := by
  obtain ⟨before, after, rfl, hlast⟩ := mem_foldl_declare_nil_iff.mp hmem
  obtain ⟨first, declaration, rest, hsplit, hread, hrest⟩ := exists_split_of_forall₂ h
  rw [declarationsOf_eq] at hsplit
  obtain ⟨front, line, below, hlines, hline, hcomment, hbelow⟩ :=
    exists_place_of_declarationsBelow_eq hsplit
  obtain ⟨hname, hvalue, hraw, hmeaning⟩ := read_eq_ok_iff.mp hread
  rw [← hname, ← hvalue] at hline
  obtain ⟨gap, htrim, hgap⟩ := exists_gap_of_exampleLine hline
  rw [map_name_of_forall₂ hrest, hbelow] at hlast
  exact ⟨front, line, below, gap, hlines, hline, htrim, hgap, hlast, hraw.trans hcomment,
    hraw ▸ hmeaning⟩

/-- A definition that the last declaration of its name says is one of those that are declared. -/
theorem LastDeclared.mem_foldl_declare {definitions : List Definition} {definition : Definition}
    (h : LastDeclared patterns (Text.lines text) definition)
    (hread : List.Forall₂ (fun declaration definition => Declaration.read patterns declaration =
      .ok definition) (declarationsOf text) definitions) :
    definition ∈ definitions.foldl declare [] := by
  obtain ⟨above, line, below, -, hlines, hline, -, -, hlast, hraw, hmeaning⟩ := h
  rw [declarationsOf_eq, hlines, declarationsBelow_of_place [] above below hline,
    List.nil_append] at hread
  obtain ⟨first, found, rest, rfl, hfound, hrest⟩ := exists_split_of_forall₂ hread.flip
  have hsame : Declaration.read patterns ⟨commentBelow above, definition.name,
      definition.exampleValue⟩ = .ok definition :=
    read_eq_ok_iff.mpr ⟨rfl, rfl, hraw, hraw ▸ hmeaning⟩
  obtain rfl := Except.ok.inj (hfound.symm.trans hsame)
  refine mem_foldl_declare_nil_iff.mpr ⟨first, rest, rfl, ?_⟩
  rwa [map_name_of_forall₂ hrest.flip, map_name_declarationsBelow]

/-- An example file is read exactly if the comment of each declaration in it is. What comes out has
one definition for each declared name, in the order of their first declarations, and each is what
the last declaration of its name says. -/
theorem readExample_eq_ok_iff (patterns : List DirectivePattern) (text sourcePath : Text)
    (schema : Schema) :
    readExample patterns text sourcePath = .ok schema ↔
      (∀ above line below name value, Text.lines text = above ++ line :: below →
        exampleLine line = .declaration name value →
          ∃ meaning, readComment patterns (commentBelow above) = .ok meaning) ∧
      schema.sourcePath = sourcePath ∧
      schema.names = firstOccurrences (namesDeclared (Text.lines text)) ∧
      ∀ definition ∈ schema.definitions, LastDeclared patterns (Text.lines text) definition := by
  have hnames {definitions : List Definition}
      (h : List.Forall₂ (fun declaration definition => Declaration.read patterns declaration =
        .ok definition) (declarationsOf text) definitions) :
      (definitions.foldl declare []).map Definition.name =
        firstOccurrences (namesDeclared (Text.lines text)) := by
    rw [map_name_foldl_declare, map_name_of_forall₂ h, declarationsOf_eq,
      map_name_declarationsBelow]
  rw [readExample_eq_ok_iff_forall₂]
  constructor
  · rintro ⟨definitions, hread, rfl⟩
    refine ⟨fun above line below name value hlines hline => ?_, rfl, hnames hread,
      fun definition hmem => lastDeclared_of_forall₂ hread hmem⟩
    rw [declarationsOf_eq, hlines, declarationsBelow_of_place [] above below hline] at hread
    obtain ⟨_, definition, _, -, hdefinition, -⟩ := exists_split_of_forall₂ hread.flip
    exact ⟨_, (read_eq_ok_iff.mp hdefinition).2.2.2⟩
  · rintro ⟨hreadable, hpath, hschema, hlast⟩
    have hreads : ∀ declaration ∈ declarationsOf text,
        ∃ definition, Declaration.read patterns declaration = .ok definition := by
      intro declaration hmem
      obtain ⟨before, after, hsplit⟩ := List.append_of_mem hmem
      rw [declarationsOf_eq] at hsplit
      obtain ⟨front, line, below, hlines, hline, hcomment, -⟩ :=
        exists_place_of_declarationsBelow_eq hsplit
      obtain ⟨meaning, hmeaning⟩ := hreadable front line below _ _ hlines hline
      refine ⟨⟨declaration.name, declaration.value, meaning.requirement, meaning.directive,
        meaning.description, declaration.comment⟩, read_eq_ok_iff.mpr ⟨rfl, rfl, rfl, ?_⟩⟩
      rw [hcomment]
      exact hmeaning
    obtain ⟨definitions, hread⟩ := exists_forall₂ hreads
    refine ⟨definitions, hread, ?_⟩
    have hdefinitions : schema.definitions = definitions.foldl declare [] :=
      eq_of_map_name_eq (hschema.trans (hnames hread).symm) (nodup_map_name_foldl_declare _)
        fun definition hmem => (hlast definition hmem).mem_foldl_declare hread
    rw [← hpath, ← hdefinitions]

/-- A comment goes on past a line that is something else and ends at an empty line. -/
example : readExample [] "# a\nB=1\n# b\n\n# c\n#\n?\n# d\nB= 2\n" = .ok { definitions :=
    [{ name := "B", exampleValue := " 2", rawComment := "c d", description := "c d" }] } := by
  rfl

end Reading
end EnvFiles
