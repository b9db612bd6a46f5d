import EnvFiles.Proofs.Example.Grammar

/-!
# Example files one after another

Two line feeds between two texts leave an empty line there, whatever the first text ends in. No
comment goes on past it, so the declarations of the whole are those of the two texts. Definitions
that are declared one after another come to what the two schemas come to when they are merged:
in both the last definition of a name counts and stands where the first one stood.
-/

namespace EnvFiles

/-- An empty line severs. -/
theorem exampleLine_nil : exampleLine [] = .blank := by decide

/-- Below an empty line nothing is left of the comments above it. -/
theorem declarationsBelow_concat_nil (above lines : List Text) :
    declarationsBelow (above ++ [[]]) lines = declarationsBelow [] lines := by
  have hnone : remarks (above ++ [[]]) = [] := by
    rw [remarks_concat, exampleLine_nil]
    rfl
  have hpending : ({} : PendingComment).parts = remarks (above ++ [[]]) := hnone.symm
  rw [← declarationsFrom_eq_declarationsBelow hpending,
    ← declarationsFrom_eq_declarationsBelow (rfl : ({} : PendingComment).parts = remarks [])]

/-- Empty lines declare nothing. -/
theorem declarationsBelow_replicate_nil (above : List Text) (n : Nat) :
    declarationsBelow above (List.replicate n []) = [] := by
  have hnames := map_name_declarationsBelow above (List.replicate n [])
  rw [namesDeclared, List.filterMap_replicate_of_none (by rw [exampleLine_nil]; rfl)] at hnames
  exact List.map_eq_nil_iff.mp hnames

/-- The declarations of two texts with two line feeds between them are those of the one and those of
the other. -/
theorem declarationsOf_append_lineFeeds (first second : Text) :
    declarationsOf (first ++ '\n' :: '\n' :: second) =
      declarationsOf first ++ declarationsOf second := by
  obtain ⟨n, hlines⟩ := Text.lines_append_lineFeeds first second
  calc declarationsOf (first ++ '\n' :: '\n' :: second)
      = declarationsBelow [] ((Text.lines first ++ List.replicate n []) ++
          ([] :: Text.lines second)) := by rw [declarationsOf_eq, hlines]
    _ = declarationsBelow [] (Text.lines first ++ List.replicate n []) ++
          declarationsBelow [] (Text.lines second) := by
        rw [declarationsBelow_append, declarationsBelow, exampleLine_nil, List.nil_append,
          declarationsBelow_concat_nil]
    _ = declarationsOf first ++ declarationsOf second := by
        rw [declarationsBelow_append, declarationsBelow_replicate_nil, List.append_nil,
          declarationsOf_eq, declarationsOf_eq]

/-- Reading two example files one after another, with two line feeds between them, comes to reading
each of them and merging their definitions, and fails as the first of them does that fails. -/
theorem readExample_append (patterns : List DirectivePattern) (first second sourcePath : Text) :
    readExample patterns (first ++ '\n' :: '\n' :: second) sourcePath = (do
      let shared ← readExample patterns first
      let specific ← readExample patterns second
      return { sourcePath, definitions :=
        mergeDefinitions shared.definitions specific.definitions }) := by
  simp only [readExample_eq, declarationsOf_append_lineFeeds, List.mapM_append]
  cases (declarationsOf first).mapM (Declaration.read patterns) with
  | error failure => rfl
  | ok shared =>
    cases (declarationsOf second).mapM (Declaration.read patterns) with
    | error failure => rfl
    | ok specific =>
      exact congrArg (fun definitions => Except.ok (Schema.mk sourcePath definitions))
        (foldl_declare_append shared specific)

end EnvFiles
