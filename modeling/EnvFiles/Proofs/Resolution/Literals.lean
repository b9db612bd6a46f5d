import EnvFiles.Proofs.Resolution.Asking

/-!
# Which literal a yes/no variable takes

When nobody is there, or the reply to a yes/no question is blank, the example value decides which
of the two literals is taken. The literal for yes decides for itself. The one for no does so too,
unless it is a word that says yes in any case: such an example value turns into the other literal.
-/

namespace EnvFiles

/-- The words that say yes whatever the literals are. -/
def affirmativeWords : List Text := ["true", "yes"]

/-- An example value reads as a yes without being the literal for it. -/
def Definition.IsMisread (definition : Definition) (yes : Text) : Prop :=
  definition.exampleValue ≠ yes ∧ Text.lower definition.exampleValue ∈ affirmativeWords

instance (definition : Definition) (yes : Text) : Decidable (definition.IsMisread yes) :=
  inferInstanceAs (Decidable (_ ∧ _))

/-- A yes/no question gets no answer: nobody is there, or the next reply is blank. -/
def Unanswered (scope : Scope) (desk : Desk) : Prop :=
  scope.interactive = true → ∃ reply rest, desk.replies = reply :: rest ∧ Text.trim reply = []

/-- What a yes/no variable comes to without an answer. -/
def unansweredLiteral (scope : Scope) (definition : Definition) (literal : Text) : Resolved :=
  if scope.interactive then { value := literal, source := "prompted" }
  else
    { value := literal
      source := "default"
      warning := some ("Non-interactive mode: using " ++ literal ++ " for " ++ definition.name) }

section Literals

variable {registry : Registry} {scope : Scope} {definition : Definition} {yes no : Text}

/-- An example value says yes by being the literal for it, or by being misread. -/
theorem defaultIsYes_iff :
    defaultIsYes definition yes = true ↔
      definition.exampleValue = yes ∨ definition.IsMisread yes := by
  simp only [defaultIsYes, Definition.IsMisread, affirmativeWords, Bool.or_eq_true, beq_iff_eq,
    List.mem_cons, List.not_mem_nil, or_false, or_assoc]
  tauto

/-- A misread example value is taken for the literal for yes. -/
theorem booleanDefault_of_isMisread (h : definition.IsMisread yes) :
    booleanDefault definition yes no = yes := by
  rw [booleanDefault, if_pos (defaultIsYes_iff.mpr (Or.inr h))]

/-- Any other one that is one of the literals stands for itself. -/
theorem booleanDefault_of_not_isMisread (h : ¬ definition.IsMisread yes)
    (hexample : definition.exampleValue = yes ∨ definition.exampleValue = no) :
    booleanDefault definition yes no = definition.exampleValue := by
  by_cases hyes : definition.exampleValue = yes
  · rw [booleanDefault, if_pos (defaultIsYes_iff.mpr (Or.inl hyes)), hyes]
  · have hno : ¬ defaultIsYes definition yes = true :=
      fun hsays => (defaultIsYes_iff.mp hsays).elim hyes h
    rw [booleanDefault, if_neg hno, hexample.resolve_left hyes]

/-- A blank reply leaves the literal that the example value stands for. -/
theorem booleanReply_of_blank {reply : Text} (hblank : Text.trim reply = []) :
    booleanReply definition yes no reply = booleanDefault definition yes no := by
  simp [booleanReply, hblank, Text.lower]

/-- The built-in source of an unanswered yes/no variable takes the literal that the example value
stands for. -/
theorem exists_resolveBuiltin_of_unanswered (hdirective : definition.directive = .boolean yes no)
    {desk : Desk} (hunanswered : Unanswered scope desk) (values : Table Text Text) :
    ∃ after, (resolveBuiltin scope values definition).runFrom desk =
      (.ok (unansweredLiteral scope definition (booleanDefault definition yes no)), after) := by
  rw [resolveBuiltin, hdirective, unansweredLiteral]
  cases hscope : scope.interactive with
  | false => exact ⟨desk, by simp [Directive.builtinSource, booleanUnasked]; rfl⟩
  | true =>
    obtain ⟨reply, rest, hreplies, hblank⟩ := hunanswered hscope
    refine ⟨desk.afterDialogue (booleanDialogue definition yes no desk.replies), ?_⟩
    simp only [Directive.builtinSource, if_true, DeskStep.converse, Attempt.runFrom_ofFunction]
    simp [hreplies, booleanDialogue, booleanReply_of_blank hblank, Desk.afterDialogue]

/-- A variable without a value is resolved by its source if the hooks around it do not fail. -/
theorem runFrom_resolve_of_lacking {start middle later after : Pass} {resolved : Resolved}
    (hlacks : start.values.filled? definition.name = none)
    (hbefore : registry.Reaches scope definition start middle)
    (hsource : (dispatch registry scope definition).runFrom middle = (.ok resolved, later))
    (hafter : (registry.afterResolve scope definition resolved).runFrom later = (.ok (), after)) :
    (resolve registry scope definition).runFrom start = (.ok resolved, after) := by
  have hends : (resolve registry scope definition).EndsIn start
      (fun result state => result = resolved ∧ state = after) fun _ _ => False := by
    rw [endsIn_resolve_of_lacking hlacks, Attempt.EndsIn, hbefore]
    dsimp only
    rw [Attempt.EndsIn, hsource]
    dsimp only
    rw [Attempt.EndsIn, hafter]
    exact ⟨rfl, rfl⟩
  obtain ⟨_, _, hrun, rfl, rfl⟩ := hends.returns
  exact hrun

/-- An unanswered yes/no variable whose example value is one of the two literals takes the same
literal whether nobody is there or the reply is blank. It is the literal that the example value
equals, unless this is the one for no and says yes in any case; then it is the one for yes. -/
theorem resolve_unanswered (hdirective : definition.directive = .boolean yes no)
    (hexample : definition.exampleValue = yes ∨ definition.exampleValue = no) :
    ∃ literal : Text,
      (literal = definition.exampleValue ↔ ¬ definition.IsMisread yes) ∧
      (definition.IsMisread yes → definition.exampleValue = no ∧ literal = yes) ∧
      ∀ (registry : Registry) (scope : Scope) (middle : Pass),
        registry.findSource (Directive.boolean yes no).kind = none →
        Unanswered scope middle.desk →
        ∃ later, (dispatch registry scope definition).runFrom middle =
            (.ok (unansweredLiteral scope definition literal), later) ∧
          ∀ start after, start.values.fills definition.name = false →
            registry.Reaches scope definition start middle →
            (registry.afterResolve scope definition
              (unansweredLiteral scope definition literal)).runFrom later = (.ok (), after) →
            (resolve registry scope definition).runFrom start =
              (.ok (unansweredLiteral scope definition literal), after) := by
  refine ⟨booleanDefault definition yes no, ⟨fun hsame hmisread => ?_, fun hread => ?_⟩,
    fun hmisread => ?_, fun registry scope middle hbuiltin hunanswered => ?_⟩
  · rw [booleanDefault_of_isMisread hmisread] at hsame
    exact hmisread.1 hsame.symm
  · exact booleanDefault_of_not_isMisread hread hexample
  · exact ⟨hexample.resolve_left hmisread.1, booleanDefault_of_isMisread hmisread⟩
  · obtain ⟨desk, hdesk⟩ :=
      exists_resolveBuiltin_of_unanswered hdirective hunanswered middle.values
    have hsource : (dispatch registry scope definition).runFrom middle =
        (.ok (unansweredLiteral scope definition (booleanDefault definition yes no)),
          { middle with desk }) := by
      rw [runFrom_dispatch_of_findSource_eq_none (hdirective ▸ hbuiltin), Resolving.atDesk,
        Attempt.onPart, Attempt.runFrom_ofFunction, hdesk]
    refine ⟨_, hsource, fun start after hlacks hbefore hafter => ?_⟩
    refine runFrom_resolve_of_lacking ?_ hbefore hsource hafter
    exact Option.not_isSome_iff_eq_none.mp (Bool.eq_false_iff.mp hlacks)

/-- A variable whose example value is the literal for no, next to a word that says yes. -/
def declinedDefinition : Definition :=
  { name := "X", exampleValue := "No", directive := .boolean "Yes" "No" }

/-- It takes the literal for no, whether nobody is there or the reply is blank. -/
theorem resolve_unanswered_declined :
    (declinedDefinition.directive = .boolean "Yes" "No" ∧
      (declinedDefinition.exampleValue = "Yes" ∨ declinedDefinition.exampleValue = "No")) ∧
    (∃ after, (dispatch {} { workspace := default } declinedDefinition).runFrom {} =
      (.ok (unansweredLiteral { workspace := default } declinedDefinition "No"), after)) ∧
    ∃ after, (dispatch {} attendedScope declinedDefinition).runFrom
      { desk := { replies := [" "] } } = (.ok { value := "No", source := "prompted" }, after) := by
  have hdirective : declinedDefinition.directive = .boolean "Yes" "No" := rfl
  have hexample : declinedDefinition.exampleValue = "Yes" ∨
      declinedDefinition.exampleValue = "No" := Or.inr rfl
  obtain ⟨literal, hkept, -, hruns⟩ := resolve_unanswered hdirective hexample
  obtain rfl : literal = "No" := hkept.mpr (by decide)
  obtain ⟨alone, halone, -⟩ := hruns {} { workspace := default } {} rfl nofun
  obtain ⟨blank, hblank, -⟩ := hruns {} attendedScope { desk := { replies := [" "] } } rfl
    fun _ => ⟨" ", [], rfl, by decide⟩
  exact ⟨⟨hdirective, hexample⟩, ⟨alone, halone⟩, ⟨blank, hblank⟩⟩

/-- A variable whose literals are inverted, with the one for no as its example value. -/
def invertedDefinition : Definition :=
  { name := "X", exampleValue := "true", directive := .boolean "false" "true" }

/-- It takes the other literal, whether nobody is there or the reply is blank. -/
theorem resolve_unanswered_inverted :
    (invertedDefinition.directive = .boolean "false" "true" ∧
      invertedDefinition.exampleValue = "true") ∧
    ((resolve {} { workspace := default } invertedDefinition).runFrom {}).1 =
      .ok { value := "false", source := "default",
            warning := some "Non-interactive mode: using false for X" } ∧
    ((resolve {} attendedScope invertedDefinition).runFrom { desk := { replies := [""] } }).1 =
      .ok { value := "false", source := "prompted" } := by
  decide

end Literals
end EnvFiles
