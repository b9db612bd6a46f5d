import EnvFiles.Proofs.Resolution.Bracketing

/-!
# How the open question ends

The open question goes through its replies in rounds of two: a reply to the question itself, and
one to whether the variable is to be skipped. For a variable with an example value, or one that
is not required, the first reply settles it. For every other one the first round counts in which
the question gets a reply that is not blank or the skipping is agreed to. Where no round does so
the replies run out, and with them the pass, which then knows no more values than before.
-/

namespace EnvFiles

/-- Whether a blank reply leads to the second question. -/
def Definition.insists (definition : Definition) : Bool :=
  definition.isRequired && definition.exampleValue.isEmpty

/-- What the first reply comes to for a variable that does not insist on one. -/
def settled (definition : Definition) (reply : Text) : Resolved :=
  if Text.trim reply ≠ [] then { value := Text.trim reply, source := "prompted" }
  else if definition.exampleValue ≠ [] then
    { value := definition.exampleValue, source := "prompted" }
  else { source := "prompted", skipped := true }

/-- The first questions of a dialogue, in which the two alternate. -/
def promptQuestions (definition : Definition) (count : Nat) : List Text :=
  (List.range count).map fun index =>
    if index % 2 = 0 then promptQuestion definition else skipQuestion

/-- Whether a round ends the dialogue: its first reply is not blank, or its second one agrees to
skipping. -/
def EndsRound (replies : List Text) (round : Nat) : Prop :=
  (∃ reply, replies[2 * round]? = some reply ∧ Text.trim reply ≠ []) ∨
    ∃ reply, replies[2 * round + 1]? = some reply ∧ saysSkip reply = true

/-- The first round that ends the dialogue. -/
def IsLastRound (replies : List Text) (round : Nat) : Prop :=
  EndsRound replies round ∧ ∀ earlier < round, ¬ EndsRound replies earlier

/-- A script in which the replies run out before the question is settled. -/
def RunsOut (definition : Definition) (replies : List Text) : Prop :=
  if definition.insists then ∀ round, ¬ EndsRound replies round else replies = []

/-- The dialogue with the given outcome after a number of questions, each of which took a reply as
long as there were some. -/
def Dialogue.over (definition : Definition) (replies : List Text)
    (outcome : Except Failure Resolved) (count : Nat) : Dialogue :=
  ⟨outcome, promptQuestions definition count, replies.drop count⟩

/-- The course of the open question over a script of replies. -/
structure Dialogue.IsPrompt (definition : Definition) (replies : List Text) (dialogue : Dialogue) :
    Prop where
  once : definition.insists = false → ∀ reply rest, replies = reply :: rest →
    dialogue = .over definition replies (.ok (settled definition reply)) 1
  answered : definition.insists = true → ∀ round, IsLastRound replies round →
    ∀ reply, replies[2 * round]? = some reply → Text.trim reply ≠ [] →
      dialogue = .over definition replies
        (.ok { value := Text.trim reply, source := "prompted" }) (2 * round + 1)
  declined : definition.insists = true → ∀ round, IsLastRound replies round →
    ∀ reply, replies[2 * round]? = some reply → Text.trim reply = [] →
      dialogue = .over definition replies (.ok (skippedRequired definition)) (2 * round + 2)
  exhausted : RunsOut definition replies →
    dialogue = .over definition replies (.error .outOfReplies) (replies.length + 1)
  value_ne_nil : ∀ resolved, dialogue.outcome = .ok resolved → resolved.skipped = false →
    resolved.value ≠ []

section Rounds

variable {definition : Definition} {replies rest : List Text} {reply second : Text} {round : Nat}

/-- A question and the one after it, before the others. -/
theorem promptQuestions_add_two (definition : Definition) (count : Nat) :
    promptQuestions definition (count + 2) =
      [promptQuestion definition, skipQuestion] ++ promptQuestions definition count := by
  unfold promptQuestions
  rw [Nat.add_comm, List.range_add, List.map_append, List.map_map]
  congr 1
  refine List.map_congr_left fun index _ => ?_
  simp [Nat.add_mod_left]

/-- A dialogue after one round more. -/
theorem after_over (outcome : Except Failure Resolved) (count : Nat) :
    (Dialogue.over definition rest outcome count).after
        [promptQuestion definition, skipQuestion] =
      .over definition (reply :: second :: rest) outcome (count + 2) := by
  rw [Dialogue.over, Dialogue.after, Dialogue.over, promptQuestions_add_two]
  rfl

/-- A script that is over in its first round has that as its last one. -/
theorem isLastRound_iff_of_endsRound (h : EndsRound replies 0) :
    IsLastRound replies round ↔ round = 0 := by
  constructor
  · intro hlast
    by_contra hround
    exact hlast.2 0 (Nat.pos_of_ne_zero hround) h
  · rintro rfl
    exact ⟨h, fun earlier hlt => absurd hlt (Nat.not_lt_zero earlier)⟩

/-- A script that is not over in its first round goes on with the next one. -/
theorem isLastRound_iff_of_not_endsRound (h : ¬ EndsRound (reply :: second :: rest) 0) :
    IsLastRound (reply :: second :: rest) round ↔
      ∃ later, round = later + 1 ∧ IsLastRound rest later := by
  cases round with
  | zero => exact iff_of_false (fun hlast => h hlast.1) fun ⟨_, hround, _⟩ => by cases hround
  | succ later =>
    refine ⟨fun hlast => ⟨later, rfl, hlast.1, fun earlier hlt => ?_⟩, ?_⟩
    · exact hlast.2 (earlier + 1) (Nat.succ_lt_succ hlt)
    · rintro ⟨_, hround, hends, hnone⟩
      obtain rfl := Nat.succ.inj hround
      refine ⟨hends, fun earlier hlt => ?_⟩
      cases earlier with
      | zero => exact h
      | succ earlier => exact hnone earlier (Nat.lt_of_succ_lt_succ hlt)

/-- The first round ends if its first reply is not blank. -/
theorem endsRound_zero_of_ne (h : Text.trim reply ≠ []) : EndsRound (reply :: replies) 0 :=
  Or.inl ⟨reply, rfl, h⟩

/-- With a blank reply the first round ends only if there is a second one that agrees to
skipping. -/
theorem endsRound_zero_iff (h : Text.trim reply = []) :
    EndsRound (reply :: replies) 0 ↔
      ∃ second, replies[0]? = some second ∧ saysSkip second = true := by
  refine ⟨fun hends => hends.elim ?_ id, Or.inr⟩
  rintro ⟨first, hfirst, hne⟩
  obtain rfl := Option.some.inj hfirst
  exact absurd h hne

/-- No round of a script ends that holds at most one blank reply. -/
theorem not_endsRound_of_length_le (hlength : replies.length ≤ 1)
    (hblank : ∀ reply ∈ replies, Text.trim reply = []) : ¬ EndsRound replies round := by
  rintro (⟨reply, hreply, hne⟩ | ⟨second, hsecond, -⟩)
  · exact hne (hblank reply (List.mem_of_getElem? hreply))
  · obtain ⟨hlt, -⟩ := List.getElem?_eq_some_iff.mp hsecond
    omega

end Rounds

section Dialogues

variable {definition : Definition} {replies rest : List Text} {reply second : Text}
  {resolved : Resolved}

/-- What a reply settles. -/
theorem settle?_eq (definition : Definition) (reply : Text) :
    settle? definition reply =
      if definition.insists = true ∧ Text.trim reply = [] then none
      else some (settled definition reply) := by
  unfold settle? settled Definition.insists
  cases Text.trim reply <;> cases definition.exampleValue <;> cases definition.isRequired <;> simp

/-- A reply that settles nothing is a blank one on which the variable insists. -/
theorem settle?_eq_none_iff :
    settle? definition reply = none ↔ definition.insists = true ∧ Text.trim reply = [] := by
  rw [settle?_eq]
  split <;> simp_all

/-- What a reply settles is not empty, unless the variable is skipped. -/
theorem value_settled_ne_nil (h : (settled definition reply).skipped = false) :
    (settled definition reply).value ≠ [] := by
  unfold settled at h ⊢
  split_ifs at h ⊢ with hreply hexample
  · exact hreply
  · exact hexample

/-- A first reply that settles the question. -/
theorem isPrompt_of_settle? (h : settle? definition reply = some resolved) :
    Dialogue.IsPrompt definition (reply :: rest)
      ⟨.ok resolved, [promptQuestion definition], rest⟩ := by
  rw [settle?_eq] at h
  split at h
  · cases h
  rename_i hsettles
  obtain rfl := Option.some.inj h
  have hround (hinsists : definition.insists = true) : EndsRound (reply :: rest) 0 :=
    endsRound_zero_of_ne fun hblank => hsettles ⟨hinsists, hblank⟩
  refine ⟨fun _ first others hreplies => ?_, fun hinsists round hlast first hfirst hne => ?_,
    fun hinsists round hlast first hfirst hblank => ?_, fun hnone => ?_, fun other hother => ?_⟩
  · obtain ⟨rfl, rfl⟩ := List.cons.inj hreplies
    rfl
  · obtain rfl := (isLastRound_iff_of_endsRound (hround hinsists)).mp hlast
    obtain rfl := Option.some.inj hfirst
    rw [settled, if_pos hne]
    rfl
  · obtain rfl := (isLastRound_iff_of_endsRound (hround hinsists)).mp hlast
    obtain rfl := Option.some.inj hfirst
    exact absurd ⟨hinsists, hblank⟩ hsettles
  · unfold RunsOut at hnone
    split at hnone
    · rename_i hinsists
      exact absurd (hround hinsists) (hnone 0)
    · cases hnone
  · obtain rfl := Except.ok.inj hother
    exact value_settled_ne_nil

/-- A script in which no round ends runs out. -/
theorem isPrompt_of_forall_not_endsRound (hreplies : replies = [] ∨ definition.insists = true)
    (hnone : ∀ round, ¬ EndsRound replies round) :
    Dialogue.IsPrompt definition replies
      (.over definition replies (.error .outOfReplies) (replies.length + 1)) where
  once hinsists first others hcons := by
    rcases hreplies with rfl | htrue
    · cases hcons
    · rw [hinsists] at htrue
      cases htrue
  answered _ round hlast := absurd hlast.1 (hnone round)
  declined _ round hlast := absurd hlast.1 (hnone round)
  exhausted _ := rfl
  value_ne_nil _ h := by cases h

/-- A first round in which skipping is agreed to. -/
theorem isPrompt_of_saysSkip (hinsists : definition.insists = true)
    (hblank : Text.trim reply = []) (hskip : saysSkip second = true) :
    Dialogue.IsPrompt definition (reply :: second :: rest)
      ⟨.ok (skippedRequired definition), [promptQuestion definition, skipQuestion], rest⟩ := by
  have hround : EndsRound (reply :: second :: rest) 0 := Or.inr ⟨second, rfl, hskip⟩
  refine ⟨fun hfalse => ?_, fun _ round hlast first hfirst hne => ?_,
    fun _ round hlast _ _ _ => ?_, fun hnone => ?_, fun other hother hkept => ?_⟩
  · rw [hinsists] at hfalse
    cases hfalse
  · obtain rfl := (isLastRound_iff_of_endsRound hround).mp hlast
    obtain rfl := Option.some.inj hfirst
    exact absurd hblank hne
  · obtain rfl := (isLastRound_iff_of_endsRound hround).mp hlast
    rfl
  · rw [RunsOut, if_pos hinsists] at hnone
    exact absurd hround (hnone 0)
  · obtain rfl := Except.ok.inj hother
    cases hkept

/-- A first round that does not end the dialogue, before the others. -/
theorem Dialogue.IsPrompt.after {dialogue : Dialogue} (h : dialogue.IsPrompt definition rest)
    (hinsists : definition.insists = true) (hround : ¬ EndsRound (reply :: second :: rest) 0) :
    (dialogue.after [promptQuestion definition, skipQuestion]).IsPrompt definition
      (reply :: second :: rest) := by
  refine ⟨fun hfalse => ?_, fun _ round hlast first hfirst hne => ?_,
    fun _ round hlast first hfirst hblank => ?_, fun hnone => ?_, h.value_ne_nil⟩
  · rw [hinsists] at hfalse
    cases hfalse
  · obtain ⟨later, rfl, hlater⟩ := (isLastRound_iff_of_not_endsRound hround).mp hlast
    rw [h.answered hinsists later hlater first hfirst hne, after_over]
    rfl
  · obtain ⟨later, rfl, hlater⟩ := (isLastRound_iff_of_not_endsRound hround).mp hlast
    rw [h.declined hinsists later hlater first hfirst hblank, after_over]
    rfl
  · rw [RunsOut, if_pos hinsists] at hnone
    have hrest : RunsOut definition rest := by
      rw [RunsOut, if_pos hinsists]
      exact fun round => hnone (round + 1)
    rw [h.exhausted hrest, after_over]
    rfl

/-- The open question goes as its replies say. -/
theorem isPrompt_promptDialogue (definition : Definition) (replies : List Text) :
    (promptDialogue definition replies).IsPrompt definition replies := by
  fun_induction promptDialogue definition replies with
  | case1 =>
    exact isPrompt_of_forall_not_endsRound (Or.inl rfl) fun round =>
      not_endsRound_of_length_le (Nat.zero_le 1) fun _ hmem => absurd hmem List.not_mem_nil
  | case2 reply resolved hsettle => exact isPrompt_of_settle? hsettle
  | case3 reply hsettle =>
    obtain ⟨hinsists, hblank⟩ := settle?_eq_none_iff.mp hsettle
    exact isPrompt_of_forall_not_endsRound (Or.inr hinsists) fun round =>
      not_endsRound_of_length_le (Nat.le_refl 1) fun other hmem =>
        List.mem_singleton.mp hmem ▸ hblank
  | case4 reply second rest resolved hsettle => exact isPrompt_of_settle? hsettle
  | case5 reply second rest hsettle questions hskip =>
    obtain ⟨hinsists, hblank⟩ := settle?_eq_none_iff.mp hsettle
    exact isPrompt_of_saysSkip hinsists hblank hskip
  | case6 reply second rest hsettle questions hskip ih =>
    obtain ⟨hinsists, hblank⟩ := settle?_eq_none_iff.mp hsettle
    refine ih.after hinsists fun hends => hskip ?_
    obtain ⟨other, hother, hsays⟩ := (endsRound_zero_iff hblank).mp hends
    obtain rfl := Option.some.inj hother
    exact hsays

end Dialogues

section Runs

variable {registry : Registry} {scope : Scope} {definition : Definition}

/-- The desk after a dialogue. -/
def Desk.afterDialogue (desk : Desk) (dialogue : Dialogue) : Desk :=
  { desk with replies := dialogue.left, asked := desk.asked ++ dialogue.asked }

/-- The state of a pass after a dialogue at its desk, which leaves the values known. -/
def Pass.afterDialogue (pass : Pass) (dialogue : Dialogue) : Pass :=
  { pass with desk := pass.desk.afterDialogue dialogue }

/-- The open question is held at the desk when somebody is there. -/
theorem resolveBuiltin_prompt (hdirective : definition.directive = .prompt)
    (hscope : scope.interactive = true) (values : Table Text Text) :
    resolveBuiltin scope values definition = DeskStep.converse (promptDialogue definition) := by
  rw [resolveBuiltin, hdirective]
  exact if_pos hscope

/-- Without a plugin source for it a variable is resolved by its built-in source. -/
theorem runFrom_dispatch_of_findSource_eq_none
    (hbuiltin : registry.findSource definition.directive.kind = none) (pass : Pass) :
    (dispatch registry scope definition).runFrom pass =
      (Resolving.atDesk (resolveBuiltin scope pass.values definition)).runFrom pass := by
  have hget : (get : Resolving Pass).runFrom pass = (.ok pass, pass) := rfl
  rw [dispatch, hbuiltin]
  dsimp only
  rw [Attempt.runFrom_bind, hget]

/-- A pass fails where the source of a variable does, and ends in the state that the source left. -/
theorem runFrom_resolveMissing_of_dispatch_error {start middle after : Pass} {failure : Failure}
    (hlacks : start.values.filled? definition.name = none)
    (hbefore : (registry.beforeResolve scope definition).runFrom
      (start.record (scope.consultation definition)) = (.ok (), middle))
    (hfails : (dispatch registry scope definition).runFrom middle = (.error failure, after))
    (outcome : PassOutcome) (rest : List Definition) :
    (resolveMissing registry scope outcome (definition :: rest)).runFrom start =
      (.error failure, after) := by
  have hends : (resolve registry scope definition).EndsIn start (fun _ _ => False)
      fun stopped state => stopped = failure ∧ state = after := by
    rw [endsIn_resolve_of_lacking hlacks, Attempt.EndsIn, hbefore]
    dsimp only
    rw [Attempt.EndsIn, hfails]
    exact ⟨rfl, rfl⟩
  obtain ⟨_, _, hrun, rfl, rfl⟩ := hends.fails
  rw [resolveMissing, Attempt.runFrom_bind, hrun]

/-- The open question, when somebody is there, goes as the replies say that are left, and so does a
pass in which no plugin claims it. If the replies run out such a pass fails, and knows the values
that it knew before the question. -/
theorem resolve_asks (hdirective : definition.directive = .prompt)
    (hscope : scope.interactive = true) (pass : Pass) :
    ∃ dialogue, dialogue.IsPrompt definition pass.desk.replies ∧
      (resolveBuiltin scope pass.values definition).runFrom pass.desk =
        (dialogue.outcome, pass.desk.afterDialogue dialogue) ∧
      ∀ registry : Registry, registry.findSource Directive.prompt.kind = none →
        (dispatch registry scope definition).runFrom pass =
          (dialogue.outcome, pass.afterDialogue dialogue) ∧
        (RunsOut definition pass.desk.replies → ∀ start outcome rest,
          start.values.fills definition.name = false →
          (registry.beforeResolve scope definition).runFrom
            (start.record (scope.consultation definition)) = (.ok (), pass) →
          (resolveMissing registry scope outcome (definition :: rest)).runFrom start =
            (.error .outOfReplies, pass.afterDialogue dialogue)) := by
  have hprompt := isPrompt_promptDialogue definition pass.desk.replies
  have hasked := resolveBuiltin_prompt hdirective hscope pass.values
  refine ⟨_, hprompt, by rw [hasked]; rfl, fun registry hbuiltin => ?_⟩
  have hrun : (dispatch registry scope definition).runFrom pass =
      ((promptDialogue definition pass.desk.replies).outcome,
        pass.afterDialogue (promptDialogue definition pass.desk.replies)) := by
    rw [runFrom_dispatch_of_findSource_eq_none (hdirective ▸ hbuiltin), hasked]
    rfl
  refine ⟨hrun, fun hout start outcome rest hlacks hbefore => ?_⟩
  have hfails : (dispatch registry scope definition).runFrom pass = (.error .outOfReplies,
      pass.afterDialogue (promptDialogue definition pass.desk.replies)) := by
    rw [hrun, hprompt.exhausted hout]
    rfl
  refine runFrom_resolveMissing_of_dispatch_error ?_ hbefore hfails outcome rest
  exact Option.not_isSome_iff_eq_none.mp (Bool.eq_false_iff.mp hlacks)

/-- A required variable without an example value. -/
def openDefinition : Definition := { name := "X", requirement := .required, directive := .prompt }

/-- A scope in which somebody is there. -/
def attendedScope : Scope := { workspace := default, interactive := true }

/-- A pass with a script that is settled in its second round. -/
def scriptedPass : Pass := { desk := { replies := ["", "n", " v ", "w"] } }

/-- The second round of the script ends the dialogue, after three questions. -/
theorem resolve_asks_again :
    (openDefinition.directive = .prompt ∧ attendedScope.interactive = true) ∧
    ∃ after, (dispatch {} attendedScope openDefinition).runFrom scriptedPass =
        (.ok { value := "v", source := "prompted" }, after) ∧
      after.desk.asked = [promptQuestion openDefinition, skipQuestion,
        promptQuestion openDefinition] ∧
      after.desk.replies = ["w"] := by
  have hdirective : openDefinition.directive = .prompt := rfl
  have hscope : attendedScope.interactive = true := rfl
  obtain ⟨dialogue, hprompt, -, hpass⟩ := resolve_asks hdirective hscope scriptedPass
  have hrun := (hpass {} rfl).1
  have hlast : IsLastRound ["", "n", " v ", "w"] 1 := by
    refine ⟨Or.inl ⟨" v ", rfl, by decide⟩, fun earlier hlt => ?_⟩
    obtain rfl : earlier = 0 := by omega
    rw [endsRound_zero_iff (by decide)]
    rintro ⟨second, hsecond, hskip⟩
    obtain rfl := Option.some.inj hsecond
    exact absurd hskip (by decide)
  have hanswered := hprompt.answered rfl 1 hlast " v " rfl (by decide)
  rw [hanswered] at hrun
  exact ⟨⟨hdirective, hscope⟩, _, hrun, rfl, rfl⟩

end Runs
end EnvFiles
