import EnvFiles.Resolution.Pass
import Mathlib.Data.List.Basic
import Mathlib.Logic.Function.Iterate

/-!
# Which names a pass fills

When nobody is asked and no plugin helps, whether a variable comes to a value depends on its
definition alone, unless it copies another variable: then it depends on whether that one has a
value by then. So a pass is a scan of the schema that only ever adds names. A name that takes its
value from a later one lags a pass behind; nothing else does. Therefore a second scan adds
something only if it fills one of these forward copies, and after one scan more than there are
forward copies nothing is added any more.
-/

namespace EnvFiles

/-- What a definition comes to when nobody is asked, given the values known so far. -/
def unattended (values : Table Text Text) (definition : Definition) : Resolved :=
  match definition.directive.builtinSource with
  | .placeholder => resolvePlaceholder definition
  | .computed what => resolveComputed definition what
  | .copy source => resolveCopy definition values source
  | .fixed value => resolveFixed definition value
  | .localOnly => { source := "default", skipped := true }
  | .prompt => promptPlaceholder definition
  | .boolean yes no => booleanUnasked definition yes no

/-- Whether a resolved variable comes to a value that is not empty. -/
def Resolved.fills (resolved : Resolved) : Bool := !resolved.skipped && !resolved.value.isEmpty

/-- The variable whose value a definition takes, if it copies one. -/
def Definition.copied? (definition : Definition) : Option Text :=
  match definition.directive with
  | .copy source => some source
  | _ => none

/-- Whether a definition comes to a value, given which names have one. -/
def Definition.suppliedBy (filled : Text → Bool) (definition : Definition) : Bool :=
  match definition.copied? with
  | some source => filled source
  | none => (unattended [] definition).fills

/-- Whether the variable is to have a value at all. -/
def Definition.isActive (definition : Definition) : Bool := definition.requirement ≠ .deprecated

/-- The names that have a value after a definition has had its turn. -/
def fillStep (filled : Text → Bool) (definition : Definition) : Text → Bool := fun name =>
  filled name || (decide (name = definition.name) && definition.isActive &&
    definition.suppliedBy filled)

/-- The names that have a value after a pass. -/
def fillAll (definitions : List Definition) (filled : Text → Bool) : Text → Bool :=
  definitions.foldl fillStep filled

/-- The definitions that copy a variable that is declared later. -/
def forwardCopies : List Definition → List Definition
  | [] => []
  | definition :: rest =>
    if definition.copied?.any fun source => (rest.map Definition.name).contains source then
      definition :: forwardCopies rest
    else forwardCopies rest

/-- A name that has a value keeps it. -/
theorem fillStep_of_filled {filled : Text → Bool} {name : Text} (definition : Definition)
    (h : filled name = true) : fillStep filled definition name = true := by
  rw [fillStep, h, Bool.true_or]

/-- A name that has a value keeps it through a pass. -/
theorem fillAll_of_filled {filled : Text → Bool} {name : Text} (definitions : List Definition)
    (h : filled name = true) : fillAll definitions filled name = true := by
  induction definitions generalizing filled with
  | nil => exact h
  | cons definition rest ih => exact ih (fillStep_of_filled definition h)

/-- A name that is not declared is not filled. -/
theorem fillAll_of_notMem {definitions : List Definition} {name : Text} (filled : Text → Bool)
    (h : name ∉ definitions.map Definition.name) :
    fillAll definitions filled name = filled name := by
  induction definitions generalizing filled with
  | nil => rfl
  | cons definition rest ih =>
    rw [List.map_cons, List.mem_cons, not_or] at h
    refine (ih (fillStep filled definition) h.2).trans ?_
    simp [fillStep, h.1]

/-- A definition adds nothing when it is not active, already filled or not supplied. -/
theorem fillStep_eq_self_iff {filled : Text → Bool} {definition : Definition} :
    fillStep filled definition = filled ↔
      (definition.isActive = true → filled definition.name = false →
        definition.suppliedBy filled = false) := by
  constructor
  · intro h hactive hname
    have hstep := congrFun h definition.name
    simpa [fillStep, hactive, hname] using hstep
  · intro h
    funext name
    by_cases hname : name = definition.name
    · subst hname
      cases hfilled : filled definition.name with
      | true => exact fillStep_of_filled definition hfilled
      | false =>
        cases hactive : definition.isActive with
        | false => simp [fillStep, hactive, hfilled]
        | true => simp [fillStep, h hactive hfilled, hfilled]
    · simp [fillStep, hname]

/-- With more names filled a definition is supplied as before. -/
theorem suppliedBy_mono {filled more : Text → Bool} {definition : Definition}
    (h : ∀ name, filled name = true → more name = true)
    (hsupplied : definition.suppliedBy filled = true) : definition.suppliedBy more = true := by
  unfold Definition.suppliedBy at hsupplied ⊢
  cases hcopied : definition.copied? with
  | some source =>
    rw [hcopied] at hsupplied
    exact h source hsupplied
  | none =>
    rw [hcopied] at hsupplied
    exact hsupplied

/-- An active definition that is supplied before a pass is filled by it. -/
theorem fillAll_of_supplied {definitions : List Definition} {definition : Definition}
    (hmem : definition ∈ definitions) {filled : Text → Bool} (hactive : definition.isActive = true)
    (hsupplied : definition.suppliedBy filled = true) :
    fillAll definitions filled definition.name = true := by
  induction definitions generalizing filled with
  | nil => exact absurd hmem List.not_mem_nil
  | cons first rest ih =>
    rcases List.mem_cons.mp hmem with rfl | hmem
    · apply fillAll_of_filled rest
      simp [fillStep, hactive, hsupplied]
    · exact ih hmem (suppliedBy_mono (fun _ => fillStep_of_filled first) hsupplied)

/-- A scan adds nothing to what an earlier scan left, as long as no forward copy is supplied that
has no value: every other definition had its chance with the same names filled. -/
theorem fillAll_eq_self {definitions : List Definition} {start filled : Text → Bool}
    (hfilled : filled = fillAll definitions start)
    (h : ∀ definition ∈ forwardCopies definitions, definition.isActive = true →
      filled definition.name = false → definition.suppliedBy filled = false) :
    fillAll definitions filled = filled := by
  induction definitions generalizing start with
  | nil => rfl
  | cons definition rest ih =>
    have hsub : forwardCopies rest ⊆ forwardCopies (definition :: rest) := by
      rw [forwardCopies]
      split
      · exact List.subset_cons_self ..
      · exact List.Subset.refl _
    have hearlier : filled = fillAll rest (fillStep start definition) := hfilled
    have hrest := ih hearlier fun other hother => h other (hsub hother)
    have hstep : fillStep filled definition = filled := by
      refine fillStep_eq_self_iff.mpr fun hactive hname => ?_
      by_cases hforward : definition ∈ forwardCopies (definition :: rest)
      · exact h definition hforward hactive hname
      -- Supplied now means supplied at its turn in the earlier scan, which then filled it.
      · by_contra hsupplied
        have hsuppliedThen : definition.suppliedBy start = true := by
          unfold Definition.suppliedBy at hsupplied ⊢
          cases hcopied : definition.copied? with
          | none => simpa [hcopied] using hsupplied
          | some source =>
            have hsource : filled source = true := by simpa [hcopied] using hsupplied
            have hlater : source ∉ rest.map Definition.name := by
              intro hmem
              have hany : definition.copied?.any (fun source =>
                  (rest.map Definition.name).contains source) = true := by
                simpa [hcopied] using hmem
              exact hforward (by rw [forwardCopies, if_pos hany]; exact List.mem_cons_self ..)
            have hne : source ≠ definition.name := by
              rintro rfl
              rw [hname] at hsource
              cases hsource
            have hsame : filled source = start source := by
              rw [hfilled]
              apply fillAll_of_notMem start
              simp [hne, hlater]
            exact hsame.symm.trans hsource
        have hnow : filled definition.name = true := by
          rw [hfilled]
          exact fillAll_of_supplied (List.mem_cons_self ..) hactive hsuppliedThen
        rw [hname] at hnow
        cases hnow
    exact (congrArg (fillAll rest) hstep).trans hrest

/-- The number of forward copies that have a value. -/
def filledForward (definitions : List Definition) (filled : Text → Bool) : Nat :=
  (forwardCopies definitions).countP fun definition => filled definition.name

/-- Where one item more is counted and none less, more are counted. -/
theorem countP_lt {α : Type} {p q : α → Bool} {items : List α}
    (hmono : ∀ item ∈ items, p item = true → q item = true) {item : α} (hmem : item ∈ items)
    (hp : p item = false) (hq : q item = true) : items.countP p < items.countP q := by
  induction items with
  | nil => exact absurd hmem List.not_mem_nil
  | cons first rest ih =>
    have hrest : ∀ other ∈ rest, p other = true → q other = true :=
      fun other hother => hmono other (List.mem_cons_of_mem _ hother)
    have hle : rest.countP p ≤ rest.countP q := List.countP_mono_left hrest
    rcases List.mem_cons.mp hmem with rfl | hmem
    · rw [List.countP_cons_of_neg (by simp [hp]), List.countP_cons_of_pos hq]
      omega
    · have hlt := ih hrest hmem
      have hfirst : (if p first = true then 1 else 0) ≤ if q first = true then 1 else 0 := by
        cases hpfirst : p first with
        | false => exact Nat.zero_le _
        | true =>
          rw [if_pos (hmono first (List.mem_cons_self ..) hpfirst)]
          exact Nat.le_refl _
      rw [List.countP_cons, List.countP_cons]
      omega

/-- The forward copies are definitions. -/
theorem forwardCopies_subset (definitions : List Definition) :
    forwardCopies definitions ⊆ definitions := by
  induction definitions with
  | nil => exact List.Subset.refl _
  | cons definition rest ih =>
    rw [forwardCopies]
    split
    · exact List.cons_subset_cons definition ih
    · exact List.subset_cons_of_subset definition ih

/-- A second scan that adds something fills a forward copy. -/
theorem filledForward_lt {definitions : List Definition} {start filled : Text → Bool}
    (hfilled : filled = fillAll definitions start)
    (hchanged : fillAll definitions filled ≠ filled) :
    filledForward definitions filled < filledForward definitions (fillAll definitions filled) := by
  have hexists : ∃ definition ∈ forwardCopies definitions, definition.isActive = true ∧
      filled definition.name = false ∧ definition.suppliedBy filled = true := by
    by_contra hnone
    refine hchanged (fillAll_eq_self hfilled fun definition hmem hactive hname => ?_)
    by_contra hsupplied
    exact hnone ⟨definition, hmem, hactive, hname, by simpa using hsupplied⟩
  obtain ⟨definition, hmem, hactive, hname, hsupplied⟩ := hexists
  exact countP_lt (fun other _ => fillAll_of_filled definitions) hmem hname
    (fillAll_of_supplied (forwardCopies_subset definitions hmem) hactive hsupplied)

/-- As long as scans add something, all but the first fill one more forward copy each. -/
theorem le_filledForward (definitions : List Definition) (start : Text → Bool) (n : Nat)
    (h : ∀ m ≤ n, fillAll definitions ((fillAll definitions)^[m] start) ≠
      (fillAll definitions)^[m] start) :
    n ≤ filledForward definitions ((fillAll definitions)^[n + 1] start) := by
  induction n with
  | zero => exact Nat.zero_le _
  | succ n ih =>
    have hbefore := ih fun m hm => h m (by omega)
    have hlt := filledForward_lt (Function.iterate_succ_apply' (fillAll definitions) n start)
      (h (n + 1) (Nat.le_refl _))
    rw [← Function.iterate_succ_apply' (fillAll definitions) (n + 1) start,
      Nat.succ_eq_add_one, Nat.succ_eq_add_one] at hlt
    omega

/-- After more scans than there are forward copies nothing is added any more. -/
theorem fillAll_iterate_eq_self (definitions : List Definition) (start : Text → Bool) {n : Nat}
    (hn : (forwardCopies definitions).length < n) :
    fillAll definitions ((fillAll definitions)^[n] start) = (fillAll definitions)^[n] start := by
  by_contra hchanged
  have hall : ∀ m ≤ n, fillAll definitions ((fillAll definitions)^[m] start) ≠
      (fillAll definitions)^[m] start := by
    intro m hm hfixed
    obtain ⟨more, rfl⟩ := Nat.exists_eq_add_of_le hm
    rw [Nat.add_comm, Function.iterate_add_apply, Function.iterate_fixed hfixed] at hchanged
    exact hchanged hfixed
  have hle := le_filledForward definitions start n hall
  have hbound : filledForward definitions ((fillAll definitions)^[n + 1] start) ≤
      (forwardCopies definitions).length := List.countP_le_length
  omega

section WithoutCopies

variable {definitions : List Definition}
  (h : ∀ definition ∈ definitions, definition.copied? = none)

include h

/-- Where nothing is copied, nothing is copied from a later variable. -/
theorem forwardCopies_eq_nil : forwardCopies definitions = [] := by
  induction definitions with
  | nil => rfl
  | cons definition rest ih =>
    obtain ⟨hfirst, hrest⟩ := List.forall_mem_cons.mp h
    rw [forwardCopies, hfirst, Option.any_none, if_neg Bool.false_ne_true]
    exact ih hrest

/-- Where nothing is copied, a second scan adds nothing. -/
theorem fillAll_fillAll (filled : Text → Bool) :
    fillAll definitions (fillAll definitions filled) = fillAll definitions filled := by
  refine fillAll_eq_self rfl fun definition hmem => ?_
  rw [forwardCopies_eq_nil h] at hmem
  exact absurd hmem List.not_mem_nil

/-- Where nothing is copied, a declared name is filled exactly if it was or if its definition is
active and comes to a value. -/
theorem fillAll_of_mem (hnodup : (definitions.map Definition.name).Nodup) {definition : Definition}
    (hmem : definition ∈ definitions) (filled : Text → Bool) :
    fillAll definitions filled definition.name =
      (filled definition.name || (definition.isActive && (unattended [] definition).fills)) := by
  induction definitions generalizing filled with
  | nil => exact absurd hmem List.not_mem_nil
  | cons first rest ih =>
    obtain ⟨hfirst, hrest⟩ := List.forall_mem_cons.mp h
    rw [List.map_cons, List.nodup_cons] at hnodup
    change fillAll rest (fillStep filled first) definition.name = _
    rcases List.mem_cons.mp hmem with rfl | hmem
    · rw [fillAll_of_notMem _ hnodup.1, fillStep, Definition.suppliedBy, hfirst]
      simp
    · have hne : definition.name ≠ first.name := fun heq =>
        hnodup.1 (heq ▸ List.mem_map_of_mem hmem)
      rw [ih hrest hnodup.2 hmem, fillStep]
      simp [hne]

end WithoutCopies

end EnvFiles
