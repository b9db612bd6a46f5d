import EnvFiles.Plugin.Pattern
import EnvFiles.Proofs.Comment.Directive
import EnvFiles.Resolution.Pass

/-!
# The source that is asked for a plugin's directive

A comment is read with the sources in the order of their plugins: the first source whose pattern
is found gives the directive its kind. The variable is resolved later by the first source that
claims that kind. The two are one source unless a source listed before the matching one claims
the same kind; then that earlier source is asked, although its pattern is not in the comment.
-/

namespace EnvFiles

/-- The source at a position is the first in the list for which the test holds. -/
structure FirstSource (sources : List ValueSource) (test : ValueSource → Prop) (position : Nat)
    (source : ValueSource) : Prop where
  listed : sources[position]? = some source
  passes : test source
  fails_of_lt : ∀ earlier < position, ∀ other, sources[earlier]? = some other → ¬ test other

namespace FirstSource

variable {sources before after : List ValueSource} {test : ValueSource → Prop} {position : Nat}
  {source : ValueSource}

/-- A source behind others for which the test fails. -/
theorem of_append (hpasses : test source) (hbefore : ∀ other ∈ before, ¬ test other) :
    FirstSource (before ++ source :: after) test before.length source where
  listed := by
    rw [List.getElem?_append_right (Nat.le_refl _), Nat.sub_self, List.getElem?_cons_zero]
  passes := hpasses
  fails_of_lt earlier hlt other hother := by
    rw [List.getElem?_append_left hlt] at hother
    exact hbefore other (List.mem_of_getElem? hother)

/-- The first source that passes stands no later than any that passes. -/
theorem le_of_passes (h : FirstSource sources test position source) {other : ValueSource}
    {later : Nat} (hother : sources[later]? = some other) (hpasses : test other) :
    position ≤ later :=
  Nat.le_of_not_lt fun hlt => h.fails_of_lt later hlt other hother hpasses

end FirstSource

namespace Registry

variable {registry next : Registry}

/-- A registered plugin is listed behind those that were there. -/
theorem plugins_register {plugin : Plugin} (h : registry.register plugin = .ok next) :
    next.plugins = registry.plugins ++ [plugin] := by
  unfold register at h
  repeat' split at h
  all_goals cases h
  rfl

/-- The registry after plugins are registered one after another. -/
def registerAll (registry : Registry) (plugins : List Plugin) : Except Failure Registry :=
  plugins.foldlM register registry

/-- Plugins are listed in the order in which they were registered. -/
theorem plugins_registerAll {plugins : List Plugin}
    (h : registry.registerAll plugins = .ok next) : next.plugins = registry.plugins ++ plugins := by
  induction plugins generalizing registry with
  | nil =>
    obtain rfl := Except.ok.inj h
    exact (List.append_nil _).symm
  | cons plugin rest ih =>
    rw [registerAll, List.foldlM_cons] at h
    obtain ⟨middle, hmiddle, hrest⟩ := exists_of_bind_eq_ok h
    rw [ih hrest, plugins_register hmiddle, List.append_assoc, List.singleton_append]

/-- Value sources are listed in the order of their plugins. -/
theorem valueSources_registerAll {plugins : List Plugin}
    (h : Registry.registerAll {} plugins = .ok registry) :
    registry.valueSources = plugins.flatMap Plugin.valueSources := by
  rw [valueSources, plugins_registerAll h, List.nil_append]

/-- The source that is asked for a kind is the first one that claims it. -/
theorem firstSource_of_findSource {kind : Text} {source : ValueSource}
    (h : registry.findSource kind = some source) :
    FirstSource registry.valueSources (fun other => other.kind = kind) (registry.findPosition kind)
      source := by
  obtain ⟨hkind, before, after, hsources, hbefore⟩ := List.find?_eq_some_iff_append.mp h
  have hnone : ∀ other ∈ before, other.kind ≠ kind := fun other hmem heq => by
    have hother := hbefore other hmem
    rw [heq, beq_self_eq_true] at hother
    cases hother
  have hposition : registry.findPosition kind = before.length := by
    have hfalse : ∀ other ∈ before, (other.kind == kind) = false := fun other hmem =>
      beq_eq_false_iff_ne.mpr (hnone other hmem)
    rw [findPosition, hsources, List.findIdx_append, List.findIdx_eq_length.mpr hfalse,
      List.findIdx_cons, hkind]
    simp
  rw [hposition, hsources]
  exact .of_append (eq_of_beq hkind) hnone

/-- A kind that is claimed at all has a source that is asked for it. -/
theorem exists_findSource {kind : Text} {source : ValueSource}
    (hmem : source ∈ registry.valueSources) (hkind : source.kind = kind) :
    ∃ claimant, registry.findSource kind = some claimant := by
  refine Option.isSome_iff_exists.mp (List.find?_isSome.mpr ⟨source, hmem, ?_⟩)
  exact beq_iff_eq.mpr hkind

/-- A plugin's directive in a comment comes from the first source whose pattern is found. -/
theorem firstSource_of_findDirective {comment kind raw : Text}
    (h : (findDirective registry.patterns comment).1 = .plugin kind raw) :
    ∃ position source, FirstSource registry.valueSources
      (fun other => (other.find comment).isSome = true) position source ∧
        source.find comment = some raw ∧ source.kind = kind := by
  rcases findDirective_cases registry.patterns comment with
    ⟨before, pattern, after, found, hpatterns, hbefore, hfound, heq⟩ | ⟨-, hbuiltin⟩
  · rw [heq] at h
    obtain ⟨rfl, rfl⟩ := Directive.plugin.inj h
    obtain ⟨first, later, hsources, rfl, hlater⟩ := List.map_eq_append_iff.mp hpatterns
    obtain ⟨source, last, rfl, rfl, -⟩ := List.map_eq_cons_iff.mp hlater
    refine ⟨first.length, source, ?_, hfound, rfl⟩
    rw [hsources]
    refine .of_append (Option.isSome_iff_exists.mpr ⟨found, hfound⟩) fun other hmem hother => ?_
    have hnone : other.find comment = none := hbefore _ (List.mem_map_of_mem hmem)
    rw [hnone] at hother
    cases hother
  · rw [h] at hbuiltin
    cases hbuiltin

/-- Resolving a variable by the given source at a position, with the hooks around it. -/
def resolveBy (registry : Registry) (scope : Scope) (definition : Definition) (position : Nat)
    (source : ValueSource) : Resolving Resolved := do
  Resolving.atDesk (DeskStep.record (.consulted scope.shared scope.workspace definition))
  registry.beforeResolve scope definition
  let resolved ← source.supply position scope definition
  registry.afterResolve scope definition resolved
  return resolved

/-- A variable without a value is resolved by the source that is found for its directive. -/
theorem runFrom_resolve_of_findSource {scope : Scope} {definition : Definition}
    {source : ValueSource} (h : registry.findSource definition.directive.kind = some source)
    {pass : Pass} (hmissing : pass.values.filled? definition.name = none) :
    (resolve registry scope definition).runFrom pass =
      (registry.resolveBy scope definition (registry.findPosition definition.directive.kind)
        source).runFrom pass := by
  have hdispatch : dispatch registry scope definition =
      source.supply (registry.findPosition definition.directive.kind) scope definition := by
    rw [dispatch, h]
  -- Recording leaves the values, so the variable still has none after it.
  have hrecorded : (Resolving.atDesk (DeskStep.record
      (.consulted scope.shared scope.workspace definition))).runFrom pass = (.ok (),
        { pass with desk := { pass.desk with trace := pass.desk.trace ++
          [.consulted scope.shared scope.workspace definition] } }) := rfl
  have hget (state : Pass) : (get : Resolving Pass).runFrom state = (.ok state, state) := rfl
  rw [resolve, resolveBy, Attempt.runFrom_bind, Attempt.runFrom_bind, hrecorded]
  simp only
  rw [Attempt.runFrom_bind, hget]
  simp only [hmissing, hdispatch]

end Registry

/-- The directive of a comment that is read with the patterns of registered plugins comes from the
first source that is found in it, and a variable without a value is resolved by the first source
that claims the directive's kind. That source is listed no later than the one that is found, and it
is the same one exactly if no source before that one claims its kind. -/
theorem resolve_claimant {plugins : List Plugin} {registry : Registry}
    (hbuilt : Registry.registerAll {} plugins = .ok registry)
    {comment name value kind raw : Text} {definition : Definition}
    (hdefinition : Definition.ofAssignment registry.patterns comment name value = .ok definition)
    (hdirective : definition.directive = .plugin kind raw) :
    ∃ matching matched claiming claimant,
      (FirstSource (plugins.flatMap Plugin.valueSources)
          (fun source => (source.find comment).isSome = true) matching matched ∧
        matched.find comment = some raw ∧ matched.kind = kind) ∧
      FirstSource (plugins.flatMap Plugin.valueSources) (fun source => source.kind = kind) claiming
        claimant ∧
      claiming ≤ matching ∧
      (claiming = matching ↔ ∀ earlier < matching, ∀ other,
        (plugins.flatMap Plugin.valueSources)[earlier]? = some other → other.kind ≠ kind) ∧
      ∀ scope pass, pass.values.filled? definition.name = none →
        (resolve registry scope definition).runFrom pass =
          (registry.resolveBy scope definition claiming claimant).runFrom pass := by
  have hfound := (directive_of_ofAssignment hdefinition).symm.trans hdirective
  rw [← Registry.valueSources_registerAll hbuilt]
  obtain ⟨matching, matched, hmatching, hraw, hkind⟩ := Registry.firstSource_of_findDirective hfound
  obtain ⟨claimant, hclaimant⟩ :=
    Registry.exists_findSource (List.mem_of_getElem? hmatching.listed) hkind
  have hclaiming := Registry.firstSource_of_findSource hclaimant
  have hle : registry.findPosition kind ≤ matching := hclaiming.le_of_passes hmatching.listed hkind
  refine ⟨matching, matched, registry.findPosition kind, claimant, ⟨hmatching, hraw, hkind⟩,
    hclaiming, hle, ⟨fun heq => heq ▸ hclaiming.fails_of_lt, fun hnone => ?_⟩,
    fun scope pass hmissing => ?_⟩
  · refine Nat.le_antisymm hle (Nat.le_of_not_lt fun hlt => ?_)
    exact hnone _ hlt claimant hclaiming.listed hclaiming.passes
  · have hfind : registry.findSource definition.directive.kind = some claimant := by
      rw [hdirective]
      exact hclaimant
    rw [Registry.runFrom_resolve_of_findSource hfind hmissing, hdirective]
    rfl

section Overlapping

/-- A source that is found by a word in brackets and always supplies one value. -/
def constantSource (kind tag value : Text) : ValueSource where
  kind
  find := TagPattern.find { tag }
  resolve _ _ := .ok { value, source := "plugin" }

/-- Two plugins whose sources share a kind and a word. -/
def overlappingPlugins : List Plugin := [
  { name := "a"
    sources := [.usable (constantSource "vault" "one" "1"),
      .usable (constantSource "ssm" "two" "2")] },
  { name := "b"
    sources := [.usable (constantSource "vault" "two" "3"),
      .usable (constantSource "vault" "three" "4")] }]

/-- The registry of the two plugins. -/
def overlappingRegistry : Registry := { plugins := overlappingPlugins }

/-- Of three sources that are found in a comment the first one gives the directive, and as no source
before it claims its kind, it is asked for the value. -/
theorem resolve_claimant_overlapping :
    ∃ definition, (Registry.registerAll {} overlappingPlugins = .ok overlappingRegistry ∧
        Definition.ofAssignment overlappingRegistry.patterns "[three] [two]" "X" [] =
          .ok definition ∧ definition.directive = .plugin "ssm" "[two]") ∧
      ∃ position claimant, (FirstSource (overlappingPlugins.flatMap Plugin.valueSources)
          (fun source => (source.find "[three] [two]").isSome = true) position claimant ∧
        FirstSource (overlappingPlugins.flatMap Plugin.valueSources)
          (fun source => source.kind = "ssm") position claimant) ∧
        ∀ scope pass, pass.values.filled? definition.name = none →
          (resolve overlappingRegistry scope definition).runFrom pass =
            (overlappingRegistry.resolveBy scope definition position claimant).runFrom pass := by
  have hbuilt : Registry.registerAll {} overlappingPlugins = .ok overlappingRegistry := rfl
  have hread : (fun definition => definition.directive) <$>
      Definition.ofAssignment overlappingRegistry.patterns "[three] [two]" "X" [] =
        .ok (.plugin "ssm" "[two]") := by decide +kernel
  rw [map_eq_pure_bind] at hread
  obtain ⟨definition, hdefinition, hdone⟩ := exists_of_bind_eq_ok hread
  have hdirective := Except.ok.inj hdone
  obtain ⟨matching, matched, claiming, claimant, ⟨hmatching, -⟩, hclaiming, -, hsame, hresolve⟩ :=
    resolve_claimant hbuilt hdefinition hdirective
  have hle : matching ≤ 1 := by
    have hlisted : (overlappingPlugins.flatMap Plugin.valueSources)[1]? =
        some (constantSource "ssm" "two" "2") := rfl
    refine hmatching.le_of_passes hlisted ?_
    decide +kernel
  have heq : claiming = matching := by
    refine hsame.mpr fun earlier hlt other hother => ?_
    obtain rfl : earlier = 0 := by omega
    obtain rfl := Option.some.inj hother
    decide
  subst heq
  obtain rfl := Option.some.inj (hmatching.listed.symm.trans hclaiming.listed)
  exact ⟨definition, ⟨hbuilt, hdefinition, hdirective⟩, claiming, matched, ⟨hmatching, hclaiming⟩,
    hresolve⟩

/-- The only source that is found in a comment is not asked for the value when an earlier one claims
its kind. -/
theorem resolve_asks_earlier :
    Registry.registerAll {} overlappingPlugins = .ok overlappingRegistry ∧
      FirstSource overlappingRegistry.valueSources
        (fun source => (source.find "[three]").isSome = true) 3
        (constantSource "vault" "three" "4") ∧
      ∃ definition, Definition.ofAssignment overlappingRegistry.patterns "[three]" "X" [] =
          .ok definition ∧
        definition.directive = .plugin "vault" "[three]" ∧
        ((resolve overlappingRegistry default definition).runFrom {}).1.map Resolved.value =
          .ok "1" ∧
        ((overlappingRegistry.resolveBy default definition 3
          (constantSource "vault" "three" "4")).runFrom {}).1.map Resolved.value = .ok "4" := by
  refine ⟨rfl, ⟨rfl, by decide +kernel, fun earlier hlt other hother => ?_⟩,
    { name := "X", directive := .plugin "vault" "[three]", rawComment := "[three]" }, ?_, rfl,
    ?_, ?_⟩
  · have hcases : earlier = 0 ∨ earlier = 1 ∨ earlier = 2 := by omega
    rcases hcases with rfl | rfl | rfl
    all_goals
      obtain rfl := Option.some.inj hother
      decide +kernel
  all_goals decide +kernel

end Overlapping
end EnvFiles
