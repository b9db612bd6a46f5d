import EnvFiles.Plugin.Registry
import EnvFiles.Proofs.Attempt
import Mathlib.Data.List.Nodup

/-!
# What a registry comes to

A registration is refused by a frozen registry, for a name that is taken, or for something offered
that cannot serve as a source, in this order, and it is refused whole. So the plugins of a registry
depend on what was offered to it before it was frozen and on nothing else: they are the plugins with
usable sources only, and each name belongs to the first of them that has it. Everything that the
registry lists of its plugins follows.
-/

namespace EnvFiles

/-- Whether everything that a plugin offers as a value source can serve as one. -/
def Plugin.isSound (plugin : Plugin) : Bool :=
  plugin.sources.all fun offered => offered.source?.isSome

/-- Of some plugins, those whose names are not taken, neither from the start nor by an earlier
one. -/
def newlyNamed (taken : List Text) : List Plugin → List Plugin
  | [] => []
  | plugin :: rest =>
    if taken.contains plugin.name then newlyNamed taken rest
    else plugin :: newlyNamed (taken ++ [plugin.name]) rest

/-- A call that may change a registry. -/
inductive RegistryCall
  | register (plugin : Plugin)
  | freeze

/-- The call, made on a registry. -/
def RegistryCall.made : RegistryCall → Attempt Registry Unit
  | .register plugin => do
    let registry ← get
    let next ← MonadExcept.ofExcept (registry.register plugin)
    set next
  | .freeze => modify Registry.freeze

/-- The plugin that a call registered, if it did. -/
def registeredBy? : RegistryCall × Except Failure Unit → Option Plugin
  | (.register plugin, .ok _) => some plugin
  | _ => none

/-- The plugins that calls offer before the first of them that freezes. -/
def offeredBeforeFreeze : List RegistryCall → List Plugin
  | [] => []
  | .register plugin :: rest => plugin :: offeredBeforeFreeze rest
  | .freeze :: _ => []

namespace Registry

/-- The names of the plugins. -/
def names (registry : Registry) : List Text := registry.plugins.map Plugin.name

/-- The registry with one more plugin. -/
def add (registry : Registry) (plugin : Plugin) : Registry :=
  { registry with plugins := registry.plugins ++ [plugin] }

/-- Why a registry refuses a plugin. -/
inductive Refuses (registry : Registry) (plugin : Plugin) : Failure → Prop
  | frozen : registry.frozen = true → Refuses registry plugin .registryFrozen
  | taken : registry.frozen = false → plugin.name ∈ registry.names →
      Refuses registry plugin (.duplicatePlugin plugin.name)
  /-- The first thing that cannot serve as a source is shown. -/
  | unusable {usable : List ValueSource} {shown : Text} {rest : List OfferedSource} :
      registry.frozen = false → plugin.name ∉ registry.names →
      plugin.sources = usable.map .usable ++ .unusable shown :: rest →
      Refuses registry plugin (.unusableSource plugin.name shown)

/-- A registry takes a plugin for which there is no reason to refuse it. -/
structure Takes (registry : Registry) (plugin : Plugin) : Prop where
  not_frozen : registry.frozen = false
  name_notMem : plugin.name ∉ registry.names
  sound : plugin.isSound = true

/-- The registry after some calls, whether or not they succeed. -/
def after : Registry → List RegistryCall → Registry
  | registry, [] => registry
  | registry, call :: rest => (call.made.runFrom registry).2.after rest

/-- The calls with what each of them comes to. -/
def outcomes : Registry → List RegistryCall → List (RegistryCall × Except Failure Unit)
  | _, [] => []
  | registry, call :: rest =>
    (call, (call.made.runFrom registry).1) :: (call.made.runFrom registry).2.outcomes rest

/-- The names of the plugins are distinct, and all sources that they offer are usable. -/
structure IsLawful (registry : Registry) : Prop where
  nodup_names : registry.names.Nodup
  sound : ∀ plugin ∈ registry.plugins, plugin.isSound = true

/-- A registry has the given plugins, under distinct names, and lists in their order what they
bring. -/
structure Lists (registry : Registry) (plugins : List Plugin) : Prop where
  plugins_eq : registry.plugins = plugins
  nodup_names : (plugins.map Plugin.name).Nodup
  /-- Everything that is offered as a source can serve as one, and all of it is listed. -/
  sources_eq : plugins.flatMap Plugin.sources = registry.valueSources.map .usable
  providers_eq : registry.providers = plugins.flatMap Plugin.providers
  ignoreMissing_eq : registry.ignoreMissing = plugins.flatMap Plugin.ignoreMissing
  /-- The source of a kind is the first one that claims it. -/
  findSource_eq_some_iff : ∀ kind source, registry.findSource kind = some source ↔
    source.kind = kind ∧ ∃ earlier later, registry.valueSources = earlier ++ source :: later ∧
      ∀ other ∈ earlier, other.kind ≠ kind
  findSource_eq_none_iff : ∀ kind, registry.findSource kind = none ↔
    ∀ source ∈ registry.valueSources, source.kind ≠ kind

end Registry

section Sources

variable {plugin : Plugin}

/-- A plugin whose name is taken is left out. -/
theorem newlyNamed_of_mem {taken : List Text} (h : plugin.name ∈ taken) (rest : List Plugin) :
    newlyNamed taken (plugin :: rest) = newlyNamed taken rest := by
  rw [newlyNamed, if_pos (List.contains_iff_mem.mpr h)]

/-- A plugin with a new name is kept, and its name is taken for the others. -/
theorem newlyNamed_of_notMem {taken : List Text} (h : plugin.name ∉ taken) (rest : List Plugin) :
    newlyNamed taken (plugin :: rest) = plugin :: newlyNamed (taken ++ [plugin.name]) rest := by
  rw [newlyNamed, if_neg (by simpa using h)]

/-- What is shown of something that cannot serve as a source. -/
def OfferedSource.unusable? : OfferedSource → Option Text
  | .unusable shown => some shown
  | .usable _ => none

/-- A plugin offers usable sources only, or something else behind usable ones. -/
theorem Plugin.sources_cases (plugin : Plugin) :
    plugin.isSound = true ∧ plugin.sources.findSome? OfferedSource.unusable? = none ∨
      ∃ (usable : List ValueSource) (shown : Text) (rest : List OfferedSource),
        plugin.sources = usable.map .usable ++ .unusable shown :: rest ∧
          plugin.sources.findSome? OfferedSource.unusable? = some shown := by
  rw [Plugin.isSound]
  induction plugin.sources with
  | nil => exact Or.inl ⟨rfl, rfl⟩
  | cons first rest ih =>
    cases first with
    | unusable shown => exact Or.inr ⟨[], shown, rest, rfl, rfl⟩
    | usable source =>
      rcases ih with hsound | ⟨usable, shown, more, rfl, hshown⟩
      · exact Or.inl hsound
      · exact Or.inr ⟨source :: usable, shown, more, rfl, hshown⟩

/-- A plugin with usable sources only lists all that it offers. -/
theorem Plugin.sources_eq_of_isSound (h : plugin.isSound = true) :
    plugin.sources = plugin.valueSources.map .usable := by
  rw [Plugin.isSound, List.all_eq_true] at h
  rw [Plugin.valueSources]
  generalize plugin.sources = offered at h
  induction offered with
  | nil => rfl
  | cons first rest ih =>
    obtain ⟨hfirst, hrest⟩ := List.forall_mem_cons.mp h
    cases first with
    | unusable shown => cases hfirst
    | usable source => exact congrArg (OfferedSource.usable source :: ·) (ih hrest)

end Sources

namespace Registry

section Steps

variable {registry : Registry} {plugin : Plugin} {failure : Failure}

/-- What a registration comes to, with what is looked for among the sources. -/
theorem register_eq (registry : Registry) (plugin : Plugin) :
    registry.register plugin =
      if registry.frozen then .error .registryFrozen
      else if plugin.name ∈ registry.names then .error (.duplicatePlugin plugin.name)
      else match plugin.sources.findSome? OfferedSource.unusable? with
        | some shown => .error (.unusableSource plugin.name shown)
        | none => .ok (registry.add plugin) := by
  have hname : (registry.plugins.any fun other => other.name == plugin.name) = true ↔
      plugin.name ∈ registry.names := by
    simp [names]
  simp only [register, hname]
  rfl

/-- A registration adds the plugin or is refused for a reason. -/
theorem register_cases (registry : Registry) (plugin : Plugin) :
    registry.Takes plugin ∧ registry.register plugin = .ok (registry.add plugin) ∨
      ∃ failure, registry.Refuses plugin failure ∧ registry.register plugin = .error failure := by
  rw [register_eq]
  by_cases hfrozen : registry.frozen = true
  · exact Or.inr ⟨_, .frozen hfrozen, if_pos hfrozen⟩
  rw [if_neg hfrozen]
  rw [Bool.not_eq_true] at hfrozen
  by_cases hname : plugin.name ∈ registry.names
  · exact Or.inr ⟨_, .taken hfrozen hname, if_pos hname⟩
  rw [if_neg hname]
  rcases plugin.sources_cases with ⟨hsound, hnone⟩ | ⟨usable, shown, rest, hsources, hshown⟩
  · rw [hnone]
    exact Or.inl ⟨⟨hfrozen, hname, hsound⟩, rfl⟩
  · rw [hshown]
    exact Or.inr ⟨_, .unusable hfrozen hname hsources, rfl⟩

/-- What is refused is not taken. -/
theorem Refuses.not_takes (h : registry.Refuses plugin failure) : ¬ registry.Takes plugin := by
  intro htakes
  cases h with
  | frozen hfrozen => simp [htakes.not_frozen] at hfrozen
  | taken _ hname => exact htakes.name_notMem hname
  | unusable _ _ hsources =>
    have hsound := htakes.sound
    rw [Plugin.isSound, hsources] at hsound
    simp [OfferedSource.source?] at hsound

/-- A registration that is made leaves the registry with the plugin, or as it was. -/
theorem endsIn_register (registry : Registry) (plugin : Plugin) :
    (RegistryCall.register plugin).made.EndsIn registry
      (fun _ next => registry.Takes plugin ∧ next = registry.add plugin)
      fun failure next => registry.Refuses plugin failure ∧ next = registry := by
  rw [RegistryCall.made, Attempt.endsIn_bind, Attempt.endsIn_get, Attempt.endsIn_bind,
    Attempt.EndsIn, Attempt.runFrom_ofExcept]
  rcases register_cases registry plugin with ⟨htakes, hok⟩ | ⟨failure, hrefuses, herror⟩
  · rw [hok]
    exact ⟨htakes, rfl⟩
  · rw [herror]
    exact ⟨hrefuses, rfl⟩

/-- A call freezes, adds a plugin, or is refused and changes nothing. -/
theorem made_cases (registry : Registry) (call : RegistryCall) :
    call = .freeze ∧ call.made.runFrom registry = (.ok (), registry.freeze) ∨
      ∃ plugin, call = .register plugin ∧
        (registry.Takes plugin ∧ call.made.runFrom registry = (.ok (), registry.add plugin) ∨
          ∃ failure, registry.Refuses plugin failure ∧
            call.made.runFrom registry = (.error failure, registry)) := by
  cases call with
  | freeze => exact Or.inl ⟨rfl, rfl⟩
  | register plugin =>
    refine Or.inr ⟨plugin, rfl, ?_⟩
    have hends := endsIn_register registry plugin
    rcases hrun : (RegistryCall.register plugin).made.runFrom registry with ⟨failure | ⟨⟩, next⟩
    · obtain ⟨hrefuses, rfl⟩ := hends.of_runFrom_error hrun
      exact Or.inr ⟨failure, hrefuses, rfl⟩
    · obtain ⟨htakes, rfl⟩ := hends.of_runFrom_ok hrun
      exact Or.inl ⟨htakes, rfl⟩

/-- A frozen registry stays as it is under every call. -/
theorem made_of_frozen (hfrozen : registry.frozen = true) (call : RegistryCall) :
    (call.made.runFrom registry).2 = registry := by
  rcases made_cases registry call with ⟨-, hrun⟩ | ⟨plugin, -, ⟨htakes, -⟩ | ⟨failure, -, hrun⟩⟩
  · rw [hrun, freeze, ← hfrozen]
  · simp [htakes.not_frozen] at hfrozen
  · rw [hrun]

/-- Every call keeps the names distinct and the sources usable. -/
theorem IsLawful.made (h : registry.IsLawful) (call : RegistryCall) :
    (call.made.runFrom registry).2.IsLawful := by
  rcases made_cases registry call with ⟨-, hrun⟩ | ⟨plugin, -, ⟨htakes, hrun⟩ | ⟨failure, -, hrun⟩⟩
  · rw [hrun]
    exact ⟨h.nodup_names, h.sound⟩
  · rw [hrun]
    constructor
    · rw [names, add, List.map_append]
      apply List.Nodup.append h.nodup_names (List.nodup_singleton _)
      simpa using htakes.name_notMem
    · simpa [add, or_imp, forall_and] using ⟨h.sound, htakes.sound⟩
  · rwa [hrun]

end Steps

section Histories

variable {registry : Registry}

/-- Calls after calls. -/
theorem after_append (registry : Registry) (first second : List RegistryCall) :
    registry.after (first ++ second) = (registry.after first).after second := by
  induction first generalizing registry with
  | nil => rfl
  | cons call rest ih => exact ih _

/-- A frozen registry stays as it is. -/
theorem after_of_frozen (hfrozen : registry.frozen = true) (calls : List RegistryCall) :
    registry.after calls = registry := by
  induction calls with
  | nil => rfl
  | cons call rest ih => rw [after, made_of_frozen hfrozen, ih]

/-- A registry stays lawful under all calls. -/
theorem IsLawful.after (h : registry.IsLawful) (calls : List RegistryCall) :
    (registry.after calls).IsLawful := by
  induction calls generalizing registry with
  | nil => exact h
  | cons call rest ih => exact ih (h.made call)

/-- A registry is frozen after calls if it was before or one of them freezes it. -/
theorem frozen_after_iff (registry : Registry) (calls : List RegistryCall) :
    (registry.after calls).frozen = true ↔ registry.frozen = true ∨ .freeze ∈ calls := by
  induction calls generalizing registry with
  | nil => simp [after]
  | cons call rest ih =>
    rw [after, ih]
    rcases made_cases registry call with
      ⟨rfl, hrun⟩ | ⟨plugin, rfl, ⟨-, hrun⟩ | ⟨failure, -, hrun⟩⟩
    · simp [hrun, freeze]
    · simp [hrun, add]
    · simp [hrun]

/-- The plugins are those that were there and those that calls registered, in order. -/
theorem plugins_after_eq_registered (registry : Registry) (calls : List RegistryCall) :
    (registry.after calls).plugins =
      registry.plugins ++ (registry.outcomes calls).filterMap registeredBy? := by
  induction calls generalizing registry with
  | nil => simp [after, outcomes]
  | cons call rest ih =>
    rw [after, ih, outcomes]
    rcases made_cases registry call with
      ⟨rfl, hrun⟩ | ⟨plugin, rfl, ⟨-, hrun⟩ | ⟨failure, -, hrun⟩⟩
    · rw [hrun, List.filterMap_cons_none rfl]
      rfl
    · have hplugin : registeredBy? (.register plugin, .ok ()) = some plugin := rfl
      rw [hrun, List.filterMap_cons_some hplugin]
      simp [add]
    · rw [hrun, List.filterMap_cons_none rfl]

/-- The plugins added to a registry before it is frozen are the sound ones among those offered,
under names that are not taken. -/
theorem plugins_after (hfrozen : registry.frozen = false) (calls : List RegistryCall) :
    (registry.after calls).plugins = registry.plugins ++
      newlyNamed registry.names ((offeredBeforeFreeze calls).filter Plugin.isSound) := by
  induction calls generalizing registry with
  | nil => simp [after, offeredBeforeFreeze, newlyNamed]
  | cons call rest ih =>
    rw [after]
    rcases made_cases registry call with
      ⟨rfl, hrun⟩ | ⟨plugin, rfl, ⟨htakes, hrun⟩ | ⟨failure, hrefuses, hrun⟩⟩
    · rw [hrun, after_of_frozen rfl]
      simp [offeredBeforeFreeze, newlyNamed, freeze]
    · have hopen : (registry.add plugin).frozen = false := htakes.not_frozen
      rw [hrun, ih hopen, offeredBeforeFreeze, List.filter_cons_of_pos htakes.sound,
        newlyNamed_of_notMem htakes.name_notMem]
      simp [add, names]
    · rw [hrun, ih hfrozen, offeredBeforeFreeze]
      cases hrefuses with
      | frozen hthere => simp [hfrozen] at hthere
      | taken _ hname =>
        cases hsound : plugin.isSound with
        | false => simp [hsound]
        | true => rw [List.filter_cons_of_pos hsound, newlyNamed_of_mem hname]
      | unusable _ _ hsources =>
        have hsound : plugin.isSound = false := by
          simp [Plugin.isSound, hsources, OfferedSource.source?]
        simp [hsound]

end Histories

/-- A lawful registry lists what its plugins bring. -/
theorem IsLawful.lists {registry : Registry} (h : registry.IsLawful) :
    registry.Lists registry.plugins where
  plugins_eq := rfl
  nodup_names := h.nodup_names
  sources_eq := by
    rw [valueSources, List.map_flatMap]
    exact List.flatMap_congr fun plugin hplugin =>
      plugin.sources_eq_of_isSound (h.sound plugin hplugin)
  providers_eq := rfl
  ignoreMissing_eq := rfl
  findSource_eq_some_iff kind source := by
    rw [findSource, List.find?_eq_some_iff_append]
    simp
  findSource_eq_none_iff kind := by
    rw [findSource, List.find?_eq_none]
    simp

/-- After any calls on a new registry, successful or not, its plugins are those whose registration
succeeded, in order. They are the sound ones among the plugins offered before the registry was
frozen, and a name belongs to the first of them that has it. The registry lists what they bring. The
next registration adds its plugin, or fails for the first reason there is to refuse it and leaves
the registry as it was. Once the registry is frozen, all calls leave it as it is. -/
theorem lists_after (calls : List RegistryCall) :
    let registry := Registry.after {} calls
    registry.Lists ((Registry.outcomes {} calls).filterMap registeredBy?) ∧
    registry.plugins = newlyNamed [] ((offeredBeforeFreeze calls).filter Plugin.isSound) ∧
    (registry.frozen = true ↔ .freeze ∈ calls) ∧
    (∀ plugin, (RegistryCall.register plugin).made.EndsIn registry
      (fun _ next => registry.Takes plugin ∧
        next = { registry with plugins := registry.plugins ++ [plugin] })
      fun failure next => registry.Refuses plugin failure ∧ next = registry) ∧
    ∀ more, Registry.after {} (calls ++ .freeze :: more) = { registry with frozen := true } := by
  intro registry
  have hlawful : registry.IsLawful := by
    apply IsLawful.after
    exact ⟨List.nodup_nil, nofun⟩
  have hregistered : registry.plugins = (Registry.outcomes {} calls).filterMap registeredBy? :=
    plugins_after_eq_registered {} calls
  have hoffered : registry.plugins =
      newlyNamed [] ((offeredBeforeFreeze calls).filter Plugin.isSound) :=
    plugins_after rfl calls
  refine ⟨hregistered ▸ hlawful.lists, hoffered, ?_, endsIn_register registry, fun more => ?_⟩
  · simpa using frozen_after_iff {} calls
  · rw [after_append]
    exact after_of_frozen rfl more

end Registry
end EnvFiles
