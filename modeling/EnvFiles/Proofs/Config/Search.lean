import EnvFiles.Proofs.Config.Holding
import EnvFiles.Proofs.Tree.Resolving

/-!
# The nearest settings

The candidates for a folder are tried in an order: those in a nearer folder first, and in one folder
by their names. A search passes over those without settings and ends at the first other one. So it
finds the first candidate that holds a configuration, unless a malformed one comes before it.
-/

namespace EnvFiles

/-- A path that can hold settings for a folder: a place in the folder or in one above it. -/
def IsCandidate (folder path : Path) : Prop :=
  ∃ above name, above <+: folder ∧ name ∈ searchPlaces ∧ path = above ++ [name]

/-- A candidate is tried before another: it is nearer, or has an earlier name in one folder. -/
def TriedBefore (first second : Path) : Prop :=
  second.parent.length < first.parent.length ∨ first.parent = second.parent ∧
    searchPlaces.idxOf first.name < searchPlaces.idxOf second.name

/-- A candidate is reached by a search: those tried before it are passed over. -/
structure IsReached (formats : Formats) (root : Node) (folder path : Path) : Prop where
  candidate : IsCandidate folder path
  passedOver : ∀ earlier, IsCandidate folder earlier → TriedBefore earlier path →
    PassedOver formats root earlier

/-- What a search comes to: the defaults if all candidates are passed over, otherwise what the
candidate that is reached and not passed over gives. -/
inductive ComesTo (formats : Formats) (root : Node) (folder : Path) :
    Except Failure LoadedConfig → Prop
  | defaults : (∀ path, IsCandidate folder path → PassedOver formats root path) →
      ComesTo formats root folder (.ok {})
  | config {path : Path} {config : Config} : IsReached formats root folder path →
      HoldsConfig formats root path config →
        ComesTo formats root folder (.ok { config, path := some path, found := true })
  | failure {path : Path} {failure : Failure} : IsReached formats root folder path →
      IsMalformed formats root path → loadConfigFile formats root path = .error failure →
        ComesTo formats root folder (.error failure)

/-- A search from a folder comes to the nearest settings. -/
structure FindsNearest (formats : Formats) (root : Node) (folder : Path)
    (result : Except Failure LoadedConfig) : Prop where
  /-- It comes to settings of a file or to the defaults, or it fails. -/
  loaded : ∀ loaded, result = .ok loaded → loaded = {} ∨
    ∃ config path, loaded = { config, path := some path, found := true }
  /-- The settings are those of a candidate that is reached and holds them. -/
  found_iff : ∀ config path, result = .ok { config, path := some path, found := true } ↔
    IsReached formats root folder path ∧ HoldsConfig formats root path config
  /-- The defaults count if all candidates are passed over. -/
  defaults_iff : result = .ok {} ↔ ∀ path, IsCandidate folder path → PassedOver formats root path
  /-- It fails if a malformed candidate is tried before all that hold settings. -/
  fails_iff : (∃ failure, result = .error failure) ↔
    ∃ path, IsCandidate folder path ∧ IsMalformed formats root path ∧
      ∀ other config, IsCandidate folder other → HoldsConfig formats root other config →
        TriedBefore path other
  /-- The failure is that of a malformed candidate that is reached. -/
  failure_iff : ∀ failure, result = .error failure ↔
    ∃ path, IsReached formats root folder path ∧ IsMalformed formats root path ∧
      loadConfigFile formats root path = .error failure

section Order

variable {folder path first second : Path}

/-- The upward folders are those that a folder starts with. -/
theorem Path.mem_upward_iff {above : Path} : above ∈ folder.upward ↔ above <+: folder := by
  rw [Path.upward, List.mem_map]
  constructor
  · rintro ⟨levels, -, rfl⟩
    exact List.take_prefix ..
  · intro h
    have hlength := h.length_le
    refine ⟨folder.length - above.length, List.mem_range.mpr (by omega), ?_⟩
    rw [Nat.sub_sub_self hlength]
    exact (List.prefix_iff_eq_take.mp h).symm

/-- Folders get shorter upward. -/
theorem Path.pairwise_upward (folder : Path) :
    folder.upward.Pairwise fun nearer farther => farther.length < nearer.length := by
  rw [Path.upward, List.pairwise_map]
  refine List.pairwise_lt_range.imp_of_mem fun {fewer} {more} _ hmore hlt => ?_
  rw [List.mem_range] at hmore
  rw [List.length_take, List.length_take]
  omega

/-- The names in a folder are tried in turn. -/
theorem pairwise_searchPlaces : searchPlaces.Pairwise fun first second =>
    searchPlaces.idxOf first < searchPlaces.idxOf second := by decide

/-- What is looked at are the candidates. -/
theorem mem_configCandidates_iff : path ∈ configCandidates folder ↔ IsCandidate folder path := by
  simp only [configCandidates, IsCandidate, List.mem_flatMap, List.mem_map, Path.mem_upward_iff]
  constructor
  · rintro ⟨above, habove, name, hname, rfl⟩
    exact ⟨above, name, habove, hname, rfl⟩
  · rintro ⟨above, name, habove, hname, rfl⟩
    exact ⟨above, habove, name, hname, rfl⟩

/-- The candidates are looked at in their order. -/
theorem pairwise_configCandidates (folder : Path) :
    (configCandidates folder).Pairwise TriedBefore := by
  rw [configCandidates, List.pairwise_flatMap]
  constructor
  · intro above _
    rw [List.pairwise_map]
    refine pairwise_searchPlaces.imp fun {first} {second} hlt => .inr ?_
    simpa [Path.parent, Path.name] using hlt
  · refine (Path.pairwise_upward folder).imp fun {nearer} {farther} hlt => ?_
    intro first hfirst second hsecond
    obtain ⟨name, -, rfl⟩ := List.mem_map.mp hfirst
    obtain ⟨other, -, rfl⟩ := List.mem_map.mp hsecond
    exact .inl (by simpa [Path.parent] using hlt)

/-- Of two candidates only one is tried before the other. -/
theorem TriedBefore.asymm (h : TriedBefore first second) : ¬ TriedBefore second first := by
  rintro (hdeeper | ⟨hparent, hname⟩)
  · rcases h with hdeeper' | ⟨hparent', -⟩
    · exact Nat.lt_asymm hdeeper hdeeper'
    · exact Nat.lt_irrefl _ (hparent' ▸ hdeeper)
  · rcases h with hdeeper' | ⟨-, hname'⟩
    · exact Nat.lt_irrefl _ (hparent ▸ hdeeper')
    · exact Nat.lt_asymm hname hname'

/-- What is looked at before a candidate are those tried before it, and all others come after it. -/
theorem mem_before_iff {before after : List Path}
    (h : configCandidates folder = before ++ path :: after) (other : Path) :
    (other ∈ before ↔ IsCandidate folder other ∧ TriedBefore other path) ∧
      (other ∈ after ↔ IsCandidate folder other ∧ TriedBefore path other) := by
  have hpairwise := pairwise_configCandidates folder
  rw [h, List.pairwise_append, List.pairwise_cons] at hpairwise
  obtain ⟨-, ⟨hafter, -⟩, hbefore⟩ := hpairwise
  have hirrefl : ¬ TriedBefore path path := fun hself => hself.asymm hself
  rw [← mem_configCandidates_iff, h, List.mem_append, List.mem_cons]
  constructor
  · constructor
    · intro hmem
      exact ⟨.inl hmem, hbefore other hmem path List.mem_cons_self⟩
    · rintro ⟨hmem | rfl | hmem, htried⟩
      · exact hmem
      · exact absurd htried hirrefl
      · exact absurd htried (hafter other hmem).asymm
  · constructor
    · intro hmem
      exact ⟨.inr (.inr hmem), hafter other hmem⟩
    · rintro ⟨hmem | rfl | hmem, htried⟩
      · exact absurd htried (hbefore other hmem path List.mem_cons_self).asymm
      · exact absurd htried hirrefl
      · exact hmem

/-- Of two different candidates one is tried before the other. -/
theorem triedBefore_or (hfirst : IsCandidate folder first) (hsecond : IsCandidate folder second)
    (hne : first ≠ second) : TriedBefore first second ∨ TriedBefore second first := by
  rw [← mem_configCandidates_iff] at hfirst hsecond
  obtain ⟨before, after, hsplit⟩ := List.append_of_mem hfirst
  rw [hsplit, List.mem_append, List.mem_cons] at hsecond
  obtain ⟨hbefore, hafter⟩ := mem_before_iff hsplit second
  rcases hsecond with hmem | heq | hmem
  · exact .inr (hbefore.mp hmem).2
  · exact absurd heq.symm hne
  · exact .inl (hafter.mp hmem).2

end Order

section Search

variable {formats : Formats} {root : Node} {folder path : Path} {config : Config}
  {before rest : List Path}

/-- A path that is passed over has no part in the search. -/
theorem PassedOver.firstConfig_cons (h : PassedOver formats root path) (rest : List Path) :
    firstConfig formats root (path :: rest) = firstConfig formats root rest := by
  rw [firstConfig]
  split
  · rename_i hfile
    obtain ⟨text, htext, hnone⟩ := h hfile
    rw [loadConfigFile_of_readText htext, hnone.readSettings_eq]
    rfl
  · rfl

/-- Paths that are passed over have no part in the search. -/
theorem firstConfig_append (h : ∀ path ∈ before, PassedOver formats root path) (rest : List Path) :
    firstConfig formats root (before ++ rest) = firstConfig formats root rest := by
  induction before with
  | nil => rfl
  | cons path others ih =>
    obtain ⟨hpath, hothers⟩ := List.forall_mem_cons.mp h
    rw [List.cons_append, hpath.firstConfig_cons, ih hothers]

/-- A search ends at a configuration. -/
theorem HoldsConfig.firstConfig_cons (h : HoldsConfig formats root path config)
    (rest : List Path) :
    firstConfig formats root (path :: rest) =
      .ok { config, path := some path, found := true } := by
  rw [firstConfig, if_pos h.1, h.loadConfigFile_eq]
  rfl

/-- A search ends at something malformed. -/
theorem IsMalformed.firstConfig_cons (h : IsMalformed formats root path) {failure : Failure}
    (hfailure : loadConfigFile formats root path = .error failure) (rest : List Path) :
    firstConfig formats root (path :: rest) = .error failure := by
  rw [firstConfig, if_pos h.1, hfailure]

/-- What can be passed over holds no configuration. -/
theorem PassedOver.not_holdsConfig (h : PassedOver formats root path) :
    ¬ HoldsConfig formats root path config := by
  intro hconfig
  have heq := (h.firstConfig_cons []).symm.trans (hconfig.firstConfig_cons [])
  cases heq

/-- What can be passed over is not malformed. -/
theorem PassedOver.not_isMalformed (h : PassedOver formats root path) :
    ¬ IsMalformed formats root path := by
  intro hmalformed
  obtain ⟨failure, hfailure⟩ := hmalformed.loadConfigFile_eq
  have heq := (h.firstConfig_cons []).symm.trans (hmalformed.firstConfig_cons hfailure [])
  cases heq

/-- Candidates are all passed over, or some are before the first other one. -/
theorem passedOver_or_exists_first (formats : Formats) (root : Node) (paths : List Path) :
    (∀ path ∈ paths, PassedOver formats root path) ∨
    ∃ before path after, paths = before ++ path :: after ∧
      (∀ earlier ∈ before, PassedOver formats root earlier) ∧
        ¬ PassedOver formats root path := by
  induction paths with
  | nil => exact .inl nofun
  | cons path rest ih =>
    by_cases hpath : PassedOver formats root path
    · rcases ih with hall | ⟨before, found, after, rfl, hbefore, hfound⟩
      · exact .inl (List.forall_mem_cons.mpr ⟨hpath, hall⟩)
      · exact .inr ⟨path :: before, found, after, rfl,
          List.forall_mem_cons.mpr ⟨hpath, hbefore⟩, hfound⟩
    · exact .inr ⟨[], path, rest, rfl, nofun, hpath⟩

/-- What holds a configuration is not malformed. -/
theorem HoldsConfig.not_isMalformed (h : HoldsConfig formats root path config) :
    ¬ IsMalformed formats root path := by
  intro hmalformed
  obtain ⟨failure, hfailure⟩ := hmalformed.loadConfigFile_eq
  cases h.loadConfigFile_eq.symm.trans hfailure

/-- What comes after a candidate that is reached and cannot be passed over is not reached. -/
theorem IsReached.eq_or_triedBefore {other : Path} (h : IsReached formats root folder path)
    (hother : IsCandidate folder other) (hnot : ¬ PassedOver formats root other) :
    path = other ∨ TriedBefore path other := by
  by_cases heq : path = other
  · exact .inl heq
  · rcases triedBefore_or h.candidate hother heq with htried | htried
    · exact .inr htried
    · exact absurd (h.passedOver other hother htried) hnot

/-- A search goes on to a candidate that is reached. -/
theorem IsReached.exists_firstConfig_eq (h : IsReached formats root folder path) :
    ∃ after, firstConfig formats root (configCandidates folder) =
      firstConfig formats root (path :: after) := by
  obtain ⟨before, after, hsplit⟩ := List.append_of_mem (mem_configCandidates_iff.mpr h.candidate)
  refine ⟨after, ?_⟩
  rw [hsplit]
  apply firstConfig_append
  intro earlier hearlier
  obtain ⟨hcandidate, htried⟩ := (mem_before_iff hsplit earlier).1.mp hearlier
  exact h.passedOver earlier hcandidate htried

/-- What a search comes to is its result. -/
theorem ComesTo.firstConfig_eq {result : Except Failure LoadedConfig}
    (h : ComesTo formats root folder result) :
    firstConfig formats root (configCandidates folder) = result := by
  cases h with
  | defaults hall =>
    have hover : ∀ path ∈ configCandidates folder, PassedOver formats root path :=
      fun path hpath => hall path (mem_configCandidates_iff.mp hpath)
    have hend := firstConfig_append hover []
    rwa [List.append_nil] at hend
  | config hreached hconfig =>
    obtain ⟨after, hfirst⟩ := hreached.exists_firstConfig_eq
    rw [hfirst, hconfig.firstConfig_cons]
  | failure hreached hmalformed hfailure =>
    obtain ⟨after, hfirst⟩ := hreached.exists_firstConfig_eq
    rw [hfirst, hmalformed.firstConfig_cons hfailure]

/-- A search comes to something. -/
theorem exists_comesTo (formats : Formats) (root : Node) (folder : Path) :
    ∃ result, ComesTo formats root folder result := by
  rcases passedOver_or_exists_first formats root (configCandidates folder) with
    hall | ⟨before, path, after, hsplit, hbefore, hpath⟩
  · exact ⟨_, .defaults fun path hpath => hall path (mem_configCandidates_iff.mpr hpath)⟩
  · have hreached : IsReached formats root folder path := by
      constructor
      · rw [← mem_configCandidates_iff, hsplit]
        exact List.mem_append_right _ List.mem_cons_self
      · intro earlier hearlier htried
        exact hbefore earlier ((mem_before_iff hsplit earlier).1.mpr ⟨hearlier, htried⟩)
    rcases passedOver_or_isMalformed formats root path with hover | ⟨config, hconfig⟩ | hmalformed
    · exact absurd hover hpath
    · exact ⟨_, .config hreached hconfig⟩
    · obtain ⟨failure, hfailure⟩ := hmalformed.loadConfigFile_eq
      exact ⟨_, .failure hreached hmalformed hfailure⟩

/-- The result of a search is what it comes to. -/
theorem firstConfig_eq_iff {result : Except Failure LoadedConfig} :
    firstConfig formats root (configCandidates folder) = result ↔
      ComesTo formats root folder result := by
  constructor
  · rintro rfl
    obtain ⟨result, hresult⟩ := exists_comesTo formats root folder
    rwa [hresult.firstConfig_eq]
  · exact ComesTo.firstConfig_eq

/-- The result of a search is that of the nearest settings. -/
theorem findsNearest_firstConfig (formats : Formats) (root : Node) (folder : Path) :
    FindsNearest formats root folder (firstConfig formats root (configCandidates folder)) := by
  have hfailure (failure : Failure) :
      firstConfig formats root (configCandidates folder) = .error failure ↔
        ∃ path, IsReached formats root folder path ∧ IsMalformed formats root path ∧
          loadConfigFile formats root path = .error failure := by
    rw [firstConfig_eq_iff]
    constructor
    · intro hcomes
      cases hcomes with
      | failure hreached hmalformed hloaded => exact ⟨_, hreached, hmalformed, hloaded⟩
    · rintro ⟨path, hreached, hmalformed, hloaded⟩
      exact .failure hreached hmalformed hloaded
  constructor
  case loaded =>
    intro loaded hloaded
    cases firstConfig_eq_iff.mp hloaded with
    | defaults => exact .inl rfl
    | config => exact .inr ⟨_, _, rfl⟩
  case found_iff =>
    intro config path
    rw [firstConfig_eq_iff]
    constructor
    · intro hcomes
      cases hcomes with
      | config hreached hconfig => exact ⟨hreached, hconfig⟩
    · rintro ⟨hreached, hconfig⟩
      exact .config hreached hconfig
  case defaults_iff =>
    rw [firstConfig_eq_iff]
    constructor
    · intro hcomes
      cases hcomes with
      | defaults hall => exact hall
    · exact .defaults
  case fails_iff =>
    constructor
    · rintro ⟨failure, hfails⟩
      obtain ⟨path, hreached, hmalformed, -⟩ := (hfailure failure).mp hfails
      refine ⟨path, hreached.candidate, hmalformed, fun other config hother hconfig => ?_⟩
      rcases hreached.eq_or_triedBefore hother fun hover => hover.not_holdsConfig hconfig with
        rfl | htried
      · exact absurd hmalformed hconfig.not_isMalformed
      · exact htried
    · rintro ⟨path, hcandidate, hmalformed, hbefore⟩
      obtain ⟨result, hresult⟩ := exists_comesTo formats root folder
      rw [hresult.firstConfig_eq]
      cases hresult with
      | defaults hall => exact absurd hmalformed (hall path hcandidate).not_isMalformed
      | config hreached hconfig =>
        have htried := hbefore _ _ hreached.candidate hconfig
        exact absurd hmalformed (hreached.passedOver path hcandidate htried).not_isMalformed
      | failure => exact ⟨_, rfl⟩
  case failure_iff => exact hfailure

end Search

/-- Settings are searched for among the candidates of the folder that the start stands for: the
nearest are found, the defaults if there are none, and a malformed candidate makes the search fail
if it is tried before those that hold settings. A start that leads to a place stands for it. -/
theorem loadConfig_finds_nearest (formats : Formats) (root : Node) (start : Path) :
    (∀ folder, root.resolve start = .ok folder →
      FindsNearest formats root folder (loadConfig formats root start)) ∧
    (start.hasNull = false → ∀ folder node, root.walk start = .ok (.taken folder node) →
      root.resolve start = .ok folder) := by
  constructor
  · intro folder hfolder
    have hload : loadConfig formats root start =
        firstConfig formats root (configCandidates folder) := by
      rw [loadConfig, hfolder]
      rfl
    rw [hload]
    exact findsNearest_firstConfig formats root folder
  · intro hnull folder node hwalk
    exact Node.resolve_of_walk hnull hwalk

/-- A project whose nearest settings are those of an upper folder, below malformed ones. One of its
folders has settings that can be parsed but are not valid. -/
def nestedTree : Node := .folder [
  (".env-vars-doctorrc.json", .file (Node.encode "[")),
  ("here", .link "app/web"),
  ("app", .folder [
    (".env-vars-doctorrc.json", .file (Node.encode " \n")),
    ("env-vars-doctor.config.json",
      .file (Node.encode "\x7b\"ci\": \x7b\"skipEnvVar\": \"NO_CHECK\"\x7d\x7d")),
    ("web", .folder [
      (".env-vars-doctorrc", .file (Node.encode "# nothing\n")),
      ("pyproject.toml", .file (Node.encode "[tool.other]\nx = 1\n"))]),
    ("wrong", .folder [(".env-vars-doctorrc.yaml", .file (Node.encode "ci: 3\n"))])])]

/-- The failure of a search from the folder with settings that are not valid. -/
def wrongFailure : Failure :=
  .unusableConfig ["app", "wrong", ".env-vars-doctorrc.yaml"] (.invalid [⟨["ci"], .sectionExpected⟩])

/-- From a link to the lowest folder the settings of the folder above it are found, past three files
without any. Settings that are not valid end a search below them, and malformed ones at the top. -/
theorem loadConfig_finds_nearest_nested :
    Path.hasNull ["here"] = false ∧
    (∃ node, nestedTree.walk ["here"] = .ok (.taken ["app", "web"] node)) ∧
    (∃ config, IsReached .standard nestedTree ["app", "web"]
        ["app", "env-vars-doctor.config.json"] ∧
      HoldsConfig .standard nestedTree ["app", "env-vars-doctor.config.json"] config ∧
      config.ci.skipVariable = "NO_CHECK") ∧
    (∃ path, IsReached .standard nestedTree ["app", "wrong"] path ∧
      IsMalformed .standard nestedTree path ∧
      loadConfigFile .standard nestedTree path = .error wrongFailure) ∧
    ∃ path, IsReached .standard nestedTree [] path ∧ IsMalformed .standard nestedTree path := by
  have hwalk : ∃ node, nestedTree.walk ["here"] = .ok (.taken ["app", "web"] node) := ⟨_, rfl⟩
  obtain ⟨node, hnode⟩ := hwalk
  obtain ⟨hsearch, hstart⟩ := loadConfig_finds_nearest .standard nestedTree ["here"]
  have hfinds := hsearch _ (hstart rfl _ node hnode)
  have hfound : (loadConfig .standard nestedTree ["here"]).map
      (fun loaded => (loaded.path, loaded.config.ci.skipVariable)) =
        .ok (some ["app", "env-vars-doctor.config.json"], "NO_CHECK") := by decide +kernel
  obtain ⟨hbelow, -⟩ := loadConfig_finds_nearest .standard nestedTree ["app", "wrong"]
  have hwrong : (loadConfig .standard nestedTree ["app", "wrong"]).map LoadedConfig.path =
      .error wrongFailure := by decide +kernel
  obtain ⟨htop, -⟩ := loadConfig_finds_nearest .standard nestedTree []
  have hfails : (loadConfig .standard nestedTree []).isOk = false := by decide +kernel
  refine ⟨rfl, ⟨node, hnode⟩, ?_, ?_, ?_⟩
  · cases hresult : loadConfig .standard nestedTree ["here"] with
    | error failure =>
      rw [hresult] at hfound
      cases hfound
    | ok loaded =>
      rw [hresult] at hfound hfinds
      have hparts := Prod.mk.inj (Except.ok.inj hfound)
      rcases hfinds.loaded loaded rfl with rfl | ⟨config, path, rfl⟩
      · cases hparts.1
      · obtain ⟨hreached, hconfig⟩ := (hfinds.found_iff config path).mp rfl
        obtain rfl := Option.some.inj hparts.1
        exact ⟨config, hreached, hconfig, hparts.2⟩
  · cases hresult : loadConfig .standard nestedTree ["app", "wrong"] with
    | ok loaded =>
      rw [hresult] at hwrong
      cases hwrong
    | error failure =>
      rw [hresult] at hwrong
      obtain rfl := Except.error.inj hwrong
      exact ((hbelow _ rfl).failure_iff _).mp hresult
  · cases hresult : loadConfig .standard nestedTree [] with
    | ok loaded =>
      rw [hresult] at hfails
      cases hfails
    | error failure =>
      obtain ⟨path, hreached, hmalformed, -⟩ := ((htop [] rfl).failure_iff failure).mp hresult
      exact ⟨path, hreached, hmalformed⟩

end EnvFiles
