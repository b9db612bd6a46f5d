import EnvFiles.Proofs.Store.Memory
import EnvFiles.Proofs.Values.Declarations
import EnvFiles.Proofs.Workflow.Settling

/-!
# What a value carries along

Values are written as they come. The reader takes the first line of a value for the value, and
every further line for a line of the file, so a value sets the names that those lines declare. It
sets no others: a name that no further line of the value declares reads as before.
-/

namespace EnvFiles

/-- What the lines of a value behind its first one declare when they stand in a values file. -/
def carried (value : Text) : Table Text Text := (readValues (behindFirstLine value)).values

/-- The other names of a values file, before and after one name was given a value: names that the
value does not carry keep what they had, and names that it carries have what it says or keep what
they had. -/
structure Carries (name value : Text) (before after : Table Text Text) : Prop where
  kept : ∀ other, other ≠ name → (carried value).has other = false →
    after.get? other = before.get? other
  carried : ∀ other, other ≠ name → (carried value).has other = true →
    after.has other = true ∧
      (after.get? other = (carried value).get? other ∨ after.get? other = before.get? other)

/-- What stays as it is carries nothing, if the value is one line. -/
theorem Carries.refl {value : Text} (h : Text.isOneLine value = true) (name : Text)
    (values : Table Text Text) : Carries name value values values := by
  have hnone (other : Text) : (EnvFiles.carried value).has other = false := by
    rw [EnvFiles.carried, (firstLine_of_isOneLine h).2]
    rfl
  refine ⟨fun _ _ _ => rfl, fun other _ hhas => ?_⟩
  rw [hnone other] at hhas
  exact absurd hhas (by decide)

section Content

/-- The last of some declarations of a name, taken piece by piece from the end. -/
theorem get?_reverse_flatMap (pieces : List Text) (found : Text → Table Text Text) (name : Text) :
    Table.get? (pieces.flatMap found).reverse name =
      pieces.reverse.findSome? fun piece => Table.get? (found piece).reverse name := by
  induction pieces with
  | nil => rfl
  | cons piece rest ih =>
    rw [List.flatMap_cons, List.reverse_append, Table.get?_append, ih, List.reverse_cons,
      List.findSome?_append]
    simp

/-- A search in which some failures become one success. -/
theorem findSome?_of_replaced {α β : Type} {before after : α → Option β} {brought : Option β}
    {items : List α}
    (h : ∀ item ∈ items, after item = before item ∨ before item = none ∧ after item = brought) :
    items.findSome? after = items.findSome? before ∨
      items.findSome? after = brought ∧ brought.isSome = true := by
  induction items with
  | nil => exact Or.inl rfl
  | cons item rest ih =>
    have hrest := ih fun other hother => h other (List.mem_cons_of_mem _ hother)
    rw [List.findSome?_cons, List.findSome?_cons]
    rcases h item (List.mem_cons_self ..) with hitem | ⟨hbefore, hafter⟩
    · rw [hitem]
      cases before item with
      | none => exact hrest
      | some found => exact Or.inl rfl
    · rw [hbefore, hafter]
      cases brought with
      | none => exact hrest
      | some found => exact Or.inr ⟨rfl, rfl⟩

variable {text name value other : Text} {schema : List Definition}

/-- What a value carries, found from the end. -/
theorem get?_carried (value other : Text) :
    (carried value).get? other =
      Table.get? (declarations (behindFirstLine value)).reverse other := by
  rw [carried, readValues_values_declarations, Table.get?_ofEntries]

/-- Behind its own name a piece with a new value declares what the value carries. -/
theorem get?_reverse_own {entries : Table Text Text} {first : Text} (hother : other ≠ name)
    (hentries : entries = (name, first) :: declarations (behindFirstLine value)) :
    Table.get? entries.reverse other = (carried value).get? other := by
  rw [hentries, List.reverse_cons, Table.get?_append, get?_carried]
  simp [Table.get?, Ne.symm hother]

/-- For other names a rewrite leaves a piece of one line as it is, or puts what the value carries
in the place of an assignment. -/
theorem get?_declarations_rewriteLine {piece : Text} (hpiece : Text.isOneLine piece = true)
    (value : Text) (hother : other ≠ name) :
    let before := Table.get? (declarations piece).reverse other
    let after := Table.get? (declarations (rewriteLine [(name, value)] piece)).reverse other
    isReplaced [(name, value)] piece = false ∧ after = before ∨
      isReplaced [(name, value)] piece = true ∧ before = none ∧
        after = (carried value).get? other := by
  intro before after
  rcases isReplaced_cases [(name, value)] piece with
    ⟨hkept, heq⟩ | ⟨hreplaced, parts, new, rfl, hget, heq⟩
  · exact Or.inl ⟨hkept, congrArg (fun line => Table.get? (declarations line).reverse other) heq⟩
  · obtain ⟨rfl, rfl⟩ : name = parts.name ∧ value = new := by
      by_cases hname : name = parts.name
      · simpa [Table.get?, hname] using hget
      · simp [Table.get?, hname] at hget
    have hvalue : Text.isOneLine parts.value = true :=
      Text.isOneLine_of_subset (fun c hc => by simp [AssignmentLine.text, hc]) hpiece
    have hnothing : carried parts.value = [] := by
      rw [carried, (firstLine_of_isOneLine hvalue).2]
      rfl
    have hbefore : before = (carried parts.value).get? other :=
      get?_reverse_own hother parts.declarations_text
    rw [hnothing] at hbefore
    exact Or.inr ⟨hreplaced, hbefore,
      get?_reverse_own hother (heq ▸ parts.declarations_start_append value)⟩

/-- A rewrite of one name, with whatever value, sets other names to what the value carries or
leaves them as they are. -/
theorem carries_rewriteValues (hends : Text.hasPlainEnds text = true) (hname : isName name = true)
    (hschema : PlainDescriptions schema) (value : Text) :
    Carries name value (readValues text).values
      (readValues (rewriteValues (readValues text) [(name, value)] schema)).values := by
  -- What is read for another name, before and afterwards.
  have hbefore (other : Text) : (readValues text).values.get? other =
      (rewriteLines text).reverse.findSome? fun piece =>
        Table.get? (declarations piece).reverse other := by
    rw [readValues_values_declarations, Table.get?_ofEntries, declarations_eq_flatMap,
      get?_reverse_flatMap]
  have hafter (other : Text) (hother : other ≠ name) :
      (readValues (rewriteValues (readValues text) [(name, value)] schema)).values.get? other =
        (if name ∈ assignedNames text then none else (carried value).get? other).or
        ((rewriteLines text).reverse.findSome? fun piece =>
          Table.get? (declarations (rewriteLine [(name, value)] piece)).reverse other) := by
    rw [readValues_values_declarations, Table.get?_ofEntries, declarations_rewriteValues_eq,
      List.reverse_append, Table.get?_append, get?_reverse_flatMap]
    congr 1
    by_cases hassigned : name ∈ assignedNames text
    · simp [addedUpdates, hassigned, Table.get?]
    · have hadded : addedUpdates text [(name, value)] = [(name, value)] := by
        simp [addedUpdates, hassigned]
      have hlines : (addedLines schema (name, value)).flatMap declarations =
          (name, Text.trimEnd (firstLine value)) :: declarations (behindFirstLine value) :=
        flatMap_declarations_addedLines hname (hschema.isOneLine_descriptionOf name)
      rw [hadded, if_neg hassigned, List.flatMap_singleton]
      exact get?_reverse_own hother hlines
  have hpiece (other : Text) (hother : other ≠ name) (piece : Text)
      (hmem : piece ∈ (rewriteLines text).reverse) :=
    get?_declarations_rewriteLine
      (isOneLine_rewriteLines hends piece (List.mem_reverse.mp hmem)) value hother
  have hpieces (other : Text) (hother : other ≠ name) :=
    findSome?_of_replaced fun piece hmem =>
      (hpiece other hother piece hmem).imp And.right And.right
  refine ⟨fun other hother hnone => ?_, fun other hother hhas => ?_⟩
  · rw [Table.has, Option.isSome_eq_false_iff, Option.isNone_iff_eq_none] at hnone
    have hsame := (hpieces other hother).resolve_right fun h => by simp [hnone] at h
    rw [hafter other hother, hbefore, hsame, hnone]
    simp
  · rw [Table.has] at hhas ⊢
    rw [hafter other hother]
    by_cases hassigned : name ∈ assignedNames text
    · rw [if_pos hassigned, Option.none_or, hbefore]
      refine ⟨?_, (hpieces other hother).symm.imp And.left id⟩
      -- The name is assigned somewhere, and there stands what the value carries now.
      obtain ⟨piece, hmem, hpart⟩ := List.mem_filterMap.mp hassigned
      have hreplaced : isReplaced [(name, value)] piece = true := by
        obtain ⟨part, hpart, hpartName⟩ := Option.map_eq_some_iff.mp hpart
        simp [isReplaced, hpart, hpartName, Table.has, Table.get?]
      have hmem := List.mem_reverse.mpr hmem
      refine List.findSome?_isSome_iff.mpr ⟨piece, hmem, ?_⟩
      rcases hpiece other hother piece hmem with ⟨hkept, -⟩ | ⟨-, -, hcarried⟩
      · rw [hreplaced] at hkept
        exact absurd hkept (by decide)
      · rw [hcarried]
        exact hhas
    · rw [if_neg hassigned, Option.or_of_isSome hhas]
      exact ⟨hhas, Or.inl rfl⟩

end Content

/-- What a value carries is the same after the line ends of the file are read back as line
feeds. -/
theorem Carries.of_readsBack {name value text back : Text} {before : Table Text Text}
    (h : Carries name value before (readValues text).values) (hback : ReadsBack text back) :
    Carries name value before (readValues back).values := by
  rcases hback with rfl | rfl
  · exact h
  · rwa [readValues_values_congr (Text.lines_unifyNewlines text)]

section Update

variable {σ : Type} {store : Store σ} {path : Path} {valid : σ → Prop} {content : σ → Content}

/-- A store that gives back at a path what was last written there. Nothing is said of a write that
fails, which may leave anything, nor of other paths. -/
structure Store.GivesBack (store : Store σ) (path : Path) (valid : σ → Prop)
    (content : σ → Content) : Prop where
  answer_read : ∀ state, valid state → (store.read path state).answer = content state
  valid_read : ∀ state, valid state → valid (store.read path state).after
  content_read : ∀ state, valid state → content (store.read path state).after = content state
  content_write : ∀ state text, valid state → (store.write path text state).answer = .ok () →
    ∃ back, content (store.write path text state).after = .ok (some back) ∧ ReadsBack text back

/-- A store with a view gives back what was written at the paths that it covers. -/
theorem StoreView.givesBack (view : StoreView store) (hcovers : view.covers path) :
    store.GivesBack path view.valid fun state => view.files state path where
  answer_read state hvalid := view.answer_read state path hvalid
  valid_read state hvalid := view.valid_read state path hvalid
  content_read state hvalid := congrFun (view.files_read state path hvalid) path
  content_write state text hvalid hanswer := view.files_write state path text path hvalid hcovers
    hcovers hanswer (view.sameFile_equivalence.refl path)

/-- An update of a values file that can be read leaves it as it is, if no value changes. Else it
writes the file, and fails only where that fails. -/
theorem Store.GivesBack.endsIn_applyUpdates (hstore : store.GivesBack path valid content)
    {world : World σ} (hvalid : valid world.store) {before : Option Text}
    (hbefore : content world.store = .ok before) {updates : Table Text Text}
    {schema : List Definition} {done : Table Text Text → World σ → Prop}
    (hsame : changesTo (readValues (before.getD [])).values updates = [] →
      ∀ after, content after.store = .ok before → done [] after)
    (hwritten : let changes := changesTo (readValues (before.getD [])).values updates
      changes ≠ [] → ∀ after back, content after.store = .ok (some back) →
        ReadsBack (rewriteValues (readValues (before.getD [])) changes schema) back →
          done changes after) :
    (applyUpdates store path updates schema).EndsIn world done fun failure _ =>
      ∃ text state, (store.write path text state).answer = .error failure := by
  have hcontent := (hstore.answer_read world.store hvalid).trans hbefore
  refine endsIn_applyUpdates_calls (fun failure _ hanswer _ _ => ?_)
    fun found read hanswer hafter _ => ?_
  · rw [hcontent] at hanswer
    cases hanswer
  · obtain rfl := Except.ok.inj (hcontent.symm.trans hanswer)
    have hread : valid read.store ∧ content read.store = .ok before := by
      rw [hafter]
      exact ⟨hstore.valid_read world.store hvalid,
        (hstore.content_read world.store hvalid).trans hbefore⟩
    refine ⟨fun hchanges => hsame hchanges read hread.2, fun hchanges => ?_⟩
    refine Run.endsIn_call (fun _ after hanswer hafter _ => ?_)
      fun _ _ hanswer _ _ => ⟨_, _, hanswer⟩
    obtain ⟨back, hback, hreads⟩ := hstore.content_write read.store _ hread.1 hanswer
    exact hwritten hchanges after back (hafter ▸ hback) hreads

/-- An update of one variable of a schema, with whatever value, gives other names what the lines of
the value behind its first one declare, and leaves the rest of the file as it reads. It fails only
where the store refuses to write the file; nothing is said of the file then. -/
theorem applyUpdates_carries (hstore : store.GivesBack path valid content) {world : World σ}
    (hvalid : valid world.store) {before : Option Text}
    (hbefore : content world.store = .ok before)
    (hends : Text.hasPlainEnds (before.getD []) = true) {schema : List Definition}
    (hschema : SoundSchema schema) {definition : Definition} (hmem : definition ∈ schema)
    (value : Text) :
    (applyUpdates store path [(definition.name, value)] schema).EndsIn world
      (fun _ after => ∃ written, content after.store = .ok written ∧
        Carries definition.name value (readValues (before.getD [])).values
          (readValues (written.getD [])).values)
      fun failure _ => ∃ text state, (store.write path text state).answer = .error failure := by
  have hname := (hschema.sound_of_mem definition hmem).isName_name
  refine hstore.endsIn_applyUpdates hvalid hbefore (fun hchanges after hafter => ?_) ?_
  · have hheld : (readValues (before.getD [])).values.get? definition.name = some value := by
      simpa [changesTo] using hchanges
    refine ⟨before, hafter, ?_⟩
    exact .refl (value_of_mem_readValues (Table.mem_of_get? hheld)).1 _ _
  · intro changes hchanges after back hafter hback
    have hall : changes = [(definition.name, value)] := by
      simpa [changes, changesTo] using hchanges
    rw [hall] at hback
    exact ⟨some back, hafter, (carries_rewriteValues hends hname hschema.plainDescriptions
      value).of_readsBack hback⟩

end Update

section Key

/-- A schema of one variable. -/
def keySchema : List Definition := [{ name := "KEY" }]

/-- The schema of one variable is sound. -/
theorem soundSchema_keySchema : SoundSchema keySchema where
  nodup_names := by decide
  sound_of_mem definition hmem := by
    obtain rfl := List.mem_singleton.mp hmem
    exact ⟨by decide, by decide, by decide, by decide, by decide⟩

/-- A world in which a values file lacks the variable and holds another. -/
def keyWorld : World (Table Path Text) where
  store := [([".env.local"], "KEY=\nX=1\n")]

/-- A value of several lines, one of which looks like an assignment. -/
theorem applyUpdates_carries_key :
    let value : Text := "-----BEGIN-----\nQUJD=\n-----END-----"
    ∃ changes after written,
      (applyUpdates memoryStore [".env.local"] [("KEY", value)] keySchema).runFrom keyWorld =
        (.ok changes, after) ∧
      memoryView.files after.store [".env.local"] = .ok written ∧
      (readValues (written.getD [])).values.has "QUJD" = true ∧
      (readValues (written.getD [])).values.get? "X" = some ("1" : Text) := by
  intro value
  have hrun : ((applyUpdates memoryStore [".env.local"] [("KEY", value)] keySchema).runFrom
      keyWorld).1 = .ok [("KEY", value)] := by decide +kernel
  have hrun' := Attempt.runFrom_eq_of_fst hrun
  have hcontent : memoryView.files keyWorld.store [".env.local"] =
      .ok (some ("KEY=\nX=1\n" : Text)) := by decide +kernel
  have hends := applyUpdates_carries (memoryView.givesBack trivial) trivial hcontent
    (by decide +kernel) soundSchema_keySchema (List.mem_singleton.mpr rfl) value
  obtain ⟨written, hwritten, hcarries⟩ := hends.of_runFrom_ok hrun'
  refine ⟨_, _, written, hrun', hwritten, ?_, ?_⟩
  · exact (hcarries.carried "QUJD" (by decide) (by decide +kernel)).1
  · exact (hcarries.kept "X" (by decide) (by decide +kernel)).trans (by decide +kernel)

/-- A further line of a value can set another variable of the file, and a new one. -/
theorem applyUpdates_carries_assignment :
    ¬ ∀ (text value : Text) (schema : List Definition) (definition : Definition),
      (∀ c ∈ text, c = '\n' ∨ Text.isLineEnd c = false) → SoundSchema schema →
      definition ∈ schema → (readValues text).values.fills definition.name = false →
      ∀ changes after, (applyUpdates memoryStore [".env.local"] [(definition.name, value)]
          schema).runFrom { store := [([".env.local"], text)] } = (.ok changes, after) →
        ∀ name, name ≠ definition.name →
          (valuesOf (memoryView.files after.store [".env.local"])).get? name =
            (readValues text).values.get? name := by
  intro h
  have hrun : ((applyUpdates memoryStore [".env.local"] [("KEY", "a\nX=2\nZ=3")]
      keySchema).runFrom { store := [([".env.local"], "X=1\n")] }).1 =
        .ok [("KEY", "a\nX=2\nZ=3")] := by decide +kernel
  have hends : (("X=1\n" : Text).all fun c => c == '\n' || !Text.isLineEnd c) = true := by
    decide +kernel
  have hkept := h "X=1\n" "a\nX=2\nZ=3" keySchema { name := "KEY" } (by simpa using hends)
    soundSchema_keySchema (List.mem_singleton.mpr rfl) (by decide +kernel) _ _
    (Attempt.runFrom_eq_of_fst hrun) "X" (by decide)
  exact absurd hkept (by decide +kernel)

end Key

end EnvFiles
