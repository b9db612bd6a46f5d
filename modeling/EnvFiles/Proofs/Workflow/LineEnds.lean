import EnvFiles.Proofs.Store.OnTree
import EnvFiles.Proofs.Values.LineEnds
import EnvFiles.Workflow.Files

/-!
# What becomes of line ends on a file tree

The store on a file tree gives a values file with line feeds for all its line ends, so an update
never sees carriage returns and writes line feeds. An update of a file whose lines end in carriage
returns with line feeds therefore leaves line feeds alone, unless the names, values or
descriptions that are handed in bring carriage returns along. Given the text as it stands in the
file, the rewrite would have kept its line ends.
-/

namespace EnvFiles

section Overwriting

variable {root : Node} {path : Path} {content : ByteArray}

/-- A file that a path leads to stands at the place of its walk. -/
theorem exists_walk_of_lookup? (h : root.lookup? path = some (.file content)) :
    ∃ place, root.walk path = .ok (.taken place (.file content)) := by
  rw [Node.lookup?] at h
  split at h
  · rename_i place node hwalk
    obtain rfl := Option.some.inj h
    exact ⟨place, hwalk⟩
  · cases h

/-- A path that leads to a file leads to the new file after a write. -/
theorem exists_write_of_lookup? (hnull : path.hasNull = false)
    (h : root.lookup? path = some (.file content)) (text : Text) :
    ∃ after, root.write path text = (.ok (), after) ∧
      after.lookup? path = some (.file (Node.encode text)) := by
  obtain ⟨place, hwalk⟩ := exists_walk_of_lookup? h
  obtain ⟨after, hwrite, hholds⟩ := Node.write_of_walk_file hnull hwalk text
  have htakes : root.Takes place := fun shape hshape => by
    rw [Node.shapeAt, Node.at?_of_walkWithin hwalk] at hshape
    exact ⟨content, (Option.some.inj hshape).symm⟩
  have hfound : root.walk path ≠ .error .fileMissing := by rw [hwalk]; simp
  have hsame := hholds.walk_eq htakes hfound
  refine ⟨after, hwrite, ?_⟩
  rw [hwalk] at hsame
  cases hafter : after.walk path with
  | error failure =>
    rw [hafter] at hsame
    cases hsame
  | ok landing =>
    rw [hafter] at hsame
    have hplace : landing.path = place := Except.ok.inj hsame
    obtain ⟨node, hnode, hshape⟩ := Option.map_eq_some_iff.mp hholds.here
    rw [Node.lookup?_of_walk hafter, hplace, hnode]
    cases node with
    | file other =>
      obtain rfl := Node.Shape.file.inj hshape
      rfl
    | folder entries => cases hshape
    | link target => cases hshape

/-- A file reads with line feeds for all its line ends. -/
theorem readFile_of_lookup?_file {text : Text} (hnull : path.hasNull = false)
    (h : root.lookup? path = some (.file (Node.encode text))) :
    readFile root path = .ok (some (Text.unifyNewlines text)) := by
  obtain ⟨place, hwalk⟩ := exists_walk_of_lookup? h
  rw [readFile, Node.hasFile, h]
  change (root.readText path).map some = _
  rw [readText_of_walk hnull hwalk, Node.decode_encode]
  rfl

end Overwriting

/-- An update of a file that changes a value rewrites the text with line feeds for its line ends. -/
theorem runFrom_applyUpdates_treeStore {root : Node} {path : Path} {text : Text}
    (hnull : path.hasNull = false) (hfile : root.lookup? path = some (.file (Node.encode text)))
    {updates : Table Text Text} (schema : List Definition)
    (hchanges : changesTo (readValues text).values updates ≠ []) (desk : Desk) :
    ∃ after, (applyUpdates treeStore path updates schema).runFrom ⟨root, desk⟩ =
        (.ok (changesTo (readValues text).values updates), ⟨after, desk⟩) ∧
      after.lookup? path = some (.file (Node.encode (rewriteValues
        (readValues (Text.unifyNewlines text)) (changesTo (readValues text).values updates)
        schema))) := by
  have hvalues : (readValues (Text.unifyNewlines text)).values = (readValues text).values :=
    readValues_values_congr (Text.lines_unifyNewlines text)
  obtain ⟨after, hwrite, hafter⟩ := exists_write_of_lookup? hnull hfile (rewriteValues
    (readValues (Text.unifyNewlines text)) (changesTo (readValues text).values updates) schema)
  refine ⟨after, ?_, hafter⟩
  -- Neither reading nor writing leaves a notice, so the desk stays as it is.
  have hread : (Run.read treeStore path).runFrom ⟨root, desk⟩ =
      (.ok (some (Text.unifyNewlines text)), ⟨root, desk⟩) := by
    change (readFile root path, World.mk root { desk with log := desk.log ++ [] }) = _
    rw [readFile_of_lookup?_file hnull hfile, List.append_nil]
  have hwritten : (Run.write treeStore path (rewriteValues (readValues (Text.unifyNewlines text))
      (changesTo (readValues text).values updates) schema)).runFrom ⟨root, desk⟩ =
        (.ok (), ⟨after, desk⟩) := by
    change ((root.write path _).1,
      World.mk (root.write path _).2 { desk with log := desk.log ++ [] }) = _
    rw [hwrite, List.append_nil]
  have hfileRead : (readValuesFile treeStore path).runFrom ⟨root, desk⟩ =
      (.ok (readValues (Text.unifyNewlines text)), ⟨root, desk⟩) := by
    rw [readValuesFile, Attempt.runFrom_bind, hread]
    rfl
  rw [applyUpdates, Attempt.runFrom_bind, hfileRead]
  simp only [hvalues]
  rw [if_neg (by simpa using hchanges), Attempt.runFrom_bind, hwritten]
  rfl

/-- The texts handed in with some of the updates are handed in with all of them. -/
theorem handedIn_changesTo_subset (values updates : Table Text Text) (schema : List Definition) :
    handedIn (changesTo values updates) schema ⊆ handedIn updates schema := by
  have hchanges : changesTo values updates ⊆ updates := List.filter_subset_self _
  intro part hpart
  rcases List.mem_append.mp hpart with hpart | hpart
  · refine List.mem_append_left _ ?_
    rcases List.mem_append.mp hpart with hpart | hpart
    · exact List.mem_append_left _ (List.map_subset _ hchanges hpart)
    · exact List.mem_append_right _ (List.map_subset _ hchanges hpart)
  · exact List.mem_append_right _ hpart

/-- A file whose lines end in carriage returns with line feeds, and which holds no other carriage
return, is written by an update that changes a value, and what is written holds a carriage return
only if a name, a value or a description that is handed in does. If none does, all lines end in
line feeds alone, and the file no longer ends its lines as it did. The text is then that of a
rewrite with the line ends of the file, with line feeds in their place. -/
theorem applyUpdates_lineFeeds {root : Node} {path : Path} {text : Text}
    (hnull : path.hasNull = false) (hfile : root.lookup? path = some (.file (Node.encode text)))
    (hends : EndsLines ['\r', '\n'] text) {updates : Table Text Text} (schema : List Definition)
    (hchanges : changesTo (readValues text).values updates ≠ []) (desk : Desk) :
    ∃ after written, (applyUpdates treeStore path updates schema).runFrom ⟨root, desk⟩ =
        (.ok (changesTo (readValues text).values updates), ⟨after, desk⟩) ∧
      after.lookup? path = some (.file (Node.encode written)) ∧
      ('\r' ∈ written → ∃ part ∈ handedIn updates schema, '\r' ∈ part) ∧
      ((∀ part ∈ handedIn updates schema, '\r' ∉ part) →
        EndsLines ['\n'] written ∧ ¬ EndsLines ['\r', '\n'] written ∧
          (text ≠ [] → ∃ kept, kept = rewriteValues (readValues text)
              (changesTo (readValues text).values updates) schema ∧
            EndsLines ['\r', '\n'] kept ∧ written = Text.unifyNewlines kept)) := by
  obtain ⟨after, hrun, hafter⟩ :=
    runFrom_applyUpdates_treeStore hnull hfile schema hchanges desk
  have hclean (hhanded : ∀ part ∈ handedIn updates schema, '\r' ∉ part) :
      ∀ part ∈ handedIn (changesTo (readValues text).values updates) schema, '\r' ∉ part :=
    fun part hpart => hhanded part (handedIn_changesTo_subset _ updates schema hpart)
  have hfeeds (hhanded : ∀ part ∈ handedIn updates schema, '\r' ∉ part) :=
    endsLines_rewriteValues (Or.inl rfl) hends.unifyNewlines (Or.inl rfl) (hclean hhanded)
  refine ⟨after, _, hrun, hafter, fun hreturn => ?_, fun hhanded => ⟨hfeeds hhanded,
    fun hkept => ?_, fun hne => ⟨_, rfl, endsLines_rewriteValues (Or.inr rfl) hends (Or.inr hne)
      (hclean hhanded), rewriteValues_unifyNewlines hends (hclean hhanded)⟩⟩⟩
  · by_contra hnone
    refine (hfeeds fun part hpart hmem => ?_).notMem hreturn
    exact hnone ⟨part, hpart, hmem⟩
  · exact rewriteValues_ne_nil _ _ _ (hkept.eq_nil_of_notMem (hfeeds hhanded).notMem)

section Returning

/-- A values file of three lines that end in carriage returns with line feeds. -/
def returningText : Text := "A=1\r\n# kept\r\nB=2\r\n"

/-- A tree with the file in a folder. -/
def returningTree : Node :=
  .folder [("web", .folder [(".env.local", .file (Node.encode returningText))])]

/-- The updates of one variable of the file and of another one that is not there. -/
def returningUpdates : Table Text Text := [("A", "9"), ("C", "3")]

/-- Changing one variable and adding another leaves no carriage return in the file. -/
theorem applyUpdates_lineFeeds_adding :
    (returningTree.lookup? ["web", ".env.local"] = some (.file (Node.encode returningText)) ∧
      EndsLines ['\r', '\n'] returningText ∧
        ∀ part ∈ handedIn returningUpdates [], '\r' ∉ part) ∧
    ∃ after written, (applyUpdates treeStore ["web", ".env.local"] returningUpdates []).runFrom
        ⟨returningTree, {}⟩ = (.ok returningUpdates, ⟨after, {}⟩) ∧
      after.lookup? ["web", ".env.local"] = some (.file (Node.encode written)) ∧
      EndsLines ['\n'] written ∧ ¬ EndsLines ['\r', '\n'] written ∧
        ∃ kept, EndsLines ['\r', '\n'] kept ∧ written = Text.unifyNewlines kept := by
  have hfile : returningTree.lookup? ["web", ".env.local"] =
      some (.file (Node.encode returningText)) := rfl
  have hends : EndsLines ['\r', '\n'] returningText :=
    ⟨["A=1", "# kept", "B=2"], by decide, rfl⟩
  have hhanded : ∀ part ∈ handedIn returningUpdates [], '\r' ∉ part := by decide
  have hchanges : changesTo (readValues returningText).values returningUpdates =
      returningUpdates := by decide +kernel
  obtain ⟨after, written, hrun, hafter, -, hfeeds⟩ := applyUpdates_lineFeeds
    (by decide) hfile hends [] (by rw [hchanges]; decide) {}
  obtain ⟨hwritten, hlost, hkept⟩ := hfeeds hhanded
  obtain ⟨kept, -, hreturns, heq⟩ := hkept (by decide)
  rw [hchanges] at hrun
  exact ⟨⟨hfile, hends, hhanded⟩, after, written, hrun, hafter, hwritten, hlost, kept, hreturns,
    heq⟩

/-- An update that changes a value in a file whose only line ends in a carriage return with a line
feed leaves a line feed there. -/
theorem applyUpdates_loses_returns :
    EndsLines ['\r', '\n'] "A=1\r\n" ∧
    ∃ after, (applyUpdates treeStore ["web", ".env.local"] [("A", "2")] []).runFrom
        ⟨.folder [("web", .folder [(".env.local", .file (Node.encode "A=1\r\n"))])], {}⟩ =
          (.ok [("A", "2")], ⟨after, {}⟩) ∧
      after.lookup? ["web", ".env.local"] = some (.file (Node.encode "A=2\n")) ∧
        ¬ EndsLines ['\r', '\n'] "A=2\n" := by
  have hchanges : changesTo (readValues "A=1\r\n").values [("A", "2")] =
      ([("A", "2")] : Table Text Text) := by decide +kernel
  have hwritten : rewriteValues (readValues (Text.unifyNewlines "A=1\r\n")) [("A", "2")] [] =
      "A=2\n" := by decide +kernel
  have hfile : Node.lookup? (.folder [("web", .folder [(".env.local",
      .file (Node.encode "A=1\r\n"))])]) ["web", ".env.local"] =
        some (.file (Node.encode "A=1\r\n")) := rfl
  obtain ⟨after, hrun, hafter⟩ := runFrom_applyUpdates_treeStore (by decide) hfile []
    (by rw [hchanges]; decide) {}
  rw [hchanges] at hrun hafter
  rw [hwritten] at hafter
  exact ⟨⟨["A=1"], by decide, rfl⟩, after, hrun, hafter, fun hends =>
    absurd (hends.eq_nil_of_notMem (by decide)) (by decide)⟩

end Returning
end EnvFiles
