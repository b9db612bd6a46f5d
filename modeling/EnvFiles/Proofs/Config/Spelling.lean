import EnvFiles.Config.Reading
import Mathlib.Data.List.Forall2

/-!
# Spellings of settings

The fields of a section have two spellings each, and which one is used does not matter to a reader:
respelled data are read as the same value, or the same problems are found at the same places. This
holds as long as no section gives a field more than once, because then one spelling would hide the
other.

A `Kind` tells where fields stand in data. It says when data are respelled, when they give each
field once, and which places in the data and in the respelled ones are the same. That a reader does
not tell spellings apart is shown for each way of reading, and so for all readers that are put
together from them.
-/

namespace EnvFiles

/-- The spellings of a field. -/
def spellings (joined : Text) : List Text := [joined, FieldName.underscore joined]

/-- A key gives a field. -/
def Spells (joined : Text) (key : Data) : Prop :=
  ∃ spelling ∈ spellings joined, key = .text spelling

/-- A text gives a field if it is one of its spellings. -/
theorem spells_text_iff {joined key : Text} : Spells joined (.text key) ↔ key ∈ spellings joined :=
  ⟨fun ⟨_, hmem, heq⟩ => Data.text.inj heq ▸ hmem, fun hmem => ⟨key, hmem, rfl⟩⟩

/-- Fields that share no spelling. -/
def Apart (names : List Text) : Prop :=
  names.Pairwise fun first second => ∀ spelling ∈ spellings first, spelling ∉ spellings second

instance (names : List Text) : Decidable (Apart names) :=
  inferInstanceAs (Decidable (names.Pairwise _))

/-- No two entries give a field. A mapping has each key once, so this says that it does not give the
field under both spellings. -/
def GivenOnce (joined : Text) (entries : List (Data × Data)) : Prop :=
  ∀ entry ∈ entries, ∀ other ∈ entries, Spells joined entry.1 → Spells joined other.1 →
    entry = other

/-- Where the fields stand in data: when data are another spelling of the same, when they give each
field once, and which places in two spellings are the same. -/
structure Kind where
  Respelled : Data → Data → Prop
  Once : Data → Prop
  SamePlace : Data → Data → List Text → List Text → Prop
  respelled_refl : ∀ data, Respelled data data
  samePlace_refl : ∀ data place, SamePlace data data place place

namespace Kind

/-- Data without fields have one spelling. -/
def value : Kind where
  Respelled := Eq
  Once _ := True
  SamePlace _ _ := Eq
  respelled_refl _ := rfl
  samePlace_refl _ _ := rfl

/-- An entry is kept, or it gives the same field under any spelling. -/
def EntryRespelled (fields : List (Text × Kind)) (entry entry' : Data × Data) : Prop :=
  entry = entry' ∨ ∃ field ∈ fields, Spells field.1 entry.1 ∧ Spells field.1 entry'.1 ∧
    field.2.Respelled entry.2 entry'.2

/-- The same place in two spellings of a section: below a field as each of them spells it, or that
of a field that neither of them gives. -/
inductive SectionPlace (fields : List (Text × Kind)) : Data → Data → List Text → List Text → Prop
  | same {data : Data} {place : List Text} : SectionPlace fields data data place place
  | missing {data data' : Data} {entries entries' : List (Data × Data)} {field : Text × Kind} :
      data.opened = .mapping entries → data'.opened = .mapping entries' → field ∈ fields →
        (∀ entry ∈ entries, ¬ Spells field.1 entry.1) →
          (∀ entry ∈ entries', ¬ Spells field.1 entry.1) →
            SectionPlace fields data data' [field.1] [field.1]
  | below {data data' given given' : Data} {entries entries' : List (Data × Data)}
      {field : Text × Kind} {spelling spelling' : Text} {place place' : List Text} :
      data.opened = .mapping entries → data'.opened = .mapping entries' → field ∈ fields →
        spelling ∈ spellings field.1 → spelling' ∈ spellings field.1 →
          (.text spelling, given) ∈ entries → (.text spelling', given') ∈ entries' →
            field.2.SamePlace given given' place place' →
              SectionPlace fields data data' (spelling :: place) (spelling' :: place')

/-- A section with some fields. Other entries are kept as they are. -/
def ofSection (fields : List (Text × Kind)) : Kind where
  Respelled data data' := data = data' ∨ ∃ entries entries', data.opened = .mapping entries ∧
    data'.opened = .mapping entries' ∧ List.Forall₂ (EntryRespelled fields) entries entries'
  Once data := ∀ entries, data.opened = .mapping entries → ∀ field ∈ fields,
    GivenOnce field.1 entries ∧ ∀ entry ∈ entries, Spells field.1 entry.1 → field.2.Once entry.2
  SamePlace := SectionPlace fields
  respelled_refl _ := Or.inl rfl
  samePlace_refl _ _ := .same

/-- The same place in two spellings of a list: below a member, or that of the whole. -/
inductive ItemsPlace (member : Kind) : Data → Data → List Text → List Text → Prop
  | same {data : Data} {place : List Text} : ItemsPlace member data data place place
  | below {data data' item item' : Data} {items items' : List Data} {index : Nat}
      {place place' : List Text} :
      data.opened = .list items → data'.opened = .list items' → items[index]? = some item →
        items'[index]? = some item' → member.SamePlace item item' place place' →
          ItemsPlace member data data' (Text.ofNat index :: place) (Text.ofNat index :: place')

/-- A list with members of one kind. -/
def ofItems (member : Kind) : Kind where
  Respelled data data' := data = data' ∨ ∃ items items', data.opened = .list items ∧
    data'.opened = .list items' ∧ List.Forall₂ member.Respelled items items'
  Once data := ∀ items, data.opened = .list items → ∀ item ∈ items, member.Once item
  SamePlace := ItemsPlace member
  respelled_refl _ := Or.inl rfl
  samePlace_refl _ _ := .same

end Kind

/-- Issues of the same problem at the same place. -/
def SameIssue (same : List Text → List Text → Prop) (issue issue' : Issue) : Prop :=
  issue.problem = issue'.problem ∧ same issue.place issue'.place

/-- Two readings come to the same value, with the same issues in order. -/
structure Agree {α : Type} (same : List Text → List Text → Prop) (checked checked' : Checked α) :
    Prop where
  value : checked.1 = checked'.1
  issues : List.Forall₂ (SameIssue same) checked.2 checked'.2

/-- A reader does not tell the spellings of a kind of data apart. -/
def Kind.ReadAlike {α : Type} (kind : Kind) (read : Data → Checked α) : Prop :=
  ∀ data data', kind.Respelled data data' → kind.Once data →
    Agree (kind.SamePlace data data') (read data) (read data')

section Lists

variable {α β : Type} {related : α → β → Prop} {first : List α} {second : List β}

/-- Every item of a list is related to one of the list beside it. -/
theorem exists_mem_of_forall₂ (h : List.Forall₂ related first second) {item : α}
    (hmem : item ∈ first) : ∃ other ∈ second, related item other := by
  induction h with
  | nil => cases hmem
  | cons hhead _ ih =>
    rcases List.mem_cons.mp hmem with rfl | hrest
    · exact ⟨_, .head _, hhead⟩
    · obtain ⟨other, hother, hrelated⟩ := ih hrest
      exact ⟨other, .tail _ hother, hrelated⟩

end Lists

section Agreeing

variable {α β γ : Type} {same : List Text → List Text → Prop}

/-- A reading agrees with itself. -/
theorem Agree.refl (hsame : ∀ place, same place place) (checked : Checked α) :
    Agree same checked checked :=
  ⟨rfl, List.forall₂_same.mpr fun issue _ => ⟨rfl, hsame issue.place⟩⟩

/-- Two readings one after the other. -/
theorem Agree.both {first first' : Checked α} {second second' : Checked β}
    (hfirst : Agree same first first') (hsecond : Agree same second second') (put : α → β → γ) :
    Agree same (put first.1 second.1, first.2 ++ second.2)
      (put first'.1 second'.1, first'.2 ++ second'.2) :=
  ⟨by rw [hfirst.value, hsecond.value], List.rel_append hfirst.issues hsecond.issues⟩

/-- A function of a value that is read. -/
theorem Agree.map {checked checked' : Checked α} (h : Agree same checked checked') (put : α → β) :
    Agree same (put checked.1, checked.2) (put checked'.1, checked'.2) :=
  ⟨by rw [h.value], h.issues⟩

/-- Readings below keys agree when places below the keys are the same. -/
theorem Agree.under {inner : List Text → List Text → Prop} {checked checked' : Checked α}
    (h : Agree inner checked checked') {key key' : Text}
    (hplace : ∀ place place', inner place place' → same (key :: place) (key' :: place')) :
    Agree same (checked.1, checked.2.map (Issue.under key))
      (checked'.1, checked'.2.map (Issue.under key')) := by
  refine ⟨h.value, ?_⟩
  rw [List.forall₂_map_left_iff, List.forall₂_map_right_iff]
  exact h.issues.imp fun issue issue' hissue => ⟨hissue.1, hplace _ _ hissue.2⟩

end Agreeing

section Fields

variable {entries : List (Data × Data)} {joined key : Text} {given : Data}

/-- What is found under a key stands there. -/
theorem mem_of_lookup? (h : Data.lookup? key entries = some given) :
    (.text key, given) ∈ entries := by
  induction entries using Data.lookup?.induct key with
  | case1 => cases h
  | case2 value rest =>
    rw [Data.lookup?, if_pos rfl] at h
    cases h
    exact .head _
  | case3 other value rest hother ih =>
    rw [Data.lookup?, if_neg hother] at h
    exact .tail _ (ih h)
  | case4 entry rest hentry ih =>
    rw [Data.lookup?] at h
    · exact .tail _ (ih h)
    · exact hentry

/-- What stands under a key is found, or what stands under it before. -/
theorem lookup?_ne_none (h : (.text key, given) ∈ entries) : Data.lookup? key entries ≠ none := by
  induction entries using Data.lookup?.induct key with
  | case1 => cases h
  | case2 value rest =>
    rw [Data.lookup?, if_pos rfl]
    exact Option.some_ne_none _
  | case3 other value rest hother ih =>
    rw [Data.lookup?, if_neg hother]
    rcases List.mem_cons.mp h with heq | hrest
    · cases heq
      exact absurd rfl hother
    · exact ih hrest
  | case4 entry rest hentry ih =>
    rw [Data.lookup?]
    · rcases List.mem_cons.mp h with heq | hrest
      · exact absurd heq.symm (fun heq => hentry _ _ heq)
      · exact ih hrest
    · exact hentry

/-- A field that is found stands there under one of its spellings. -/
theorem mem_of_field? {spelling : Text} (h : field? (.of joined) entries = some (spelling, given)) :
    spelling ∈ spellings joined ∧ (.text spelling, given) ∈ entries := by
  rw [field?] at h
  split at h
  · rename_i value hvalue
    cases h
    exact ⟨.head _, mem_of_lookup? hvalue⟩
  · obtain ⟨value, hvalue, heq⟩ := Option.map_eq_some_iff.mp h
    cases heq
    exact ⟨.tail _ (.head _), mem_of_lookup? hvalue⟩

/-- A field that is not found stands there under none of its spellings. -/
theorem not_spells_of_field? (h : field? (.of joined) entries = none) :
    ∀ entry ∈ entries, ¬ Spells joined entry.1 := by
  rintro ⟨key, given⟩ hentry ⟨spelling, hspelling, rfl⟩
  rw [field?] at h
  split at h
  · cases h
  · rename_i hjoined
    rw [Option.map_eq_none_iff] at h
    simp only [spellings, List.mem_cons, List.not_mem_nil, or_false] at hspelling
    rcases hspelling with rfl | rfl
    · exact lookup?_ne_none hentry hjoined
    · exact lookup?_ne_none hentry h

/-- A key gives one of the fields that share no spelling. -/
theorem eq_of_spells {fields : List (Text × Kind)} (hapart : Apart (fields.map Prod.fst))
    {field other : Text × Kind} (hfield : field ∈ fields) (hother : other ∈ fields) {key : Data}
    (hspells : Spells field.1 key) (hspells' : Spells other.1 key) : field = other := by
  obtain ⟨spelling, hspelling, rfl⟩ := hspells
  obtain ⟨spelling', hspelling', heq⟩ := hspells'
  cases heq
  induction fields with
  | nil => cases hfield
  | cons first rest ih =>
    obtain ⟨hfirst, hrest⟩ := List.pairwise_cons.mp hapart
    rcases List.mem_cons.mp hfield with rfl | hlater <;>
      rcases List.mem_cons.mp hother with rfl | hlater'
    · rfl
    · exact absurd hspelling' (hfirst _ (List.mem_map_of_mem hlater') _ hspelling)
    · exact absurd hspelling (hfirst _ (List.mem_map_of_mem hlater) _ hspelling')
    · exact ih hrest hlater hlater'

end Fields

section Sections

variable {α : Type} {fields : List (Text × Kind)} {data data' : Data}
  {entries entries' : List (Data × Data)} {joined : Text} {kind : Kind} {read : Data → Checked α}

/-- Two spellings of a section that gives each of its fields once. -/
structure SameSection (fields : List (Text × Kind)) (data data' : Data)
    (entries entries' : List (Data × Data)) : Prop where
  apart : Apart (fields.map Prod.fst)
  opened : data.opened = .mapping entries
  opened' : data'.opened = .mapping entries'
  respelled : List.Forall₂ (Kind.EntryRespelled fields) entries entries'
  once : ∀ field ∈ fields, GivenOnce field.1 entries ∧
    ∀ entry ∈ entries, Spells field.1 entry.1 → field.2.Once entry.2

/-- An entry that is another spelling of one that gives a field gives it as well. -/
theorem spells_iff_of_entryRespelled (hapart : Apart (fields.map Prod.fst))
    (hfield : (joined, kind) ∈ fields) {entry entry' : Data × Data}
    (h : Kind.EntryRespelled fields entry entry') :
    Spells joined entry.1 ↔ Spells joined entry'.1 := by
  rcases h with rfl | ⟨other, hother, hspells, hspells', -⟩
  · rfl
  · constructor
    · intro hgives
      cases eq_of_spells hapart hfield hother hgives hspells
      exact hspells'
    · intro hgives
      cases eq_of_spells hapart hfield hother hgives hspells'
      exact hspells

/-- What a field is given as in two spellings of a section is respelled itself. -/
theorem respelled_of_entryRespelled (hapart : Apart (fields.map Prod.fst))
    (hfield : (joined, kind) ∈ fields) {entry entry' : Data × Data}
    (h : Kind.EntryRespelled fields entry entry') (hspells : Spells joined entry.1) :
    kind.Respelled entry.2 entry'.2 := by
  rcases h with rfl | ⟨other, hother, hspells', -, hrespelled⟩
  · exact kind.respelled_refl _
  · cases eq_of_spells hapart hfield hother hspells hspells'
    exact hrespelled

namespace SameSection

/-- A field is found in both spellings of a section or in neither. -/
theorem field? (h : SameSection fields data data' entries entries')
    (hfield : (joined, kind) ∈ fields) :
    (EnvFiles.field? (.of joined) entries = none ∧ EnvFiles.field? (.of joined) entries' = none) ∨
    ∃ spelling spelling' given given',
      EnvFiles.field? (.of joined) entries = some (spelling, given) ∧
      EnvFiles.field? (.of joined) entries' = some (spelling', given') ∧
      kind.Respelled given given' ∧ kind.Once given := by
  obtain ⟨honly, honce⟩ := h.once _ hfield
  cases hfound : EnvFiles.field? (.of joined) entries with
  | none =>
    refine Or.inl ⟨rfl, ?_⟩
    cases hfound' : EnvFiles.field? (.of joined) entries' with
    | none => rfl
    | some found' =>
      obtain ⟨hspelling', hmem'⟩ := mem_of_field? hfound'
      obtain ⟨entry, hentry, hrespelled⟩ := exists_mem_of_forall₂ h.respelled.flip hmem'
      have hspells := (spells_iff_of_entryRespelled h.apart hfield hrespelled).mpr
        ⟨_, hspelling', rfl⟩
      exact absurd hspells (not_spells_of_field? hfound entry hentry)
  | some found =>
    obtain ⟨spelling, given⟩ := found
    obtain ⟨hspelling, hmem⟩ := mem_of_field? hfound
    have hspells : Spells joined (.text spelling) := ⟨_, hspelling, rfl⟩
    refine Or.inr ?_
    cases hfound' : EnvFiles.field? (.of joined) entries' with
    | none =>
      obtain ⟨entry', hentry', hrespelled⟩ := exists_mem_of_forall₂ h.respelled hmem
      have hspells' := (spells_iff_of_entryRespelled h.apart hfield hrespelled).mp hspells
      exact absurd hspells' (not_spells_of_field? hfound' entry' hentry')
    | some found' =>
      -- Only one entry gives the field, so it is the one beside the entry that is found.
      obtain ⟨spelling', given'⟩ := found'
      obtain ⟨hspelling', hmem'⟩ := mem_of_field? hfound'
      obtain ⟨entry, hentry, hrespelled⟩ := exists_mem_of_forall₂ h.respelled.flip hmem'
      have hgives := (spells_iff_of_entryRespelled h.apart hfield hrespelled).mpr
        ⟨_, hspelling', rfl⟩
      cases honly _ hentry _ hmem hgives hspells
      exact ⟨spelling, spelling', given, given', rfl, rfl,
        respelled_of_entryRespelled h.apart hfield hrespelled hspells, honce _ hmem hspells⟩

/-- A field that may be left out is read alike. -/
theorem readField (joined : Text) (h : SameSection fields data data' entries entries')
    (hfield : (joined, kind) ∈ fields) (hread : kind.ReadAlike read) (fallback : α) :
    Agree (Kind.SectionPlace fields data data') (readField joined fallback read entries)
      (EnvFiles.readField joined fallback read entries') := by
  rw [EnvFiles.readField, EnvFiles.readField]
  rcases h.field? hfield with ⟨hnone, hnone'⟩ |
    ⟨spelling, spelling', given, given', hfound, hfound', hrespelled, honce⟩
  · rw [hnone, hnone']
    exact ⟨rfl, .nil⟩
  · obtain ⟨hspelling, hmem⟩ := mem_of_field? hfound
    obtain ⟨hspelling', hmem'⟩ := mem_of_field? hfound'
    rw [hfound, hfound']
    exact (hread _ _ hrespelled honce).under fun place place' hplace =>
      .below h.opened h.opened' hfield hspelling hspelling' hmem hmem' hplace

/-- A field that must be given is read alike. -/
theorem readRequired (joined : Text) (h : SameSection fields data data' entries entries')
    (hfield : (joined, kind) ∈ fields) (hread : kind.ReadAlike read) (fallback : α) :
    Agree (Kind.SectionPlace fields data data') (readRequired joined fallback read entries)
      (EnvFiles.readRequired joined fallback read entries') := by
  have hgiven := h.readField joined hfield hread fallback
  rw [EnvFiles.readRequired, EnvFiles.readRequired]
  rcases h.field? hfield with ⟨hnone, hnone'⟩ | ⟨_, _, _, _, hfound, hfound', -, -⟩
  · rw [hnone, hnone']
    exact ⟨rfl, .cons ⟨rfl, .missing h.opened h.opened' hfield (not_spells_of_field? hnone)
      (not_spells_of_field? hnone')⟩ .nil⟩
  · rw [hfound, hfound']
    exact hgiven

end SameSection

namespace Kind

/-- Data without fields are read alike. -/
theorem readAlike_value (read : Data → Checked α) : value.ReadAlike read := by
  rintro data data' rfl -
  exact .refl (fun _ => rfl) _

/-- A section is read alike if its entries are. -/
theorem readAlike_readSection (hapart : Apart (fields.map Prod.fst)) {fallback : α}
    {read : List (Data × Data) → Checked α}
    (hread : ∀ data data' entries entries', SameSection fields data data' entries entries' →
      Agree (SectionPlace fields data data') (read entries) (read entries')) :
    (ofSection fields).ReadAlike (readSection fallback read) := by
  rintro data data' (rfl | ⟨entries, entries', hopened, hopened', hrespelled⟩) honce
  · exact .refl (fun _ => .same) _
  · rw [readSection, readSection, hopened, hopened']
    exact hread data data' entries entries'
      ⟨hapart, hopened, hopened', hrespelled, honce entries hopened⟩

/-- Members of a list are read alike from the given index on. -/
theorem agree_readItems (hread : kind.ReadAlike read) {items items' whole whole' : List Data}
    {start : Nat} (hwhole : whole.drop start = items) (hwhole' : whole'.drop start = items')
    (hrespelled : List.Forall₂ kind.Respelled items items') (honce : ∀ item ∈ items, kind.Once item)
    (hopened : data.opened = .list whole) (hopened' : data'.opened = .list whole') :
    Agree (ItemsPlace kind data data') (readItems read start items)
      (readItems read start items') := by
  induction hrespelled generalizing start with
  | nil => exact ⟨rfl, .nil⟩
  | @cons item item' rest rest' hitem _ ih =>
    obtain ⟨honceItem, honceRest⟩ := List.forall_mem_cons.mp honce
    have hat : whole[start]? = some item := by
      rw [← List.head?_drop, hwhole]
      rfl
    have hat' : whole'[start]? = some item' := by
      rw [← List.head?_drop, hwhole']
      rfl
    have hfirst := (hread item item' hitem honceItem).under fun place place' hplace =>
      ItemsPlace.below hopened hopened' hat hat' hplace
    have hothers := @ih (start + 1) (by rw [← List.tail_drop, hwhole]; rfl)
      (by rw [← List.tail_drop, hwhole']; rfl) honceRest
    exact hfirst.both hothers List.cons

/-- A list is read alike if its members are. -/
theorem readAlike_readList (hread : kind.ReadAlike read) :
    (ofItems kind).ReadAlike (readList read) := by
  rintro data data' (rfl | ⟨items, items', hopened, hopened', hrespelled⟩) honce
  · exact .refl (fun _ => .same) _
  · rw [readList, readList, hopened, hopened']
    exact agree_readItems hread rfl rfl hrespelled (honce items hopened) hopened hopened'

end Kind
end Sections
end EnvFiles
