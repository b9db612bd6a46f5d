import EnvFiles.Proofs.Assignment
import EnvFiles.Comment.Tag

/-!
# Letter case among the ASCII characters

On ASCII characters the comparison that ignores case compares small letters, because the variants
of ASCII letters lie beyond ASCII. Only a letter can be met by a character beyond ASCII, so an
opening bracket is met by itself alone.
-/

namespace EnvFiles

namespace Text

/-- The small letter of an ASCII character. -/
theorem lowerChar_of_ascii {c : Char} (h : c.toNat < 128) : lowerChar c = c.toLower := if_pos h

/-- What holds of all ASCII characters is checked one by one. -/
theorem forall_ascii {p : Char → Prop} (h : ∀ n < 128, p (Char.ofNat n)) {c : Char}
    (hc : c.toNat < 128) : p c := by
  rw [← Char.ofNat_toNat c]
  exact h c.toNat hc

/-- The small letter of an ASCII character is one. -/
theorem toLower_lt {c : Char} (h : c.toNat < 128) : c.toLower.toNat < 128 :=
  forall_ascii (p := fun c => c.toLower.toNat < 128) (by decide) h

/-- A character beyond ASCII is no capital. -/
theorem ascii_of_toLower {c : Char} (h : c.toLower.toNat < 128) : c.toNat < 128 := by
  by_cases hc : c.val ≥ 'A'.val ∧ c.val ≤ 'Z'.val
  · have hle : c.toNat ≤ 90 := UInt32.le_iff_toNat_le.mp hc.2
    omega
  · have hsame : c.toLower = c := dif_neg hc
    rwa [hsame] at h

/-- Of the ASCII letters i and s alone have variants, and these lie beyond ASCII. -/
theorem ascii_of_mem_caseVariants : ∀ entry ∈ caseVariants, entry.1 < 128 →
    (entry.1 = 0x69 ∨ entry.1 = 0x73) ∧ ∀ m ∈ entry.2, 128 ≤ m := by
  decide

/-- The variants of a letter stand in its entry. -/
theorem exists_of_mem_lookup {n m : Nat} (h : m ∈ (caseVariants.lookup n).getD []) :
    ∃ variants, (n, variants) ∈ caseVariants ∧ m ∈ variants := by
  cases hfound : caseVariants.lookup n with
  | none =>
    rw [hfound] at h
    exact absurd h List.not_mem_nil
  | some variants =>
    rw [hfound] at h
    obtain ⟨before, after, heq, -⟩ := List.lookup_eq_some_iff.mp hfound
    exact ⟨variants, heq ▸ List.mem_append_right _ (List.mem_cons_self ..), h⟩

/-- The variants of ASCII letters lie beyond ASCII. -/
theorem le_of_mem_caseVariants {n m : Nat} (hn : n < 128)
    (h : m ∈ (caseVariants.lookup n).getD []) : 128 ≤ m := by
  obtain ⟨variants, hentry, hmem⟩ := exists_of_mem_lookup h
  exact (ascii_of_mem_caseVariants _ hentry hn).2 m hmem

/-- Other ASCII letters than i and s have no variants. -/
theorem caseVariants_of_ascii {n : Nat} (hn : n < 128) (hi : n ≠ 0x69) (hs : n ≠ 0x73) :
    (caseVariants.lookup n).getD [] = [] := by
  refine List.eq_nil_iff_forall_not_mem.mpr fun m hm => ?_
  obtain ⟨variants, hentry, -⟩ := exists_of_mem_lookup hm
  exact ((ascii_of_mem_caseVariants _ hentry hn).1).elim hi hs

/-- ASCII characters agree when their small letters are equal. -/
theorem sameLetter_ascii {p c : Char} (hp : p.toNat < 128) (hc : c.toNat < 128) :
    sameLetter p c = (c.toLower == p.toLower) := by
  have hvariant : ((caseVariants.lookup p.toLower.toNat).getD []).contains c.toLower.toNat =
      false := by
    rw [← Bool.not_eq_true, List.contains_iff_mem]
    intro hmem
    have hle := le_of_mem_caseVariants (toLower_lt hp) hmem
    have hlt := toLower_lt hc
    omega
  rw [sameLetter, lowerChar_of_ascii hp, lowerChar_of_ascii hc, hvariant, Bool.or_false]

/-- The code of a character that is given by its code; other numbers stand for the null
character. -/
theorem toNat_ofNat (n : Nat) : (Char.ofNat n).toNat = if n.isValidChar then n else 0 := by
  by_cases h : n.isValidChar
  · rw [if_pos h]
    exact congrArg Char.toNat (dif_pos h)
  · rw [if_neg h]
    exact congrArg Char.toNat (dif_neg h)

/-- Small letters of runs lie among the codes that are characters. Capital letters beyond ASCII have
small letters beyond ASCII, but for the capital I with dot and the Kelvin sign. The dotless small i
is in no run, neither as a capital nor as a small letter. -/
theorem of_mem_caseRuns : ∀ run ∈ caseRuns,
    (0 ≤ run.first + run.offset ∧ (run.last + run.offset < 0xD800 ∨
      0xDFFF < run.first + run.offset ∧ run.last + run.offset < 0x110000)) ∧
    (run.last < 128 ∨ 128 ≤ run.first + run.offset ∨
      run.first = 0x130 ∧ run.last = 0x130 ∧ run.offset = -199 ∨
      run.first = 0x212A ∧ run.last = 0x212A ∧ run.offset = -8383) ∧
    run.covers 0x131 = false ∧ run.covers (Int.toNat (0x131 - run.offset)) = false := by
  decide +kernel

/-- A character beyond ASCII is its own small letter, or its small letter is that of a run. -/
theorem lowerChar_cases {c : Char} (h : 128 ≤ c.toNat) :
    lowerChar c = c ∨ ∃ run ∈ caseRuns, run.covers c.toNat = true ∧
      ((lowerChar c).toNat : Int) = c.toNat + run.offset := by
  rw [lowerChar, if_neg (by omega)]
  split
  · rename_i run hrun
    have hmem := List.mem_of_find?_eq_some hrun
    have hcovers : run.covers c.toNat = true :=
      List.find?_some (p := fun run : CaseRun => run.covers c.toNat) hrun
    refine Or.inr ⟨run, hmem, hcovers, ?_⟩
    simp only [CaseRun.covers, Bool.and_eq_true, decide_eq_true_eq] at hcovers
    obtain ⟨⟨hnonneg, hrange⟩, -⟩ := of_mem_caseRuns run hmem
    have hvalid : (Int.toNat (c.toNat + run.offset)).isValidChar := by
      unfold Nat.isValidChar
      omega
    rw [toNat_ofNat, if_pos hvalid]
    omega
  · exact Or.inl rfl

/-- A small letter that is ASCII is that of an ASCII character, or it is i or k. -/
theorem toLower_of_lowerChar {p c : Char} (hp : p.toNat < 128) (h : lowerChar c = p) :
    c.toLower = p ∨ p = 'i' ∧ c = 'İ' ∨ p = 'k' := by
  by_cases hc : c.toNat < 128
  · exact Or.inl ((lowerChar_of_ascii hc).symm.trans h)
  rcases lowerChar_cases (not_lt.mp hc) with hself | ⟨run, hmem, hcovers, hcode⟩
  · exact absurd hp (by rwa [← h, hself])
  simp only [CaseRun.covers, Bool.and_eq_true, decide_eq_true_eq] at hcovers
  rw [h] at hcode
  rcases (of_mem_caseRuns run hmem).2.1 with hrun | hrun | hrun | hrun
  · omega
  · omega
  · have hdotted : c.toNat = ('İ' : Char).toNat := by
      change c.toNat = 0x130
      omega
    have hi : p.toNat = ('i' : Char).toNat := by
      change p.toNat = 105
      omega
    exact Or.inr (Or.inl ⟨Char.toNat_inj.mp hi, Char.toNat_inj.mp hdotted⟩)
  · have hk : p.toNat = ('k' : Char).toNat := by
      change p.toNat = 107
      omega
    exact Or.inr (Or.inr (Char.toNat_inj.mp hk))

/-- The dotless i is a small letter of itself alone. -/
theorem lowerChar_eq_dotless_iff {c : Char} : lowerChar c = 'ı' ↔ c = 'ı' := by
  refine ⟨fun h => ?_, fun h => ?_⟩
  · by_cases hc : c.toNat < 128
    · have hlt := toLower_lt hc
      rw [← lowerChar_of_ascii hc, h] at hlt
      exact absurd hlt (by decide)
    rcases lowerChar_cases (not_lt.mp hc) with hself | ⟨run, hmem, hcovers, hcode⟩
    · exact hself.symm.trans h
    rw [h, show ('ı' : Char).toNat = 0x131 from rfl] at hcode
    have hnone := (of_mem_caseRuns run hmem).2.2.2
    rw [show Int.toNat (0x131 - run.offset) = c.toNat by omega, hcovers] at hnone
    cases hnone
  · subst h
    rcases lowerChar_cases (show 128 ≤ ('ı' : Char).toNat by decide) with
      hself | ⟨run, hmem, hcovers, -⟩
    · exact hself
    · have hnone := (of_mem_caseRuns run hmem).2.2.1
      exact absurd hcovers (by rw [show ('ı' : Char).toNat = 0x131 from rfl, hnone]; decide)

/-- A character stands for a small letter when it is the letter or its capital. The dotless small i
and the capital I with dot stand for i as well. -/
def StandsFor (letter c : Char) : Prop := c.toLower = letter ∨ letter = 'i' ∧ (c = 'ı' ∨ c = 'İ')

/-- When case is ignored, a small ASCII letter other than k and s is met by the characters that
stand for it. -/
theorem sameLetter_iff_standsFor {p c : Char} (hp : p.toNat < 128) (hsmall : p.toLower = p)
    (hk : p ≠ 'k') (hs : p ≠ 's') : sameLetter p c = true ↔ StandsFor p c := by
  have hlower : lowerChar p = p := (lowerChar_of_ascii hp).trans hsmall
  have hstands : lowerChar c = p ↔ c.toLower = p ∨ p = 'i' ∧ c = 'İ' := by
    refine ⟨fun h => ?_, fun h => ?_⟩
    · rcases toLower_of_lowerChar hp h with hletter | hdotted | hkelvin
      · exact Or.inl hletter
      · exact Or.inr hdotted
      · exact absurd hkelvin hk
    · rcases h with hletter | ⟨rfl, rfl⟩
      · rwa [lowerChar_of_ascii (ascii_of_toLower (hletter ▸ hp))]
      · rfl
  rw [sameLetter, hlower, Bool.or_eq_true, beq_iff_eq, hstands, StandsFor]
  by_cases hi : p = 'i'
  · subst hi
    have hvariants : (caseVariants.lookup ('i' : Char).toNat).getD [] = [('ı' : Char).toNat] := rfl
    rw [hvariants, List.contains_iff_mem, List.mem_singleton, Char.toNat_inj,
      lowerChar_eq_dotless_iff]
    tauto
  · have hcode : p.toNat ≠ 0x69 := fun heq =>
      hi (Char.toNat_inj.mp (heq.trans (show 0x69 = ('i' : Char).toNat from rfl)))
    have hcode' : p.toNat ≠ 0x73 := fun heq =>
      hs (Char.toNat_inj.mp (heq.trans (show 0x73 = ('s' : Char).toNat from rfl)))
    rw [caseVariants_of_ascii hp hcode hcode', List.contains_nil]
    simp [hi]

/-- A character stands for a bracket only if it is the bracket. -/
theorem standsFor_bracket_iff {p c : Char} (hp : p = '[' ∨ p = ']') : StandsFor p c ↔ c = p := by
  have hascii : p.toNat < 128 := by rcases hp with rfl | rfl <;> decide
  have hletter : c.toNat < 128 → (c.toLower = p ↔ c = p) := by
    rcases hp with rfl | rfl
    · exact forall_ascii (p := fun c => c.toLower = '[' ↔ c = '[') (by decide)
    · exact forall_ascii (p := fun c => c.toLower = ']' ↔ c = ']') (by decide)
  have hi : p ≠ 'i' := by rcases hp with rfl | rfl <;> decide
  rw [StandsFor, or_iff_left fun h => hi h.1]
  exact ⟨fun h => (hletter (ascii_of_toLower (h ▸ hascii))).mp h,
    fun h => (hletter (h ▸ hascii)).mpr h⟩

/-- A bracket is met by itself alone. -/
theorem sameLetter_bracket_iff {p : Char} (hp : p = '[' ∨ p = ']') (c : Char) :
    sameLetter p c = true ↔ c = p := by
  rw [← standsFor_bracket_iff hp]
  rcases hp with rfl | rfl
  · exact sameLetter_iff_standsFor (by decide) (by decide) (by decide) (by decide)
  · exact sameLetter_iff_standsFor (by decide) (by decide) (by decide) (by decide)

/-- An opening bracket is met by itself alone. -/
theorem sameLetter_bracket (c : Char) : sameLetter '[' c = true ↔ c = '[' :=
  sameLetter_bracket_iff (Or.inl rfl) c

/-- An ASCII text is made small letter by letter. -/
theorem lower_of_ascii {text : Text} (h : ∀ c ∈ text, c.toNat < 128) :
    lower text = asciiLower text := by
  induction text with
  | nil => rfl
  | cons c rest ih =>
    obtain ⟨hc, hrest⟩ := List.forall_mem_cons.mp h
    have hne : (c.toNat == 0x130) = false := by
      rw [beq_eq_false_iff_ne]
      omega
    rw [lower, if_neg (by rw [hne]; exact Bool.false_ne_true), ih hrest, lowerChar_of_ascii hc]
    rfl

/-- The small form of a dotless small i or a capital I with dot is not all ASCII. -/
theorem exists_mem_lower {c : Char} (hc : c = 'ı' ∨ c = 'İ') {text : Text} (h : c ∈ text) :
    ∃ d ∈ lower text, 128 ≤ d.toNat := by
  induction text with
  | nil => exact absurd h List.not_mem_nil
  | cons first rest ih =>
    rw [lower]
    rcases List.mem_cons.mp h with rfl | hrest
    · rcases hc with rfl | rfl
      · rw [if_neg (by decide), lowerChar_eq_dotless_iff.mpr rfl]
        exact ⟨'ı', List.mem_cons_self .., by decide⟩
      · rw [if_pos (by decide)]
        exact ⟨Char.ofNat 0x307, List.mem_cons_of_mem _ (List.mem_cons_self ..), by decide⟩
    · obtain ⟨d, hd, hcode⟩ := ih hrest
      split
      · exact ⟨d, List.mem_cons_of_mem _ (List.mem_cons_of_mem _ hd), hcode⟩
      · exact ⟨d, List.mem_cons_of_mem _ hd, hcode⟩

/-- A way to write an ASCII word is ASCII. -/
theorem ascii_of_asciiLower {spelling : Text}
    (h : ∀ c ∈ asciiLower spelling, c.toNat < 128) : ∀ c ∈ spelling, c.toNat < 128 :=
  fun c hc => ascii_of_toLower (h c.toLower (List.mem_map_of_mem hc))

end Text

/-- A letter, digit or underscore is ASCII. -/
theorem ascii_of_isNameChar {c : Char} (h : isNameChar c = true) : c.toNat < 128 := by
  have hcode := toNat_of_isNameChar h
  omega

/-- The capital of an ASCII letter is a capital letter with the same small letter. -/
theorem toUpper_mem_capitals : ∀ n < 128, (Char.ofNat n).isAlpha = true →
    (Char.ofNat n).toUpper ∈ capitals ∧
      (Char.ofNat n).toLower = (Char.ofNat n).toUpper.toLower := by
  decide +kernel

/-- What starts a name starts one when case is ignored. -/
theorem isFoldedNameStart_of_isNameStart {c : Char} (h : isNameStart c = true) :
    isFoldedNameStart c = true := by
  rw [isFoldedNameStart, Bool.or_eq_true]
  rcases (Bool.or_eq_true ..).mp h with halpha | hscore
  · have hc := ascii_of_isNameChar (isNameChar_of_isNameStart h)
    obtain ⟨hcapital, hsmall⟩ := Text.forall_ascii (p := fun c => c.isAlpha = true →
      c.toUpper ∈ capitals ∧ c.toLower = c.toUpper.toLower) toUpper_mem_capitals hc halpha
    refine Or.inr (List.any_eq_true.mpr ⟨c.toUpper, hcapital, ?_⟩)
    have hupper : c.toUpper.toNat < 128 := Text.ascii_of_toLower (hsmall ▸ Text.toLower_lt hc)
    rw [Text.sameLetter_ascii hupper hc, beq_iff_eq]
    exact hsmall
  · exact Or.inl hscore

/-- What continues a name continues one when case is ignored. -/
theorem isFoldedNameChar_of_isNameChar {c : Char} (h : isNameChar c = true) :
    isFoldedNameChar c = true := by
  rw [isFoldedNameChar, Bool.or_eq_true]
  rcases (Bool.or_eq_true ..).mp h with halphanum | hscore
  · rcases (Bool.or_eq_true ..).mp halphanum with halpha | hdigit
    · exact Or.inr (isFoldedNameStart_of_isNameStart (by rw [isNameStart, halpha, Bool.true_or]))
    · exact Or.inl hdigit
  · exact Or.inr (isFoldedNameStart_of_isNameStart (by rw [isNameStart, hscore, Bool.or_true]))

end EnvFiles
