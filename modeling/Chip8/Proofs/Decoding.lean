import Chip8.Instruction.Decode
import Chip8.Instruction.Pattern

/-!
# Decoding follows the table

The decoder looks at the fields of a word in the order of its own tables; the instruction table
lists patterns of digits. Both agree on every word.

* `Fields.family_ofWord` and its neighbours : the fields of a word are its digits.
* `Instruction.fits_of_pattern`, `Instruction.pattern_of_fits` : **a word fits the row of the table
  that stands for its instruction, and no other row.**
* `Instruction.ofWord_eq_unknown_iff` : the words that are no instruction fit no row.
-/

namespace Chip8

variable {w : Word} {p : String}

theorem Word.digit_lt (w : Word) (k : Nat) : w.digit k < 16 := Nat.mod_lt _ (by decide)

/-- The register `X` of a word. -/
def Word.x (w : Word) : Nibble := ⟨w.digit 2, w.digit_lt 2⟩

/-- The register `Y` of a word. -/
def Word.y (w : Word) : Nibble := ⟨w.digit 1, w.digit_lt 1⟩

/-- The address `NNN` of a word. -/
def Word.nnn (w : Word) : Address := w.extractLsb' 0 12

theorem Word.toNat_nnn (w : Word) : w.nnn.toNat = w.toNat % 0x1000 := by
  simp [nnn]

/-- The low byte of a word is the byte `NN`. -/
theorem Word.toNat_low (w : Word) : w.low.toNat = 16 * w.digit 1 + w.digit 0 := by
  simp only [low, BitVec.extractLsb'_toNat, digit]
  omega

/-- A word is the number that its digits write. -/
theorem Word.toNat_eq_digits (w : Word) :
    w.toNat = 4096 * w.digit 3 + 256 * w.digit 2 + 16 * w.digit 1 + w.digit 0 := by
  have hw := w.isLt
  simp only [digit]
  omega

/-! ### Fields -/

namespace Fields

variable (w)

theorem family_ofWord : (ofWord w).family.val = w.digit 3 := by
  simp [ofWord, Word.digit, Nat.shiftRight_eq_div_pow]

theorem x_ofWord : (ofWord w).x.val = w.digit 2 := by
  simp [ofWord, Word.digit, Nat.shiftRight_eq_div_pow]

theorem y_ofWord : (ofWord w).y.val = w.digit 1 := by
  simp [ofWord, Word.digit, Nat.shiftRight_eq_div_pow]

theorem x_eq : (ofWord w).x = w.x := Fin.ext (x_ofWord w)

theorem y_eq : (ofWord w).y = w.y := Fin.ext (y_ofWord w)

theorem n_ofWord : (ofWord w).n.val = w.digit 0 := by
  simp [ofWord, Word.digit]

theorem nn_eq : (ofWord w).nn = w.low := rfl

theorem nn_ofWord : (ofWord w).nn.toNat = 16 * w.digit 1 + w.digit 0 := w.toNat_low

theorem nnn_eq : (ofWord w).nnn = w.nnn := rfl

theorem toNat_word_ofWord :
    (ofWord w).word.toNat =
      4096 * w.digit 3 + 256 * w.digit 2 + 16 * w.digit 1 + w.digit 0 :=
  w.toNat_eq_digits

end Fields

/-! ### Rows of the table -/

namespace Instruction

/-- A word fits the row that stands for its instruction. -/
theorem fits_of_pattern (h : (ofWord w).pattern = some p) : w.fits p = true := by
  have h₀ := w.digit_lt 0
  have h₁ := w.digit_lt 1
  have hfamily := Fields.family_ofWord w
  have hn := Fields.n_ofWord w
  have hnn := Fields.nn_ofWord w
  have hword := Fields.toNat_word_ofWord w
  have hlt := (Fields.ofWord w).family.isLt
  unfold ofWord ofFields at h
  generalize Fields.ofWord w = f at *
  -- every branch of the decoder knows the digits that its row asks for
  split at h
  case h_1 =>
    unfold ofSystem at h
    split at h <;> cases h <;> simp [Word.fits, Pattern.admits, Hex.value] <;> omega
  case h_9 =>
    unfold ofArithmetic at h
    split at h <;> cases h <;> simp [Word.fits, Pattern.admits, Hex.value] <;> omega
  case h_15 =>
    unfold ofKeys at h
    split at h <;> cases h <;> simp [Word.fits, Pattern.admits, Hex.value] <;> omega
  case h_16 =>
    have hdevice : w.digit 3 = 15 := by
      simp only [imp_false] at *
      omega
    unfold ofDevices at h
    split at h <;> cases h <;> simp [Word.fits, Pattern.admits, Hex.value] <;> omega
  case h_6 | h_10 =>
    split at h
    · cases h
      simp [Word.fits, Pattern.admits, Hex.value]
      omega
    · cases h
  all_goals
    cases h
    simp [Word.fits, Pattern.admits, Hex.value]
    omega

/-- A word that fits a row of the table has an instruction of that row. -/
theorem pattern_of_fits : ∀ p ∈ patterns, w.fits p = true → (ofWord w).pattern = some p := by
  simp only [patterns, List.forall_mem_cons, List.not_mem_nil, false_implies, implies_true,
    and_true]
  -- one goal for each row: its digits choose the branches of the decoder
  and_intros
  all_goals
    intro h
    simp [Word.fits, Pattern.admits, Hex.value] at h
    simp [ofWord, ofFields, ofSystem, ofArithmetic, ofKeys, ofDevices, Fields.family_ofWord,
      Fields.n_ofWord, Fields.nn_ofWord, Fields.toNat_word_ofWord, h, pattern]

theorem pattern_mem {i : Instruction} (h : i.pattern = some p) : p ∈ patterns := by
  unfold pattern at h
  split at h <;> cases h <;> decide

/-- The decoder keeps a word that is no instruction. -/
theorem eq_of_ofWord_unknown {v : Word} (h : ofWord w = .unknown v) : v = w := by
  unfold ofWord ofFields ofSystem ofArithmetic ofKeys ofDevices at h
  repeat' split at h
  all_goals cases h
  all_goals rfl

theorem ofWord_of_pattern_eq_none (h : (ofWord w).pattern = none) : ofWord w = .unknown w := by
  cases hi : ofWord w with
  | unknown v => rw [eq_of_ofWord_unknown hi]
  | skip c => cases c <;> simp [hi, pattern] at h
  | combine op x y => cases op <;> simp [hi, pattern] at h
  | shift d x => cases d <;> simp [hi, pattern] at h
  | _ => simp [hi, pattern] at h

/-- **Decoding follows the table.**  A word fits a row of the table exactly if the row stands for
its instruction, and no row exactly if it is no instruction. -/
theorem fits_iff (hp : p ∈ patterns) : w.fits p = true ↔ (ofWord w).pattern = some p :=
  ⟨pattern_of_fits p hp, fits_of_pattern⟩

theorem fitsAny_of_inRows {rows : List String} (h : (ofWord w).InRows rows) :
    w.fitsAny rows = true := by
  obtain ⟨p, hp, hrow⟩ := h
  exact List.any_eq_true.2 ⟨p, hp, fits_of_pattern hrow⟩

theorem ofWord_eq_unknown_iff :
    ofWord w = .unknown w ↔ ∀ p ∈ patterns, w.fits p = false := by
  constructor
  · intro h p hp
    rw [Bool.eq_false_iff]
    intro hfits
    have hrow := (fits_iff hp).1 hfits
    rw [h] at hrow
    cases hrow
  · intro h
    apply ofWord_of_pattern_eq_none
    cases hrow : (ofWord w).pattern with
    | none => rfl
    | some p =>
      have hfits := fits_of_pattern hrow
      rw [h p (pattern_mem hrow)] at hfits
      cases hfits

/-! ### Single rows -/

/-- A row of digits alone is fitted by one word only. -/
theorem eq_of_fits {v : Word} (hp : 'X' ∉ p.toList ∧ 'Y' ∉ p.toList ∧ 'N' ∉ p.toList)
    (hv : v.fits p = true) (hw : w.fits p = true) : v = w := by
  obtain ⟨hx, hy, hn⟩ := hp
  have hdigit {c : Char} (hc : c ∈ p.toList) (k : Nat) (h : Pattern.admits c k = true) :
      k = Hex.value c := by
    have hcx : c ≠ 'X' := fun heq => hx (heq ▸ hc)
    have hcy : c ≠ 'Y' := fun heq => hy (heq ▸ hc)
    have hcn : c ≠ 'N' := fun heq => hn (heq ▸ hc)
    simpa [Pattern.admits, hcx, hcy, hcn] using h
  unfold Word.fits at hv hw
  split at hv
  · rename_i a b c d hchars
    rw [hchars] at hdigit hw
    simp only [Bool.and_eq_true] at hv hw
    obtain ⟨⟨⟨ha, hb⟩, hc⟩, hd⟩ := hv
    obtain ⟨⟨⟨ha', hb'⟩, hc'⟩, hd'⟩ := hw
    apply BitVec.eq_of_toNat_eq
    rw [v.toNat_eq_digits, w.toNat_eq_digits, hdigit (by simp) _ ha, hdigit (by simp) _ hb,
      hdigit (by simp) _ hc, hdigit (by simp) _ hd, hdigit (by simp) _ ha', hdigit (by simp) _ hb',
      hdigit (by simp) _ hc', hdigit (by simp) _ hd']
  · cases hv

theorem ofWord_eq_clearScreen_iff : ofWord w = .clearScreen ↔ w = 0x00E0 := by
  constructor
  · intro h
    have hfits : w.fits "00E0" = true := fits_of_pattern (by rw [h]; rfl)
    exact eq_of_fits (by decide) hfits (by decide)
  · rintro rfl
    rfl

theorem ofWord_eq_ret_iff : ofWord w = .ret ↔ w = 0x00EE := by
  constructor
  · intro h
    have hfits : w.fits "00EE" = true := fits_of_pattern (by rw [h]; rfl)
    exact eq_of_fits (by decide) hfits (by decide)
  · rintro rfl
    rfl

theorem ofWord_eq_call_iff : (∃ nnn, ofWord w = .call nnn) ↔ w.fits "2NNN" = true := by
  constructor
  · rintro ⟨nnn, h⟩
    exact fits_of_pattern (by rw [h]; rfl)
  · intro h
    simp [Word.fits, Pattern.admits, Hex.value] at h
    exact ⟨(Fields.ofWord w).nnn, by simp [ofWord, ofFields, Fields.family_ofWord, h]⟩

theorem ofWord_eq_draw_iff : (∃ x y n, ofWord w = .draw x y n) ↔ w.fits "DXYN" = true := by
  constructor
  · rintro ⟨x, y, n, h⟩
    exact fits_of_pattern (by rw [h]; rfl)
  · intro h
    simp [Word.fits, Pattern.admits, Hex.value] at h
    exact ⟨(Fields.ofWord w).x, (Fields.ofWord w).y, (Fields.ofWord w).n,
      by simp [ofWord, ofFields, Fields.family_ofWord, h]⟩

end Instruction

end Chip8
