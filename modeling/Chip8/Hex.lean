import Chip8.Word

/-!
# Hexadecimal text

Numbers are written in upper case behind `0x`, with leading zeros up to a least number of digits;
a number that needs more digits gets them.

* `Hex.digit`, `Hex.digits` : one digit, and the digits of a number without leading zeros.
* `Hex.text` : the padded text of a number.
* `Hex.byte`, `Hex.word` : at least two and at least four digits.
* `Hex.ofDigits_digits` : the digits of a number read back as that number.
* `Hex.text_inj` : different numbers have different texts.
* `Hex.isAlphanum_of_mem_text` : the characters of a text.
* `Hex.length_text` : the width of a text, if the number does not need more digits.
-/

namespace Chip8

namespace Hex

/-- The digit for `n < 16`. -/
def digit (n : Nat) : Char :=
  if n < 10 then Char.ofNat (n + 48) else Char.ofNat (n + 55)

/-- The digits of `n`, the most significant first; zero has one digit. -/
def digits (n : Nat) : List Char :=
  if n < 16 then [digit n] else digits (n / 16) ++ [digit (n % 16)]
termination_by n

/-- The text of `n` with at least `width` digits. -/
def text (width n : Nat) : String :=
  "0x" ++ String.ofList ((digits n).leftpad width '0')

/-- The text of a byte. -/
def byte (b : Byte) : String := text 2 b.toNat

/-- The text of a word, an address or a larger number. -/
def word (n : Nat) : String := text 4 n

/-! ### Reading digits back -/

/-- The value of a digit. -/
def value (c : Char) : Nat :=
  if c.toNat < 58 then c.toNat - 48 else c.toNat - 55

/-- The number written by a list of digits. -/
def ofDigits (cs : List Char) : Nat :=
  cs.foldl (fun n c => 16 * n + value c) 0

theorem value_digit : ∀ {n : Nat}, n < 16 → value (digit n) = n := by
  decide

theorem ofDigits_append_singleton (cs : List Char) (c : Char) :
    ofDigits (cs ++ [c]) = 16 * ofDigits cs + value c := by
  simp [ofDigits]

@[simp] theorem ofDigits_digits (n : Nat) : ofDigits (digits n) = n := by
  fun_induction digits n with
  | case1 n h => simpa [ofDigits] using value_digit h
  | case2 n h ih =>
    rw [ofDigits_append_singleton, ih, value_digit (Nat.mod_lt _ (by decide))]
    omega

theorem ofDigits_leftpad (width : Nat) (cs : List Char) :
    ofDigits (cs.leftpad width '0') = ofDigits cs := by
  have hzeros (k : Nat) : ofDigits (List.replicate k '0' ++ cs) = ofDigits cs := by
    induction k with
    | zero => rfl
    | succ k ih => exact ih
  exact hzeros _

variable {width m n : Nat} {c : Char}

/-- Different numbers have different texts. -/
theorem text_inj : text width m = text width n ↔ m = n := by
  refine ⟨fun h => ?_, congrArg (text width)⟩
  have hdigits : (digits m).leftpad width '0' = (digits n).leftpad width '0' := by
    rw [text, text, String.append_right_inj] at h
    exact String.ofList_injective h
  rw [← ofDigits_digits m, ← ofDigits_leftpad width, hdigits, ofDigits_leftpad, ofDigits_digits]

theorem byte_inj {a b : Byte} : byte a = byte b ↔ a = b := text_inj.trans BitVec.toNat_inj

theorem word_inj : word m = word n ↔ m = n := text_inj

/-! ### The characters of a text -/

theorem isAlphanum_digit : ∀ {n : Nat}, n < 16 → (digit n).isAlphanum := by
  decide

theorem isAlphanum_of_mem_digits (h : c ∈ digits n) : c.isAlphanum := by
  fun_induction digits n with
  | case1 n hn =>
    rw [List.mem_singleton.1 h]
    exact isAlphanum_digit hn
  | case2 n hn ih =>
    rcases List.mem_append.1 h with h | h
    · exact ih h
    · rw [List.mem_singleton.1 h]
      exact isAlphanum_digit (Nat.mod_lt _ (by decide))

/-- A text has neither blanks nor ends of lines. -/
theorem isAlphanum_of_mem_text (h : c ∈ (text width n).toList) : c.isAlphanum := by
  have hfront : "0x".toList.all Char.isAlphanum := by decide
  simp only [text, String.toList_append, String.toList_ofList, List.mem_append, List.leftpad] at h
  rcases h with h | h | h
  · exact List.all_eq_true.1 hfront c h
  · rw [List.eq_of_mem_replicate h]
    decide
  · exact isAlphanum_of_mem_digits h

/-! ### The width of a text -/

/-- A larger number does not have fewer digits. -/
theorem length_digits_le (h : m ≤ n) : (digits m).length ≤ (digits n).length := by
  fun_induction digits n generalizing m with
  | case1 n hn =>
    rw [digits, if_pos (Nat.lt_of_le_of_lt h hn)]
    exact Nat.le_refl 1
  | case2 n hn ih =>
    rw [digits, List.length_append, List.length_singleton]
    split
    · exact Nat.le_add_left ..
    · rw [List.length_append, List.length_singleton]
      exact Nat.succ_le_succ (ih (Nat.div_le_div_right h))

theorem length_text (h : (digits n).length ≤ width) : (text width n).length = width + 2 := by
  have hfront : "0x".length = 2 := rfl
  rw [text, String.length_append, hfront, String.length_ofList, List.length_leftpad,
    Nat.max_eq_left h, Nat.add_comm]

theorem length_word (h : n < 0x10000) : (word n).length = 6 := by
  have hlargest : (digits 0xFFFF).length = 4 := by simp [digits]
  exact length_text (hlargest ▸ length_digits_le (Nat.le_of_lt_succ h))

end Hex

end Chip8
