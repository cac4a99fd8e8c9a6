import Chip8.Proofs.Text.Lines

/-!
# Reading a line of a dump back

A line tells the row that it shows, and its text tells the line.

* `Dump.Row.cell` : the cells of a row.
* `Dump.Line.text_inj` : the text of a line tells the line.
* `Dump.length_text_row`, `Dump.length_text_gap` : every text is as wide as the others.
* `Memory.cell_row` : the cells of a row are those of memory.
-/

namespace Chip8

namespace Dump

/-! ### Rows -/

/-- The cell of a row behind `k` others. -/
def Row.cell (r : Row) (k : Nat) : Byte :=
  let w := r.words[k / Word.size]?.getD 0
  if k % Word.size = 0 then Word.high w else Word.low w

theorem Row.cell_of_isZero {r : Row} (h : r.isZero) (k : Nat) : r.cell k = 0 := by
  have hw : r.words[k / Word.size]?.getD 0 = 0 := by
    cases hget : r.words[k / Word.size]? with
    | none => rfl
    | some w =>
      have hall : ∀ w ∈ r.words, w = 0 := by simpa [isZero] using h
      exact hall w (List.mem_of_getElem? hget)
  rw [cell, hw]
  split <;> rfl

/-! ### The texts of lines -/

section Texts

open Machine (spaced)
open Text

/-- The words of a line. Two blanks that follow each other have a word without characters between
them. -/
def Line.words : Line → List String
  | row r =>
    Hex.word r.start :: "-" :: Hex.word r.stop :: ":" :: r.words.map fun w => Hex.word w.toNat
  | gap start stop =>
    Hex.word start :: "-" :: Hex.word stop :: ":" :: Hex.word 0 ::
      (.replicate 19 "" ++ "..." :: (.replicate 19 "" ++ [Hex.word 0]))

theorem Line.text_eq (l : Line) : l.text = Text.line l.words := by
  have hdash : (" - " : String) = " " ++ "-" ++ " " := rfl
  have hcolon : (" :" : String) = " " ++ ":" := rfl
  cases l with
  | row r =>
    have hwords : String.join (r.words.map fun w => " " ++ Hex.word w.toNat) =
        spaced (r.words.map fun w => Hex.word w.toNat) := by
      rw [spaced, List.map_map]
      rfl
    simp only [text, range, words, hwords, hdash, hcolon, line_cons, spaced_cons,
      String.append_assoc]
  | gap start stop =>
    have hblanks : gapBlanks = spaced (.replicate 19 "") ++ " " := rfl
    simp only [text, range, words, hblanks, hdash, hcolon, line_cons, spaced_append, spaced_cons,
      spaced_nil, String.append_assoc, String.append_empty]

theorem Line.isLine_words (l : Line) : IsLine l.words := by
  have hhex (n : Nat) : IsWord (Hex.word n) := isWord_hex 4 n
  have hdash : IsWord "-" := by decide
  have hcolon : IsWord ":" := by decide
  cases l with
  | row r =>
    simp only [words, isLine_cons, List.forall_mem_cons, List.forall_mem_map]
    exact ⟨hhex _, hdash, hhex _, hcolon, fun w _ => hhex _⟩
  | gap start stop =>
    have hdots : IsWord "..." := by decide
    have hblank : ∀ w ∈ List.replicate 19 "", IsWord w := by decide
    simp only [words, isLine_cons, List.forall_mem_cons, List.forall_mem_append]
    exact ⟨hhex _, hdash, hhex _, hcolon, hhex _, hblank, hdots, hblank, hhex _, nofun⟩

theorem dots_notMem_words (r : Row) : "..." ∉ (Line.row r).words := by
  have hhex (n : Nat) : Hex.word n ≠ "..." := hex_ne (c := '.') (by decide) (by decide) 4 n
  intro h
  simp only [Line.words, List.mem_cons, List.mem_map] at h
  rcases h with h | h | h | h | ⟨w, -, h⟩
  · exact hhex _ h.symm
  · exact absurd h (by decide)
  · exact hhex _ h.symm
  · exact absurd h (by decide)
  · exact hhex _ h

theorem dots_mem_words (start stop : Nat) : "..." ∈ (Line.gap start stop).words := by
  simp [Line.words]

theorem Line.words_inj {k l : Line} : k.words = l.words ↔ k = l := by
  constructor
  · intro h
    cases k with
    | row r =>
      cases l with
      | row s =>
        simp only [words, List.cons.injEq, Hex.word_inj, true_and] at h
        obtain ⟨hstart, -, hwords⟩ := h
        have hwords : r.words = s.words := by
          refine (List.map_inj_right fun v w hvw => ?_).1 hwords
          exact BitVec.eq_of_toNat_eq (Hex.word_inj.1 hvw)
        rw [Line.row.injEq, Row.mk.injEq]
        exact ⟨hstart, hwords⟩
      | gap start stop => exact absurd (h ▸ dots_mem_words start stop) (dots_notMem_words r)
    | gap start stop =>
      cases l with
      | row s => exact absurd (h ▸ dots_mem_words start stop) (dots_notMem_words s)
      | gap first last =>
        simp only [words, List.cons.injEq, Hex.word_inj, true_and] at h
        rw [h.1, h.2.1]
  · rintro rfl
    rfl

/-- The text of a line tells the line. -/
theorem Line.text_inj {k l : Line} : k.text = l.text ↔ k = l := by
  rw [text_eq, text_eq, line_inj k.isLine_words l.isLine_words, words_inj]

end Texts

/-! ### The widths of lines -/

theorem length_range {start stop : Nat} (hstart : start < 0x10000) (hstop : stop < 0x10000) :
    (range start stop).length = 17 := by
  have hdash : " - ".length = 3 := rfl
  have hcolon : " :".length = 2 := rfl
  simp only [range, String.length_append, Hex.length_word, hstart, hstop, hdash, hcolon]

theorem length_text_row {r : Row} (hstop : r.stop < 0x10000)
    (hwords : r.words.length = wordsPerRow) : (Line.row r).text.length = 73 := by
  have hstart : r.start < 0x10000 := Nat.lt_of_le_of_lt (Nat.le_add_right ..) hstop
  have hword (w : Word) : (" " ++ Hex.word w.toNat).length = 7 := by
    rw [String.length_append, Hex.length_word w.isLt]
    rfl
  have hjoin : (String.join (r.words.map fun w => " " ++ Hex.word w.toNat)).length = 56 := by
    rw [String.length_join, List.map_map]
    simp only [Function.comp_def, hword, List.map_const', hwords]
    rfl
  rw [Line.text, String.length_append, length_range hstart hstop, hjoin]

/-- The dots of a gap stand between as many blanks as it takes. -/
theorem length_text_gap {start stop : Nat} (hstart : start < 0x10000) (hstop : stop < 0x10000) :
    (Line.gap start stop).text.length = 73 := by
  have hblank : " ".length = 1 := rfl
  have hdots : "...".length = 3 := rfl
  have hblanks : gapBlanks.length = 20 := rfl
  simp only [Line.text, String.length_append, length_range hstart hstop, hblank, hdots, hblanks,
    Hex.length_word (n := 0) (by decide)]

end Dump

/-! ### Memories -/

namespace Memory

open Dump

/-- The cells of a row are those of memory. -/
theorem cell_row (m : Memory) (i : Fin rowCount) {k : Nat} (hk : k < rowSize) :
    (m.row i).cell k = m.cell (rowSize * i + k) := by
  have hword : k / Word.size < wordsPerRow := Nat.div_lt_of_lt_mul hk
  have hk : Word.size * (k / Word.size) + k % Word.size = k := Nat.div_add_mod ..
  have hget : (m.row i).words[k / Word.size]? = some (.ofBytes
      (m.cell (rowSize * i + Word.size * (k / Word.size)))
      (m.cell (rowSize * i + Word.size * (k / Word.size) + 1))) := by
    simp [row, hword]
  simp only [Row.cell, hget, Option.getD_some, Word.high_ofBytes, Word.low_ofBytes]
  have hrest : k % Word.size < 2 := Nat.mod_lt k (by decide)
  by_cases h : k % Word.size = 0
  · rw [if_pos h]
    congr 1
    omega
  · rw [if_neg h]
    congr 1
    omega

end Memory

end Chip8
