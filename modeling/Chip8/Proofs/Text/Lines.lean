import Chip8.Machine.Text

/-!
# Reading lines and words back

A text that is put together from lines and words, with a character between them that occurs in none
of them, can be taken apart again.

* `Text.IsWord`, `Text.line` : what can stand between blanks, and lines of it.
* `Text.line_inj` : the words of a line can be read back.
* `Text.pieces_lines` : the lines of a text, whose first line can hold anything.
* `Text.append_cons_inj_of_notMem` : what comes after the last line of a kind.
-/

namespace Chip8

namespace Text

open Machine (spaced)

/-! ### Words -/

/-- A text without blanks and without ends of lines. -/
def IsWord (w : String) : Prop := ' ' ∉ w.toList ∧ '\n' ∉ w.toList

instance (w : String) : Decidable (IsWord w) := inferInstanceAs (Decidable (_ ∧ _))

theorem isWord_hex (width n : Nat) : IsWord (Hex.text width n) := by
  constructor <;> intro h <;> exact absurd (Hex.isAlphanum_of_mem_text h) (by decide)

/-- No number is written with other characters. -/
theorem hex_ne {w : String} {c : Char} (hc : c ∈ w.toList) (h : c.isAlphanum = false)
    (width n : Nat) : Hex.text width n ≠ w := by
  rintro rfl
  exact absurd (Hex.isAlphanum_of_mem_text hc) (by simp [h])

/-! ### Words in a line -/

/-- A line of words, with a blank between two of them. -/
def line (words : List String) : String := " ".intercalate words

/-- Words that can be read back from their line. -/
def IsLine (words : List String) : Prop := words ≠ [] ∧ ∀ w ∈ words, IsWord w

theorem isLine_cons {w : String} {words : List String} :
    IsLine (w :: words) ↔ IsWord w ∧ ∀ v ∈ words, IsWord v := by
  simp [IsLine]

theorem spaced_nil : spaced [] = "" := rfl

theorem spaced_cons (w : String) (words : List String) :
    spaced (w :: words) = " " ++ w ++ spaced words := String.join_cons

theorem spaced_append (vs ws : List String) : spaced (vs ++ ws) = spaced vs ++ spaced ws := by
  rw [spaced, List.map_append, String.join_append]
  rfl

theorem line_cons (w : String) (words : List String) : line (w :: words) = w ++ spaced words := by
  induction words generalizing w with
  | nil => simp [line, spaced_nil]
  | cons v words ih =>
    have hline : line (v :: words) = v ++ spaced words := ih v
    rw [line, String.intercalate_cons_cons, ← line, hline, spaced_cons, String.append_assoc,
      String.append_assoc]

variable {vs ws : List String}

theorem splitOn_line (h : IsLine ws) : (line ws).toList.splitOn ' ' = ws.map String.toList := by
  rw [line, String.toList_intercalate]
  refine List.splitOn_intercalate ' ' ?_ (by simpa using h.1)
  intro cs hcs
  obtain ⟨w, hw, rfl⟩ := List.mem_map.1 hcs
  exact (h.2 w hw).1

/-- The words of a line can be read back. -/
theorem line_inj (hv : IsLine vs) (hw : IsLine ws) : line vs = line ws ↔ vs = ws := by
  constructor
  · intro h
    have hsplit : vs.map String.toList = ws.map String.toList := by
      rw [← splitOn_line hv, h, splitOn_line hw]
    exact (List.map_inj_right fun _ _ => String.toList_inj.1).1 hsplit
  · rintro rfl
    rfl

theorem map_line_inj {vss wss : List (List String)} (hv : ∀ vs ∈ vss, IsLine vs)
    (hw : ∀ ws ∈ wss, IsLine ws) : vss.map line = wss.map line ↔ vss = wss := by
  constructor
  · intro h
    induction vss generalizing wss with
    | nil => simpa [eq_comm] using h
    | cons vs vss ih =>
      cases wss with
      | nil => cases h
      | cons ws wss =>
        obtain ⟨hvs, hvss⟩ := List.forall_mem_cons.1 hv
        obtain ⟨hws, hwss⟩ := List.forall_mem_cons.1 hw
        obtain ⟨hfirst, hrest⟩ := List.cons.inj h
        rw [(line_inj hvs hws).1 hfirst, ih hvss hwss hrest]
  · rintro rfl
    rfl

theorem newline_notMem_line (h : IsLine ws) : '\n' ∉ (line ws).toList := by
  obtain ⟨hne, hwords⟩ := h
  induction ws with
  | nil => exact absurd rfl hne
  | cons w ws ih =>
    obtain ⟨hw, hwords⟩ := List.forall_mem_cons.1 hwords
    cases ws with
    | nil => simpa [line] using hw.2
    | cons v ws =>
      have hrest : '\n' ∉ (line (v :: ws)).toList := ih (List.cons_ne_nil v ws) hwords
      rw [line, String.intercalate_cons_cons, String.toList_append, String.toList_append]
      intro hm
      rcases List.mem_append.1 hm with hm | hm
      · rcases List.mem_append.1 hm with hm | hm
        · exact hw.2 hm
        · exact absurd hm (by decide)
      · exact hrest hm

/-! ### Lines of a text -/

/-- The pieces of a text between its ends of lines. -/
def pieces (text : String) : List String := (text.toList.splitOn '\n').map String.ofList

theorem intercalate_pieces (text : String) : "\n".intercalate (pieces text) = text := by
  have hid : String.toList ∘ String.ofList = id := funext fun _ => String.toList_ofList
  apply String.toList_inj.1
  rw [pieces, String.toList_intercalate, List.map_map, hid, List.map_id]
  exact List.intercalate_splitOn '\n'

theorem pieces_inj {s t : String} : pieces s = pieces t ↔ s = t := by
  constructor
  · intro h
    rw [← intercalate_pieces s, h, intercalate_pieces]
  · rintro rfl
    rfl

theorem pieces_append (s t : String) : pieces (s ++ "\n" ++ t) = pieces s ++ pieces t := by
  have htext : (s ++ "\n" ++ t).toList = s.toList ++ '\n' :: t.toList := by simp
  simp only [pieces, htext, List.splitOn_eq_splitOnP, ← List.map_append]
  exact congrArg _ (List.splitOnP_append_cons _ _ (beq_self_eq_true _))

theorem pieces_of_notMem {s : String} (h : '\n' ∉ s.toList) : pieces s = [s] := by
  have hsplit : s.toList.splitOn '\n' = [s.toList] := by
    rw [List.splitOn_eq_splitOnP]
    refine List.splitOnP_eq_singleton fun c hc => ?_
    rw [beq_eq_false_iff_ne]
    rintro rfl
    exact h hc
  rw [pieces, hsplit, List.map_singleton, String.ofList_toList]

/-- The lines of a text are its pieces; the first may hold further ends of lines. -/
theorem pieces_lines (first : String) {lines : List String} (h : ∀ l ∈ lines, '\n' ∉ l.toList) :
    pieces (String.join ((first :: lines).map (· ++ "\n"))) = pieces first ++ lines ++ [""] := by
  induction lines generalizing first with
  | nil =>
    have hempty : pieces "" = [""] := rfl
    simpa [hempty] using pieces_append first ""
  | cons l lines ih =>
    obtain ⟨hl, hlines⟩ := List.forall_mem_cons.1 h
    rw [List.map_cons, String.join_cons, pieces_append, ih l hlines, pieces_of_notMem hl]
    simp

/-- The parts of a list around the last of the members that equal `a`. -/
theorem append_cons_inj_of_notMem {α : Type} {a : α} {xs ys us vs : List α} (hu : a ∉ us)
    (hv : a ∉ vs) : xs ++ a :: us = ys ++ a :: vs ↔ xs = ys ∧ us = vs := by
  constructor
  · intro h
    rcases List.append_eq_append_iff.1 h with ⟨cs, rfl, hc⟩ | ⟨cs, rfl, hc⟩
    · cases cs with
      | nil => simpa using hc
      | cons c cs =>
        obtain ⟨rfl, rfl⟩ := List.cons.inj hc
        exact absurd (List.mem_append_right cs List.mem_cons_self) hu
    · cases cs with
      | nil => simpa [eq_comm] using hc
      | cons c cs =>
        obtain ⟨rfl, rfl⟩ := List.cons.inj hc
        exact absurd (List.mem_append_right cs List.mem_cons_self) hv
  · rintro ⟨rfl, rfl⟩
    rfl

end Text

end Chip8
