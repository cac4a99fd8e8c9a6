import Chip8.Bare.Forget
import Chip8.Proofs.Cells

/-!
# The parts of a bare machine do not panic

Whatever is done with a part of a machine can be done with the bare part, and what comes of it is
again the part made bare; so nothing of it is a panic. The equations `…_eq` say so, one for each
thing that can be done.

* `Screen.rows_flip` : what a write leaves in the bare arrays.
* `Bare.within_eq` : **a block that is there is changed in its place.**
* `Bare.decode_eq` : **the fields of a word fit their places.**
* `Bare.combine_eq`, `Bare.shift_eq` : **no sum and no shift of bytes overflows.**
* `Bare.drawRows_eq` : **a sprite is drawn inside of the screen.**
-/

namespace Chip8

/-! ### Registers and pixels in a row -/

namespace Registers

theorem lt_length_toList (r : Registers) (x : Nibble) : x < r.v.toList.length := by
  rw [Vector.length_toList]
  exact x.isLt

end Registers

namespace Screen

variable (s : Screen) (p : Pixel)

theorem row_flip : (s.flip p).row p.y = (s.row p.y).set p.x (!s.get p) := by
  apply List.ext_getElem
  · simp [row]
  · intro i hi _
    simp only [row, List.length_ofFn] at hi
    have hp : p = ⟨⟨i, hi⟩, p.y⟩ ↔ p.x.val = i := by
      obtain ⟨x, y⟩ := p
      simp [Fin.ext_iff]
    simp only [row, List.getElem_ofFn, List.getElem_set, get_flip, hp]

theorem row_flip_of_ne {y : Fin height} (h : p.y ≠ y) : (s.flip p).row y = s.row y := by
  have hp : ∀ x, p ≠ ⟨x, y⟩ := fun x hx => h (congrArg Pixel.y hx)
  simp only [row, get_flip, if_neg (hp _)]

theorem rows_flip : (s.flip p).rows = s.rows.set p.y ((s.row p.y).set p.x (!s.get p)) := by
  rw [← row_flip]
  apply List.ext_getElem
  · simp [rows]
  · intro i _ _
    simp only [rows, List.getElem_ofFn, List.getElem_set]
    by_cases h : p.y.val = i
    · subst h
      exact (if_pos rfl).symm
    · rw [if_neg h]
      exact row_flip_of_ne s p fun hy => h (congrArg Fin.val hy)

theorem rows_blank : blank.rows = .replicate height (.replicate width false) := by
  have hrow : ∀ y, blank.row y = .replicate width false :=
    fun y => List.ext_getElem (by simp [row]) (by simp [row])
  exact List.ext_getElem (by simp [rows]) (by simp [rows, hrow])

end Screen

namespace Bare

/-! ### Arrays -/

section Arrays

variable {α : Type} {n i start stop : Nat} {xs changed : List α}

theorem entry_eq (h : i < xs.length) : entry xs i = .ok xs[i] := dif_pos h

theorem putEntry_eq (h : i < xs.length) (x : α) : putEntry xs i x = .ok (xs.set i x) := if_pos h

theorem part_eq (ho : start ≤ stop) (hs : stop ≤ xs.length) :
    part xs start stop = .ok ((xs.take stop).drop start) := by
  rw [part, if_neg (by omega), if_neg (by omega)]

theorem copy_eq {source target : List α} (h : target.length = source.length) :
    copy source target = .ok source := if_pos h

/-- **A block that is there is changed in its place.** -/
theorem within_eq {f : List α → Except Panic (List α)} (ho : start ≤ stop) (hs : stop ≤ xs.length)
    (hf : ∀ block, block.length = stop - start → f block = .ok changed) :
    within xs start stop f = .ok (xs.take start ++ changed ++ xs.drop stop) := by
  have hblock : ((xs.take stop).drop start).length = stop - start := by
    simp [List.length_drop, List.length_take, Nat.min_eq_left hs]
  rw [within, part_eq ho hs]
  simp only [bind, Except.bind, hf _ hblock]
  rfl

end Arrays

/-! ### Memory and the stack -/

theorem fetch_eq (m : Memory) (p : Nat) : fetch m.cells.toList p = .ok (m.fetch p) := by
  rw [fetch, Memory.fetch_eq, Vector.length_toList]
  split
  · rw [entry_eq (by simp; omega), entry_eq (by simpa)]
    simp only [Vector.getElem_toList]
    rfl
  · rfl

theorem within_blit (m : Memory) (a : Nat) {bs : List Byte}
    {f : List Byte → Except Panic (List Byte)} (h : a + bs.length ≤ Memory.size)
    (hf : ∀ block, block.length = bs.length → f block = .ok bs) :
    within m.cells.toList a (a + bs.length) f = .ok (m.blit a bs).cells.toList := by
  rw [Memory.toList_blit m bs h]
  refine within_eq (by omega) (by simpa using h) fun block hb => hf block ?_
  omega

theorem initialCells_eq : initialCells = .ok Memory.initial.cells.toList := by
  have hz : (Vector.replicate Memory.size (0 : Byte)).toList = .replicate Memory.size 0 := by simp
  rw [initialCells, ← hz]
  exact within_blit ⟨.replicate Memory.size 0⟩ Font.location (by decide) fun _ hb => copy_eq hb

theorem loadCells_eq (m : Memory) (data : List Byte) :
    loadCells m.cells.toList data = .ok ((m.load data).map (·.cells.toList)) := by
  rw [loadCells, Memory.load]
  split
  · rfl
  · split
    · rfl
    · have hfits : Memory.origin + data.length ≤ Memory.size := by
        simp only [Memory.capacity, Memory.origin, Memory.last, Memory.size] at *
        omega
      rw [within_blit m Memory.origin hfits fun _ hb => copy_eq hb]
      rfl

theorem push_eq (s : CallStack) (address : Nat) :
    push s.entries address = (s.push address).map (·.entries) := by
  unfold push CallStack.push CallStack.depth
  by_cases h : s.entries.length < CallStack.capacity
  · rw [if_pos h, dif_pos h]
    rfl
  · rw [if_neg h, dif_neg h]
    rfl

theorem pop_eq (s : CallStack) :
    pop s.entries = s.pop.map fun (target, rest) => (target, rest.entries) := by
  obtain ⟨_ | ⟨address, rest⟩, _⟩ := s <;> rfl

/-! ### Numbers -/

theorem and_mask (address : Nat) : address &&& Memory.mask = (BitVec.ofNat 12 address).toNat :=
  Nat.and_two_pow_sub_one_eq_mod address 12

theorem add_eq {width : Nat} {a b : BitVec width} (h : a.uaddOverflow b = false) :
    add a b = .ok (a + b) := by
  rw [add, h]
  rfl

theorem shiftRight_eq {width k : Nat} (a : BitVec width) (h : k < width) :
    shiftRight a k = .ok (a >>> k) := if_pos h

/-- **No sum of bytes overflows** in twice their width. -/
theorem combine_eq (a b : Byte) (op : Combination) : combine a b op = .ok (op.apply a b) := by
  cases op with
  | add =>
    have ha : a.toNat < 256 := a.isLt
    have hb : b.toNat < 256 := b.isLt
    have hsum : (a.setWidth 16 + b.setWidth 16 : Word).toNat = a.toNat + b.toNat := by
      rw [BitVec.toNat_add, BitVec.toNat_setWidth, BitVec.toNat_setWidth]
      omega
    have hvalue : ((a.setWidth 16 + b.setWidth 16 : Word) &&& 0xFF).setWidth 8 = a + b := by
      apply BitVec.eq_of_toNat_eq
      rw [BitVec.toNat_setWidth, BitVec.toNat_and, hsum, BitVec.toNat_add]
      exact (congrArg (· % 256) (Nat.and_two_pow_sub_one_eq_mod _ 8)).trans (Nat.mod_mod _ _)
    have hflag : (0xFF : Word) < a.setWidth 16 + b.setWidth 16 ↔ 255 < a.toNat + b.toNat := by
      rw [BitVec.lt_def, hsum]
      rfl
    have hfits : (a.setWidth 16).uaddOverflow (b.setWidth 16) = false := by
      simp only [BitVec.uaddOverflow, BitVec.toNat_setWidth, decide_eq_false_iff_not]
      omega
    rw [combine, add_eq hfits, Combination.apply]
    simp only [bind, Except.bind, hvalue, hflag]
    rfl
  | _ => rfl

theorem and_one_beq_one (a : Byte) : (a &&& 1 == 1) = a.getLsbD 0 := by
  rw [show (1 : Byte) = 1#8 from rfl, BitVec.and_one_eq_setWidth_ofBool_getLsbD]
  cases a.getLsbD 0 <;> rfl

theorem shift_eq (a : Byte) (d : Direction) : shift a d = .ok (d.apply a) := by
  cases d with
  | left =>
    rw [shift, shiftRight_eq a (by decide)]
    simp only [bind, Except.bind, and_one_beq_one]
    simp [pure, Except.pure, Direction.apply, BitVec.msb_eq_getLsbD_last]
  | right =>
    rw [shift, shiftRight_eq a (by decide)]
    simp only [bind, Except.bind, and_one_beq_one]
    rfl

/-! ### Decoding -/

/-- A mask and a shift pick the bits of a field. -/
theorem toNat_masked {w mask : Word} {k n : Nat}
    (hm : mask.toNat >>> k = (BitVec.allOnes n).toNat) :
    ((w &&& mask) >>> k).toNat = (w.extractLsb' k n).toNat := by
  rw [BitVec.toNat_ushiftRight, BitVec.toNat_and, Nat.shiftRight_and_distrib, hm,
    BitVec.toNat_allOnes, Nat.and_two_pow_sub_one_eq_mod, BitVec.extractLsb'_toNat]

theorem split_eq (w : Word) : split w = .ok (Fields.ofWord w).bare := by
  have hx : w &&& 0x0FFF &&& 0xFF00 = w &&& 0x0F00 := BitVec.and_assoc ..
  have hlow : ∀ mask : Word, (w &&& mask).toNat = ((w &&& mask) >>> 0).toNat := fun _ => rfl
  have hnn : (w &&& 0x00FF).setWidth 8 = w.extractLsb' 0 8 := by
    apply BitVec.eq_of_toNat_eq
    rw [BitVec.toNat_setWidth, hlow, toNat_masked (n := 8) rfl]
    exact Nat.mod_eq_of_lt (BitVec.isLt _)
  rw [split, shiftRight_eq _ (by decide), shiftRight_eq _ (by decide),
    shiftRight_eq _ (by decide)]
  simp only [bind, Except.bind, pure, Except.pure, Fields.bare, Fields.ofWord, hx, hnn,
    Except.ok.injEq, Fields.mk.injEq, BitVec.val_toFin]
  refine ⟨trivial, ?_, ?_, ?_, ?_, trivial, ?_⟩
  · exact toNat_masked rfl
  · exact toNat_masked rfl
  · exact toNat_masked rfl
  · exact (hlow _).trans (toNat_masked rfl)
  · exact (hlow _).trans (toNat_masked rfl)

section Table

variable (f : Chip8.Fields)

theorem ofSystem_bare : Instruction.ofSystem f.bare = (Chip8.Instruction.ofSystem f).bare := by
  unfold Chip8.Instruction.ofSystem
  split <;> simp_all [Instruction.ofSystem, Fields.bare, Instruction.bare]

theorem ofArithmetic_bare :
    Instruction.ofArithmetic f.bare = (Chip8.Instruction.ofArithmetic f).bare := by
  unfold Chip8.Instruction.ofArithmetic
  split <;> simp_all [Instruction.ofArithmetic, Fields.bare, Instruction.bare]

theorem ofKeys_bare : Instruction.ofKeys f.bare = (Chip8.Instruction.ofKeys f).bare := by
  unfold Chip8.Instruction.ofKeys
  split <;> simp_all [Instruction.ofKeys, Fields.bare, Instruction.bare, Condition.bare]

theorem ofDevices_bare : Instruction.ofDevices f.bare = (Chip8.Instruction.ofDevices f).bare := by
  unfold Chip8.Instruction.ofDevices
  split <;> simp_all [Instruction.ofDevices, Fields.bare, Instruction.bare]

/-- A row of the table that asks for a last digit of zero. -/
theorem ite_bare {c : Prop} [Decidable c] (i j : Chip8.Instruction) :
    (if c then i.bare else j.bare) = (if c then i else j).bare :=
  (apply_ite Chip8.Instruction.bare c i j).symm

theorem ofFields_bare : Instruction.ofFields f.bare = (Chip8.Instruction.ofFields f).bare := by
  obtain ⟨w, ⟨family, hfamily⟩, x, y, n, nn, nnn⟩ := f
  match family, hfamily with
  | 0x0, _ => exact ofSystem_bare _
  | 0x5, _ => exact ite_bare (.skip (.equal x y)) (.unknown w)
  | 0x8, _ => exact ofArithmetic_bare _
  | 0x9, _ => exact ite_bare (.skip (.differ x y)) (.unknown w)
  | 0xE, _ => exact ofKeys_bare _
  | 0xF, _ => exact ofDevices_bare _
  | 0x1, _ | 0x2, _ | 0x3, _ | 0x4, _ | 0x6, _ | 0x7, _ | 0xA, _ | 0xB, _ | 0xC, _ | 0xD, _ => rfl
  | family + 16, hfamily => omega

end Table

/-- **The fields of a word fit their places**: no register number exceeds 15, and no address twelve
bits. -/
theorem decode_eq (w : Word) : decode w = .ok (Chip8.Instruction.ofWord w).bare := by
  rw [decode, split_eq, Chip8.Instruction.ofWord, ← ofFields_bare]
  rfl

/-! ### The screen -/

theorem clear_rows (s : Screen) : clear s.rows = Screen.blank.rows := by
  simp only [clear, Screen.rows, List.map_ofFn]
  congr 1
  funext y
  simp only [Screen.row, Function.comp_apply, List.map_ofFn, Screen.get_blank]
  rfl

/-- A pixel of the screen is in its rows. -/
theorem turn_eq (d : Chip8.Drawing) (p : Pixel) : d.bare.turn p.x p.y = .ok (d.hit p).bare := by
  have hrows : entry d.screen.rows p.y = .ok (d.screen.row p.y) := by
    rw [entry_eq (by simp [Screen.rows])]
    simp [Screen.rows]
  have hrow : entry (d.screen.row p.y) p.x = .ok (d.screen.get p) := by
    rw [entry_eq (by simp [Screen.row])]
    simp [Screen.row]
  rw [Drawing.turn, Chip8.Drawing.bare]
  simp only [bind, Except.bind, hrows, hrow]
  rw [putEntry_eq (by simp [Screen.row])]
  dsimp only
  rw [putEntry_eq (by simp [Screen.rows]), ← Screen.rows_flip]
  rfl

theorem drawBit_eq (x y : Nat) (bits : Byte) (d : Chip8.Drawing) {c : Nat}
    (h : c < Sprite.width) :
    drawBit x (y % Screen.height) bits d.bare c =
      .ok (if bits.getMsbD c then d.hit (.wrap (x + c) y) else d).bare := by
  have hw : c < 8 := h
  rw [drawBit, shiftRight_eq _ hw]
  simp only [bind, Except.bind, Sprite.and_shifted_mask bits h]
  cases bits.getMsbD c with
  | false => rfl
  | true => exact turn_eq d (.wrap (x + c) y)

theorem drawRow_eq (x y : Nat) (bits : Byte) (d : Chip8.Drawing) :
    drawRow x (y % Screen.height) bits d.bare =
      .ok ((Sprite.rowHits x y bits).foldl Chip8.Drawing.hit d).bare := by
  have hbits : ∀ c ∈ List.range Sprite.width, c < Sprite.width := fun _ => List.mem_range.1
  rw [drawRow, Sprite.rowHits]
  -- bit by bit, over any bits that a row has
  generalize List.range Sprite.width = cs at hbits
  induction cs generalizing d with
  | nil => rfl
  | cons c cs ih =>
    rw [List.foldlM_cons, drawBit_eq x y bits d (hbits c List.mem_cons_self)]
    have hrest := ih (if bits.getMsbD c then d.hit (.wrap (x + c) y) else d) fun c hc =>
      hbits c (List.mem_cons_of_mem _ hc)
    simp only [bind, Except.bind, hrest, List.filterMap_cons]
    cases bits.getMsbD c <;> rfl

/-- **A sprite is drawn inside of the screen**, wherever its corner is and however high it is. -/
theorem drawRows_eq (x y r : Nat) (sprite : List Byte) (d : Chip8.Drawing) :
    drawRows x y r sprite d.bare =
      .ok ((Sprite.hits x (y + r) sprite).foldl Chip8.Drawing.hit d).bare := by
  induction sprite generalizing r d with
  | nil => rfl
  | cons bits sprite ih =>
    rw [drawRows, drawRow_eq, Sprite.hits, List.foldl_append]
    exact ih ..

end Bare

end Chip8
