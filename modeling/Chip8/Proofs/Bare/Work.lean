import Chip8.Proofs.Bare.Parts
import Chip8.Proofs.Step

/-!
# Bare work does not panic

The work of an instruction on a bare machine goes on as the work of the same instruction on the
machine: both end with the same value or at the same fault, and the bare one never ends at a panic.
The two are put side by side piece by piece, in the order in which the pieces are carried out.

* `Bare.Follows` : a piece of bare work goes on as a piece of work does.
* `Bare.Follows.bind` : **one piece after the other.**
* `Bare.follows_execute` : **the work of every instruction.**
-/

namespace Chip8

namespace Bare

variable {α β : Type}

/-- How bare work ends where work ends in the given way. -/
def ending : EStateM.Result Fault Chip8.Execution α → EStateM.Result Stop Execution α
  | .ok a e => .ok a e.bare
  | .error f e => .error (.fault f) e.bare

/-- The bare work `b` goes on as the work `w` does, from every state. -/
def Follows (b : Work α) (w : Chip8.Work α) : Prop := ∀ e, b.run e.bare = ending (w.run e)

/-! ### Pieces of work -/

namespace Follows

theorem pure (a : α) : Follows (pure a) (pure a) := fun _ => rfl

section Bind

variable {b : Work α} {w : Chip8.Work α} {k : α → Work β} {l : α → Chip8.Work β}

/-- **One piece after the other.**  The second piece has to follow on the values that the first one
can have. -/
theorem bind_of (h : Follows b w)
    (hk : ∀ a e e', w.run e = .ok a e' → Follows (k a) (l a)) : Follows (b >>= k) (w >>= l) := by
  intro e
  rw [EStateM.run_bind, EStateM.run_bind, h e]
  cases hw : w.run e with
  | ok a e' => exact hk a e e' hw e'
  | error f e' => rfl

theorem bind (h : Follows b w) (hk : ∀ a, Follows (k a) (l a)) : Follows (b >>= k) (w >>= l) :=
  h.bind_of fun a _ _ _ => hk a

end Bind

theorem look {g : Machine → α} {f : Chip8.Machine → α} (h : ∀ m, g m.bare = f m) :
    Follows (Work.look g) (Chip8.Work.look f) := by
  intro e
  exact congrArg (EStateM.Result.ok · e.bare) (h e.machine)

theorem change {g : Machine → Machine} {f : Chip8.Machine → Chip8.Machine}
    (h : ∀ m, g m.bare = (f m).bare) : Follows (Work.change g) (Chip8.Work.change f) := by
  intro e
  exact congrArg (fun m => EStateM.Result.ok () { e.bare with machine := m }) (h e.machine)

theorem lead (flow : Flow) : Follows (Work.lead flow) (Chip8.Work.lead flow) := fun _ => rfl

theorem tell (effect : Effect) : Follows (Work.tell effect) (Chip8.Work.tell effect) :=
  fun _ => rfl

/-- Nothing follows on what is only looked at to log it. -/
theorem aside {b : Work β} {f : Chip8.Machine → α} {l : α → Chip8.Work β}
    (h : ∀ a, Follows b (l a)) : Follows b (Chip8.Work.look f >>= l) := fun e =>
  h (f e.machine) e

/-- Nothing follows on what is logged. -/
theorem note {b : Work α} {w : Chip8.Work α} (h : Follows b w) (entry : Log.Entry) :
    Follows b (Chip8.Work.note entry >>= fun _ => w) := fun e =>
  h { e with log := e.log ++ [entry] }

theorem changeRegisters {g : Registers → Registers} {f : Chip8.Registers → Chip8.Registers}
    (h : ∀ r, g r.bare = (f r).bare) :
    Follows (Work.changeRegisters g) (Chip8.Work.changeRegisters f) := by
  refine change fun m => ?_
  exact congrArg (fun r => { m.bare with registers := r }) (h m.registers)

end Follows

@[simp] theorem Work.run_look (f : Machine → α) (e : Execution) :
    (Work.look f).run e = .ok (f e.machine) e := rfl

theorem Work.run_demand {r : Except Panic α} {a : α} (h : r = .ok a) (e : Execution) :
    (Work.demand r).run e = .ok a e := by
  rw [h]
  rfl

theorem Work.run_demand_bind {r : Except Panic α} {a : α} (h : r = .ok a) (k : α → Work β)
    (e : Execution) : (Work.demand r >>= k).run e = (k a).run e := by
  rw [h]
  rfl

/-! ### Registers and the stack -/

section Registers

variable (x : Nibble)

theorem follows_register : Follows (Work.register x) (Chip8.Work.register x) := by
  intro e
  have hx : entry e.machine.registers.v.toList x = .ok (e.machine.registers.get x) := by
    rw [entry_eq (e.machine.registers.lt_length_toList x), Vector.getElem_toList]
    rfl
  exact Work.run_demand hx e.bare

theorem follows_setRegister (b : Byte) :
    Follows (Work.setRegister x b) (Chip8.Work.setRegister x b) := by
  intro e
  have hx : putEntry e.machine.registers.v.toList x b =
      .ok (e.machine.registers.set x b).v.toList := by
    rw [putEntry_eq (e.machine.registers.lt_length_toList x), Chip8.Registers.set,
      Vector.toList_set]
  exact Work.run_demand_bind hx _ e.bare

theorem follows_setFlag (c : Bool) : Follows (Work.setFlag c) (Chip8.Work.setFlag c) :=
  follows_setRegister Registers.flagRegister _

theorem follows_fillRegisters {bs : List Byte} (h : bs.length = x + 1) :
    Follows (Work.fillRegisters x bs) (Chip8.Work.changeRegisters (·.fill x bs)) := by
  intro e
  have hlen := e.machine.registers.lt_length_toList x
  have hx : within e.machine.registers.v.toList 0 (x + 1) (copy bs) =
      .ok (e.machine.registers.fill x bs).v.toList := by
    rw [within_eq (by omega) hlen fun block hb => copy_eq (hb.trans h.symm),
      Registers.toList_fill _ x bs h]
    rfl
  exact Work.run_demand_bind hx _ e.bare

theorem follows_index : Follows Work.index Chip8.Work.index := .look fun _ => rfl

theorem follows_setIndex (address : Nat) :
    Follows (Work.setIndex address) (Chip8.Work.setIndex address) := by
  refine .changeRegisters fun r => ?_
  rw [and_mask]
  rfl

theorem follows_put (c : Computed) : Follows (Work.put x c) (Chip8.Work.put x c) := by
  obtain ⟨value, _ | flag⟩ := c
  · exact follows_setRegister x value
  · exact .bind (follows_setFlag flag) fun _ => follows_setRegister x value

theorem follows_popStack : Follows Work.popStack Chip8.Work.popStack := by
  intro e
  have hp : pop e.bare.machine.registers.stack = _ := pop_eq e.machine.registers.stack
  simp only [Work.popStack, Chip8.Work.popStack, EStateM.run_bind, Work.run_look,
    Chip8.Work.run_look, hp]
  cases e.machine.registers.stack.pop <;> rfl

theorem follows_pushStack : Follows Work.pushStack Chip8.Work.pushStack := by
  intro e
  have hp : push e.bare.machine.registers.stack e.bare.machine.registers.pc = _ :=
    push_eq e.machine.registers.stack e.machine.registers.pc
  simp only [Work.pushStack, Chip8.Work.pushStack, EStateM.run_bind, Work.run_look,
    Chip8.Work.run_look, hp]
  cases e.machine.registers.stack.push e.machine.registers.pc <;> rfl

end Registers

/-! ### Memory and the devices -/

theorem follows_slice (a n : Nat) : Follows (Work.slice a n) (Chip8.Work.slice a n) := by
  intro e
  simp only [Work.slice, Chip8.Work.slice, EStateM.run_bind, Work.run_look, Chip8.Work.run_look]
  by_cases h : a + n ≤ Memory.size
  · have hp : part e.machine.memory.cells.toList a (a + n) = .ok _ :=
      part_eq (by omega) (by simpa using h)
    rw [stop, if_neg (by omega), Memory.slice_of_le e.machine.memory h]
    exact Work.run_demand hp e.bare
  · rw [stop, if_pos (by omega), Memory.slice, dif_neg h]
    rfl

theorem length_of_run_slice {a n : Nat} {bs : List Byte} {e e' : Chip8.Execution}
    (h : (Chip8.Work.slice a n).run e = .ok bs e') : bs.length = n := by
  simp only [Chip8.Work.slice, EStateM.run_bind, Chip8.Work.run_look] at h
  cases hs : e.machine.memory.slice a n with
  | error _ => rw [hs] at h; cases h
  | ok bs' =>
    rw [hs] at h
    cases h
    exact Memory.length_of_slice _ hs

theorem follows_changeSlice (a : Nat) (bs : List Byte) {f : List Byte → Except Panic (List Byte)}
    (hf : ∀ block, block.length = bs.length → f block = .ok bs) :
    Follows (Work.changeSlice a bs.length f) (Chip8.Work.replace a bs) := by
  intro e
  simp only [Work.changeSlice, Chip8.Work.replace, EStateM.run_bind, Work.run_look,
    Chip8.Work.run_look]
  by_cases h : a + bs.length ≤ Memory.size
  · have hp : within e.bare.machine.memory a (a + bs.length) f = _ :=
      within_blit e.machine.memory a h hf
    rw [stop, if_neg (by omega), Memory.replace, if_pos h]
    exact Work.run_demand_bind hp _ e.bare
  · rw [stop, if_pos (by omega), Memory.replace, if_neg h]
    rfl

theorem follows_storeRegisters (a : Nat) (x : Nibble) :
    Follows (Work.storeRegisters a x) (do
      let bs ← Chip8.Work.look (·.registers.upTo x)
      Chip8.Work.replace a bs) := by
  intro e
  have hlen := e.machine.registers.lt_length_toList x
  have hl : (e.machine.registers.upTo x).length = x + 1 := by
    rw [Chip8.Registers.upTo, List.length_take, Nat.min_eq_left hlen]
  have hp : part e.machine.registers.v.toList 0 (x + 1) = .ok (e.machine.registers.upTo x) :=
    part_eq (by omega) hlen
  have hs := follows_changeSlice a (e.machine.registers.upTo x)
    (f := fun block => do copy (← part e.machine.registers.v.toList 0 (x + 1)) block)
    fun block hb => by
      rw [hp]
      exact copy_eq hb
  rw [hl] at hs
  exact hs e

theorem follows_drawSprite (x y : Nat) (sprite : List Byte) :
    Follows (Work.drawSprite x y sprite) (Chip8.Work.drawSprite x y sprite) := by
  intro e
  have hd : drawRows x y 0 sprite { rows := e.bare.machine.screen } = _ :=
    drawRows_eq x y 0 sprite { screen := e.machine.screen }
  simp only [Work.drawSprite, EStateM.run_bind, Work.run_look, hd]
  rfl

theorem follows_randomByte : Follows Work.randomByte Chip8.Work.randomByte := fun _ => rfl

theorem follows_changeTimers (f : Timers → Timers) :
    Follows (Work.changeTimers f) (Chip8.Work.changeTimers f) := .change fun _ => rfl

theorem follows_test (c : Chip8.Condition) :
    Follows c.bare.test (Chip8.Work.look fun m => c.test m.registers m.keypad) := by
  intro e
  have hr : ∀ x : Nibble, (Work.register x).run e.bare = .ok (e.machine.registers.get x) e.bare :=
    fun x => follows_register x e
  cases c <;>
    simp only [Condition.bare, Condition.test, EStateM.run_bind, hr, Work.run_look,
      Chip8.Work.run_look] <;> rfl

/-! ### Instructions -/

/-- **The work of every instruction** goes on as bare work, and never ends at a panic. -/
theorem follows_execute (i : Chip8.Instruction) :
    Follows (execute i.bare) (Chip8.Work.execute i) := by
  cases i with
  | clearScreen =>
    refine .bind (.change fun m => ?_) fun _ => .tell .cleared
    exact congrArg (fun rows => { m.bare with screen := rows }) (clear_rows m.screen)
  | ret => exact .bind follows_popStack fun target => .note (.lead _) (.returned target)
  | jump nnn => exact .lead _
  | call nnn => exact .bind follows_pushStack fun _ => .aside fun _ => .note (.lead _) _
  | jumpOffset nnn => exact .bind (follows_register 0) fun _ => .lead _
  | skip c => exact .bind (follows_test c) fun _ => .lead _
  | setByte x nn => exact follows_setRegister x nn
  | addByte x nn => exact .bind (follows_register x) fun _ => follows_setRegister x _
  | combine op x y =>
    refine .bind (follows_register x) fun a => .bind (follows_register y) fun b => ?_
    rw [combine_eq]
    exact follows_put x _
  | shift d x =>
    refine .bind (follows_register x) fun a => ?_
    rw [shift_eq]
    exact follows_put x _
  | setIndex nnn => exact follows_setIndex _
  | addIndex x =>
    exact .bind follows_index fun _ => .bind (follows_register x) fun _ => follows_setIndex _
  | glyph x => exact .bind (follows_register x) fun _ => follows_setIndex _
  | random x nn => exact .bind follows_randomByte fun _ => follows_setRegister x _
  | draw x y n =>
    refine .bind follows_index fun i => .bind (follows_slice i n) fun sprite => ?_
    refine .bind (follows_register x) fun left => .bind (follows_register y) fun top => ?_
    refine .bind (follows_drawSprite _ _ sprite) fun collision => ?_
    exact .bind (follows_setFlag collision) fun _ => .tell .drawn
  | readDelay x => exact .bind (.look fun _ => rfl) fun _ => follows_setRegister x _
  | readKey x =>
    refine .bind (.look fun _ => rfl) fun key => ?_
    cases key with
    | none => exact .pure ()
    | some k => exact follows_setRegister x _
  | setDelay x => exact .bind (follows_register x) fun _ => follows_changeTimers _
  | setSound x => exact .bind (follows_register x) fun _ => follows_changeTimers _
  | storeDigits x =>
    refine .bind (follows_register x) fun b => .bind follows_index fun i => ?_
    refine follows_changeSlice i b.decimal fun block hb => ?_
    match block, hb with
    | [_, _, _], _ => rfl
  | store x =>
    exact .bind follows_index fun i =>
      .bind (follows_storeRegisters i x) fun _ => follows_setIndex _
  | load x =>
    refine .bind follows_index fun i => .bind_of (follows_slice i (x + 1)) fun bs e e' he => ?_
    exact .bind (follows_fillRegisters x (length_of_run_slice he)) fun _ => follows_setIndex _
  | unknown w => exact .note (.tell _) _

-- no word has this operand
example :
    (execute (.setByte 16 0)).run { machine := .boot "" [] {} .zeros } matches
      .error (.panic (.index 16 16)) _ := rfl

end Bare

end Chip8
