import Chip8.Proofs.History
import Chip8.Proofs.Step

/-!
# Calls and returns

The call stack is told from what happened: from the calls and returns that succeeded since the
program was started, with each return matched to the latest call that no return has been matched to.

* `Bracket` : a call or a return that succeeded.
* `Bracket.depth` : the calls under way after some of them.
* `Bracket.unmatched` : the calls that no later return is matched to, found by looking ahead from
  each call for its return. `Bracket.unmatched_append_call` and `Bracket.unmatched_append_ret` say
  that it can be kept up as a stack.
* `Machine.bracket`, `Machine.brackets` : what a step does, and what has been done since the start
  of the program.
* `Machine.stack_of_step` : a step pushes, pops or leaves the stack alone, as its bracket says.
* `Machine.stack_eq_unmatched` : **the stack holds the addresses behind the unmatched calls**, and a
  return leads behind the call that it is matched to.
-/

namespace Chip8

/-- A call or a return that succeeded. -/
inductive Bracket where
  /-- The `2NNN` at an address. -/
  | call (address : Nat)
  /-- A `00EE`. -/
  | ret
  deriving DecidableEq, Repr

namespace Bracket

/-- The calls under way after a number of calls and returns, of `d` that were under way before;
none when a return ends a call that was not under way. -/
def depth : Nat → List Bracket → Option Nat
  | d, [] => some d
  | d, call _ :: trace => depth (d + 1) trace
  | 0, ret :: _ => none
  | d + 1, ret :: trace => depth d trace

/-- The addresses of the calls that no later return is matched to. The return for a call is the
first one behind it that has a return for every call between them. -/
def unmatched : List Bracket → List Nat
  | [] => []
  | call a :: trace => if depth 0 trace = none then unmatched trace else a :: unmatched trace
  | ret :: trace => unmatched trace

variable {trace : List Bracket}

theorem depth_append (d : Nat) (trace rest : List Bracket) :
    depth d (trace ++ rest) = (depth d trace).bind (depth · rest) := by
  fun_induction depth d trace with
  | case1 d => rfl
  | case2 d a trace ih => rw [List.cons_append, depth, ih]
  | case3 trace => rfl
  | case4 d trace ih => rw [List.cons_append, depth, ih]

/-- A number of calls and returns ends some of the calls before them, and leaves its own unmatched
calls under way. -/
theorem depth_eq (trace : List Bracket) :
    ∃ ended, ∀ d, depth d trace =
      if d < ended then none else some (d - ended + (unmatched trace).length) := by
  induction trace with
  | nil => exact ⟨0, fun d => rfl⟩
  | cons b trace ih =>
    obtain ⟨ended, h⟩ := ih
    cases b with
    | ret =>
      refine ⟨ended + 1, fun d => ?_⟩
      cases d with
      | zero => rfl
      | succ d => simp only [depth, unmatched, h, Nat.succ_lt_succ_iff, Nat.succ_sub_succ_eq_sub]
    | call a =>
      cases ended with
      | zero =>
        -- nothing behind the call ends it
        have hopen : depth 0 trace ≠ none := by simp [h]
        have hu : unmatched (call a :: trace) = a :: unmatched trace := if_neg hopen
        refine ⟨0, fun d => ?_⟩
        simp only [depth, hu, h, Nat.not_lt_zero, if_false, List.length_cons]
        congr 1
        omega
      | succ ended =>
        have hended : depth 0 trace = none := by simp [h]
        have hu : unmatched (call a :: trace) = unmatched trace := if_pos hended
        refine ⟨ended, fun d => ?_⟩
        simp only [depth, hu, h, Nat.succ_lt_succ_iff, Nat.succ_sub_succ_eq_sub]

theorem length_unmatched {k : Nat} (h : depth 0 trace = some k) : (unmatched trace).length = k := by
  obtain ⟨ended, hd⟩ := depth_eq trace
  rw [hd] at h
  split at h
  · cases h
  · cases h
    omega

/-- A call is unmatched until a return comes. -/
theorem unmatched_append_call (trace : List Bracket) (a : Nat) :
    unmatched (trace ++ [call a]) = unmatched trace ++ [a] := by
  induction trace with
  | nil => rfl
  | cons b trace ih =>
    cases b with
    | ret => exact ih
    | call a' =>
      have hd : depth 0 (trace ++ [call a]) = none ↔ depth 0 trace = none := by
        rw [depth_append]
        cases depth 0 trace <;> simp [depth]
      by_cases hn : depth 0 trace = none
      · simp only [List.cons_append, unmatched, if_pos hn, if_pos (hd.2 hn), ih]
      · simp only [List.cons_append, unmatched, if_neg hn, if_neg (mt hd.1 hn), ih]

/-- A return is matched to the latest of the unmatched calls. -/
theorem unmatched_append_ret (trace : List Bracket) :
    unmatched (trace ++ [ret]) = (unmatched trace).dropLast := by
  induction trace with
  | nil => rfl
  | cons b trace ih =>
    cases b with
    | ret => exact ih
    | call a =>
      have hd : depth 0 (trace ++ [ret]) = (depth 0 trace).bind (depth · [ret]) :=
        depth_append ..
      cases hk : depth 0 trace with
      | none =>
        rw [hk] at hd
        simp only [List.cons_append, unmatched, hk, show depth 0 (trace ++ [ret]) = none from hd,
          if_true, ih]
      | some k =>
        have hlen := length_unmatched hk
        rw [hk] at hd
        cases k with
        | zero =>
          -- the return is that of the call itself
          have hnil : unmatched trace = [] := List.length_eq_zero_iff.1 hlen
          simp only [List.cons_append, unmatched, hk, show depth 0 (trace ++ [ret]) = none from hd,
            if_true, ih, hnil, reduceCtorEq, if_false, List.dropLast_nil, List.dropLast_singleton]
        | succ k =>
          have hne : unmatched trace ≠ [] := by
            intro hnil
            rw [hnil] at hlen
            cases hlen
          simp only [List.cons_append, unmatched, hk,
            show depth 0 (trace ++ [ret]) = some k from hd, reduceCtorEq, if_false, ih,
            List.dropLast_cons_of_ne_nil hne]

/-- Between the latest unmatched call and the end, every call has its return. -/
theorem exists_of_unmatched_concat {rest : List Nat} {a : Nat}
    (h : unmatched trace = rest ++ [a]) :
    ∃ before inside, trace = before ++ call a :: inside ∧ depth 0 inside = some 0 := by
  induction trace generalizing rest with
  | nil => cases rest <;> cases h
  | cons b trace ih =>
    have hlater : ∀ {rest}, unmatched trace = rest ++ [a] →
        ∃ before inside, b :: trace = before ++ call a :: inside ∧ depth 0 inside = some 0 := by
      intro rest hrest
      obtain ⟨before, inside, rfl, hd⟩ := ih hrest
      exact ⟨b :: before, inside, rfl, hd⟩
    cases b with
    | ret => exact hlater h
    | call a' =>
      rw [unmatched] at h
      cases hk : depth 0 trace with
      | none => exact hlater (by simpa only [hk, if_true] using h)
      | some k =>
        simp only [hk, reduceCtorEq, if_false] at h
        cases rest with
        | cons a'' rest =>
          rw [List.cons_append] at h
          exact hlater (List.cons.inj h).2
        | nil =>
          -- the call is the only one under way
          obtain ⟨rfl, hnil⟩ := List.cons.inj h
          have hzero : k = 0 := by rw [← length_unmatched hk, hnil]; rfl
          exact ⟨[], trace, rfl, hzero ▸ hk⟩

end Bracket

/-- What an instruction at address `pc` is for the call stack. -/
def Instruction.bracket (pc : Nat) : Instruction → Option Bracket
  | .call _ => some (.call pc)
  | .ret => some .ret
  | _ => none

namespace Machine

/-- The call or the return that the next step makes and that succeeds. A call that overflows and a
return that underflows are neither, passed over or not. -/
def bracket (m : Machine) : Option Bracket :=
  match m.memory.fetch m.registers.pc, m.step.result with
  | .ok w, .ok .none => (Instruction.ofWord w).bracket m.registers.pc
  | _, _ => none

/-- The calls and returns since the start of the program, after any requests. -/
def brackets (m : Machine) (trace : List Bracket) (commands : List Command) : List Bracket :=
  m.history (·.bracket.toList) trace commands

variable {m : Machine}

/-! ### One step -/

theorem bracket_of_executed {w : Word} {e : Execution} (hm : m.halted = none)
    (hf : m.memory.fetch m.registers.pc = .ok w)
    (hx : (m.fetched w).execute (.ofWord w) = .ok e) :
    m.bracket = (Instruction.ofWord w).bracket m.registers.pc := by
  have hr : m.step.result = .ok (Instruction.ofWord w).effect := by
    rw [step_of_executed hm hf hx, ← effect_of_execute hx]
    rfl
  cases hi : Instruction.ofWord w <;>
    simp only [bracket, hf, hr, hi, Instruction.effect, Instruction.bracket]

theorem bracket_eq_none (h : m.step.result ≠ .ok .none) : m.bracket = none := by
  unfold bracket
  split
  · exact absurd ‹_› h
  · rfl

/-- Only calls and returns write the stack. -/
theorem stack_of_execute {i : Instruction} {e : Execution} (h : m.execute i = .ok e)
    (hb : ∀ pc, i.bracket pc = none) : e.machine.registers.stack = m.registers.stack := by
  cases executed_of_execute h with
  | ret => cases hb 0
  | call => cases hb 0
  | combine => exact stack_put ..
  | shift => exact stack_put ..
  | load => simp only [Registers.passBlock, Registers.setIndex, Registers.stack_fill]
  | _ => rfl

/-- What a step does to the stack, by what it is for the stack. -/
structure Bracketed (m n : Machine) : Prop where
  /-- A call puts the address behind itself on the stack. -/
  call : ∀ a, m.bracket = some (.call a) →
    n.registers.stack.toList = m.registers.stack.toList ++ [a + 2]
  /-- A return takes the latest address off the stack and leads there. -/
  ret : m.bracket = some .ret →
    m.registers.stack.toList = n.registers.stack.toList ++ [n.registers.pc]
  /-- All else leaves the stack as it is. -/
  none : m.bracket = none → n.registers.stack = m.registers.stack

theorem stack_of_step (m : Machine) : m.Bracketed m.step.machine := by
  have hnone : ∀ {n : Machine}, m.bracket = none → n.registers.stack = m.registers.stack →
      m.Bracketed n := by
    intro n hb hn
    exact ⟨fun a h => by simp [hb] at h, fun h => by simp [hb] at h, fun _ => hn⟩
  generalize hr : m.step = reply
  cases hr ▸ m.stepCase with
  | halted => exact hnone (bracket_eq_none (by rw [hr]; simp)) rfl
  | unfetched => exact hnone (bracket_eq_none (by rw [hr]; simp [halt])) rfl
  | @faulted w f hm hf hx =>
    -- under either policy the stack is that of the fetched machine
    refine hnone (bracket_eq_none ?_) ?_
    · rw [hr]
      simp only [afterFault, settle_eq, halt]
      split <;> simp
    · simp only [afterFault, settle_eq, halt]
      split <;> rfl
  | @executed w e hm hf hx =>
    have hb := bracket_of_executed hm hf hx
    cases hi : Instruction.ofWord w with
    | call nnn =>
      rw [hi] at hb hx
      cases executed_of_execute hx with
      | call hp =>
        refine ⟨fun a ha => ?_, fun h => by simp [hb, Instruction.bracket] at h,
          fun h => by simp [hb, Instruction.bracket] at h⟩
        rw [hb] at ha
        cases ha
        exact CallStack.toList_push hp
    | ret =>
      rw [hi] at hb hx
      cases executed_of_execute hx with
      | ret hp =>
        refine ⟨fun a h => by simp [hb, Instruction.bracket] at h, fun _ => ?_,
          fun h => by simp [hb, Instruction.bracket] at h⟩
        exact CallStack.toList_pop hp
    | _ =>
      rw [hi] at hb hx
      exact hnone hb (stack_of_execute (m := m.fetched w) hx fun _ => rfl)

/-! ### Runs -/

/-- The stack holds the addresses behind the unmatched calls of `trace`. -/
def Follows (m : Machine) (trace : List Bracket) : Prop :=
  m.registers.stack.toList = (Bracket.unmatched trace).map (· + 2)

variable {trace : List Bracket}

theorem Follows.step (h : m.Follows trace) :
    m.step.machine.Follows (trace ++ m.bracket.toList) := by
  have hstack := m.stack_of_step
  unfold Follows at h ⊢
  cases hb : m.bracket with
  | none =>
    rw [hstack.none hb, Option.toList_none, List.append_nil]
    exact h
  | some b =>
    cases b with
    | call a =>
      rw [hstack.call a hb, h, Option.toList_some, Bracket.unmatched_append_call, List.map_append]
      rfl
    | ret =>
      rw [hstack.ret hb] at h
      rw [Option.toList_some, Bracket.unmatched_append_ret, List.map_dropLast, ← h,
        List.dropLast_concat]

theorem Follows.performAll (h : m.Follows trace) (commands : List Command) :
    (m.performAll commands).machine.Follows (m.brackets trace commands) :=
  performAll_history (fun _ _ h => h.step) (fun _ _ _ _ _ h => h) (fun _ => rfl) h commands

/-- **Calls and returns are well bracketed.**  After any requests to a new machine, the call stack,
the oldest entry first, holds the addresses behind those calls that have succeeded since the latest
start of the program and that no return has been matched to. A return that succeeds leads behind the
call it is matched to: all calls between the two have their returns between them. Every step but a
call or a return that succeeds leaves the stack as it is. -/
theorem stack_eq_unmatched {rom : Rom} {config : Config} {environment : Nat → Byte} {log : Log}
    (hnew : Machine.new rom config environment = .ok (m, log)) (commands : List Command) :
    let n := (m.performAll commands).machine
    let trace := m.brackets [] commands
    n.registers.stack.toList = (Bracket.unmatched trace).map (· + 2) ∧
      (n.bracket = some .ret → ∃ before a inside, trace = before ++ .call a :: inside ∧
        Bracket.depth 0 inside = some 0 ∧ n.step.machine.registers.pc = a + 2) ∧
      (n.bracket = none → n.step.machine.registers.stack = n.registers.stack) := by
  intro n trace
  have hstart : m.Follows [] := by
    obtain ⟨image, -, rfl⟩ := boot_of_new hnew
    rfl
  have hn : n.Follows trace := hstart.performAll commands
  refine ⟨hn, fun hret => ?_, n.stack_of_step.none⟩
  -- the entry that the return takes off the stack is the one of the latest unmatched call
  have htop : (Bracket.unmatched trace).map (· + 2) =
      n.step.machine.registers.stack.toList ++ [n.step.machine.registers.pc] :=
    hn.symm.trans (n.stack_of_step.ret hret)
  obtain ⟨rest, last, hunmatched, -, hlast⟩ := List.map_eq_append_iff.1 htop
  obtain ⟨a, rfl, ha⟩ := List.map_eq_singleton_iff.1 hlast
  obtain ⟨before, inside, htrace, hinside⟩ := Bracket.exists_of_unmatched_concat hunmatched
  exact ⟨before, a, inside, htrace, hinside, ha.symm⟩

/-- A machine whose program calls a subroutine that returns at once. -/
def calling : Machine :=
  .boot "" (Memory.initial.blit Memory.origin [0x22, 0x04, 0x00, 0xE0, 0x00, 0xEE]) {} .zeros

/-- One call, and the return to it. -/
theorem stack_eq_unmatched_calling :
    Machine.new ⟨"", [0x22, 0x04, 0x00, 0xE0, 0x00, 0xEE]⟩ {} = .ok (calling, [.loaded "" 6]) ∧
      calling.brackets [] [.step] = [.call 0x200] ∧
      (calling.performAll [.step]).machine.registers.stack.toList = [0x202] ∧
      (calling.performAll [.step]).machine.bracket = some .ret ∧
      (calling.performAll [.step]).machine.step.machine.registers.pc = 0x202 := by
  have hnew : Machine.new ⟨"", [0x22, 0x04, 0x00, 0xE0, 0x00, 0xEE]⟩ {} =
      .ok (calling, [.loaded "" 6]) := rfl
  have h₀ : calling.memory.fetch 0x200 = .ok 0x2204 :=
    (fetch_of_new hnew (k := 0) (by decide)).trans rfl
  have h₄ : calling.memory.fetch 0x204 = .ok 0x00EE :=
    (fetch_of_new hnew (k := 4) (by decide)).trans rfl
  have hx : (calling.fetched 0x2204).execute (.ofWord 0x2204) = .ok _ := rfl
  have hs := step_of_executed rfl h₀ hx
  have htrace : calling.brackets [] [.step] = [.call 0x200] := by
    simp only [brackets, history, remember, bracket_of_executed rfl h₀ hx]
    rfl
  have hret : (calling.performAll [.step]).machine.bracket = some .ret := by
    simp only [performAll, perform, hs]
    exact bracket_of_executed (w := 0x00EE) rfl h₄ rfl
  obtain ⟨hstack, hback, -⟩ := stack_eq_unmatched hnew [.step]
  rw [htrace] at hstack
  obtain ⟨before, a, inside, hcall, -, hpc⟩ := hback hret
  refine ⟨hnew, htrace, hstack, hret, ?_⟩
  rw [htrace] at hcall
  cases before with
  | nil => cases hcall; exact hpc
  | cons b before => simp at hcall

end Machine

end Chip8
