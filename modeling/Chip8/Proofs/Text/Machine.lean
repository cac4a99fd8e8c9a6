import Chip8.Proofs.Text.Tiling

/-!
# Reading a machine back

The text of a machine tells everything that it shows, although the name of a program can be any
text, with ends of lines behind which it looks like the rest. It is read from its end.

* `Fault.words`, `Machine.status`, `Machine.rest` : the words of all lines behind the name.
* `Machine.eq_of_text` : these lines, read from the end, and the name in front of them.
* `Machine.text_tells_state` : **the text tells the name, the registers, the timers, the fault and
  every cell.**
-/

namespace Chip8

open Text

/-! ### Faults -/

/-- The words of the line about a fault. -/
def Fault.words : Fault → List String
  | .memory (.outOfBounds a) =>
    ["Halted:", "Invalid", "memory", "access", "'Memory", "address"] ++ Hex.word a ::
      ["is", "out", "of", "bounds.'."]
  | .stack .overflow => ["Halted:", "Invalid", "stack", "state", "'Stack", "is", "full!'."]
  | .stack .underflow => ["Halted:", "Invalid", "stack", "state", "'Stack", "is", "empty!'."]

theorem Fault.line_words (f : Fault) : line f.words = "Halted: " ++ (Error.fault f).message := by
  rcases f with ⟨⟨a⟩⟩ | ⟨_ | _⟩
  · have hfront : line ["Halted:", "Invalid", "memory", "access", "'Memory", "address"] ++ " " =
        "Halted: " ++ ("Invalid memory access '" ++ "Memory address ") := rfl
    have hback : line (Hex.word a :: ["is", "out", "of", "bounds.'."]) =
        Hex.word a ++ (" is out of bounds." ++ "'.") :=
      String.intercalate_cons_cons.trans String.append_assoc
    calc line (words (.memory (.outOfBounds a)))
      _ = line ["Halted:", "Invalid", "memory", "access", "'Memory", "address"] ++ " " ++
            line (Hex.word a :: ["is", "out", "of", "bounds.'."]) :=
          String.intercalate_append_of_ne_nil (List.cons_ne_nil _ _) (List.cons_ne_nil _ _)
      _ = "Halted: " ++ ("Invalid memory access '" ++ "Memory address ") ++
            (Hex.word a ++ (" is out of bounds." ++ "'.")) := by rw [hfront, hback]
      _ = "Halted: " ++ ("Invalid memory access '" ++
            ("Memory address " ++ Hex.word a ++ " is out of bounds.") ++ "'.") := by
          simp only [String.append_assoc]
  · rfl
  · rfl

theorem Fault.isLine_words (f : Fault) : IsLine f.words := by
  rcases f with ⟨⟨a⟩⟩ | ⟨_ | _⟩
  · have hfront : ∀ w ∈ ["Halted:", "Invalid", "memory", "access", "'Memory", "address"],
        IsWord w := by decide
    have hback : ∀ w ∈ ["is", "out", "of", "bounds.'."], IsWord w := by decide
    refine ⟨List.cons_ne_nil _ _, List.forall_mem_append.2 ⟨hfront, ?_⟩⟩
    exact List.forall_mem_cons.2 ⟨isWord_hex 4 a, hback⟩
  · exact ⟨List.cons_ne_nil _ _, by decide⟩
  · exact ⟨List.cons_ne_nil _ _, by decide⟩

theorem Fault.words_inj {f g : Fault} : f.words = g.words ↔ f = g := by
  constructor
  · intro h
    rcases f with ⟨⟨a⟩⟩ | ⟨_ | _⟩ <;> rcases g with ⟨⟨b⟩⟩ | ⟨_ | _⟩ <;>
      simp_all [words, Hex.word_inj]
  · rintro rfl
    rfl

namespace Machine

/-! ### The lines behind the name -/

section Lines

variable (m : Machine)

/-- The words of the lines about the registers and the timers. -/
def status : List (List String) :=
  [["PC:", Hex.word m.registers.pc, "I:", Hex.word m.registers.index.toNat, "Opcode:",
      Hex.word m.opcode.toNat],
    ["Delay:", Hex.byte m.timers.delay, "Sound:", Hex.byte m.timers.sound],
    "V0-V7:" :: (m.registers.v.toList.take 8).map Hex.byte,
    "V8-VF:" :: (m.registers.v.toList.drop 8).map Hex.byte,
    "Stack:" :: m.registers.stack.toList.map Hex.word]

/-- The words of the line about the fault, if there was one. -/
def haltedWords : List (List String) := (m.halted.map Fault.words).toList

/-- The words of all lines behind the name. -/
def rest : List (List String) :=
  m.status ++ m.haltedWords ++ ["Memory:"] :: m.memory.dump.map (·.words)

theorem registerLine_zero :
    m.registerLine 0 = line ("V0-V7:" :: (m.registers.v.toList.take 8).map Hex.byte) := by
  have hfront : "V" ++ String.ofList (Hex.digits 0) ++ "-V" ++ String.ofList (Hex.digits 7) ++
      ":" = "V0-V7:" := by
    simp [Hex.digits, Hex.digit]
  rw [registerLine, hfront, line_cons, List.drop_zero]

theorem registerLine_eight :
    m.registerLine 8 = line ("V8-VF:" :: (m.registers.v.toList.drop 8).map Hex.byte) := by
  have hfront : "V" ++ String.ofList (Hex.digits 8) ++ "-V" ++ String.ofList (Hex.digits 15) ++
      ":" = "V8-VF:" := by
    simp [Hex.digits, Hex.digit]
  have hlength : (m.registers.v.toList.drop 8).length ≤ 8 := by simp [Registers.count]
  rw [registerLine, hfront, line_cons, List.take_of_length_le hlength]

theorem lines_eq : m.lines = ("Rom: " ++ m.name) :: m.rest.map line := by
  have hpc : "PC: " ++ Hex.word m.registers.pc ++ " I: " ++ Hex.word m.registers.index.toNat ++
      " Opcode: " ++ Hex.word m.opcode.toNat = line ["PC:", Hex.word m.registers.pc, "I:",
        Hex.word m.registers.index.toNat, "Opcode:", Hex.word m.opcode.toNat] := by
    have hi : (" I: " : String) = " " ++ "I:" ++ " " := rfl
    have hopcode : (" Opcode: " : String) = " " ++ "Opcode:" ++ " " := rfl
    have hfront : ("PC: " : String) = "PC:" ++ " " := rfl
    simp only [hi, hopcode, hfront, line_cons, spaced_cons, spaced_nil, String.append_assoc,
      String.append_empty]
  have htimers : "Delay: " ++ Hex.byte m.timers.delay ++ " Sound: " ++ Hex.byte m.timers.sound =
      line ["Delay:", Hex.byte m.timers.delay, "Sound:", Hex.byte m.timers.sound] := by
    have hsound : (" Sound: " : String) = " " ++ "Sound:" ++ " " := rfl
    have hfront : ("Delay: " : String) = "Delay:" ++ " " := rfl
    simp only [hsound, hfront, line_cons, spaced_cons, spaced_nil, String.append_assoc,
      String.append_empty]
  have hhalted : m.haltedLine = m.haltedWords.map line := by
    unfold haltedLine haltedWords
    cases m.halted with
    | none => rfl
    | some f => exact congrArg (fun l => [l]) f.line_words.symm
  have hdump : m.memory.dump.map (·.text) = (m.memory.dump.map (·.words)).map line := by
    simp only [Dump.Line.text_eq, List.map_map, Function.comp_def]
  have hmemory : line ["Memory:"] = "Memory:" := rfl
  simp only [lines, rest, status, hpc, htimers, registerLine_zero, registerLine_eight, hhalted,
    hdump, hmemory, ← line_cons, List.map_append, List.map_cons, List.append_assoc,
    List.cons_append, List.nil_append]

theorem isLine_of_mem_rest : ∀ words ∈ m.rest, IsLine words := by
  have hhex (n : Nat) : IsWord (Hex.word n) := isWord_hex 4 n
  have hbyte (b : Byte) : IsWord (Hex.byte b) := isWord_hex 2 _
  have hstatus : ∀ words ∈ m.status, IsLine words := by
    have hfronts : ∀ w ∈ ["PC:", "I:", "Opcode:", "Delay:", "Sound:", "V0-V7:", "V8-VF:", "Stack:"],
        IsWord w := by decide
    simp only [List.forall_mem_cons] at hfronts
    simp only [status, isLine_cons, List.forall_mem_cons, List.forall_mem_map, hfronts, hhex, hbyte]
    simp
  have hhalted : ∀ words ∈ m.haltedWords, IsLine words := by
    unfold haltedWords
    cases m.halted with
    | none => exact nofun
    | some f => exact List.forall_mem_singleton.2 f.isLine_words
  have hmemory : IsLine ["Memory:"] := ⟨List.cons_ne_nil _ _, by decide⟩
  simp only [rest, List.forall_mem_append, List.forall_mem_cons, List.forall_mem_map]
  exact ⟨⟨hstatus, hhalted⟩, hmemory, fun l _ => l.isLine_words⟩

theorem pieces_text : pieces m.text = pieces ("Rom: " ++ m.name) ++ m.rest.map line ++ [""] := by
  rw [text, lines_eq]
  refine pieces_lines _ fun l hl => ?_
  obtain ⟨words, hwords, rfl⟩ := List.mem_map.1 hl
  exact newline_notMem_line (m.isLine_of_mem_rest words hwords)

end Lines

/-! ### Reading from the end -/

variable {m n : Machine}

/-- No line of a dump looks like the line in front of the dump. -/
theorem memory_notMem_dump (m : Machine) :
    line ["Memory:"] ∉ (m.memory.dump.map (·.words)).map line := by
  intro h
  simp only [List.map_map, List.mem_map, Function.comp_apply] at h
  obtain ⟨l, -, hl⟩ := h
  have hwords := (line_inj l.isLine_words ⟨List.cons_ne_nil _ _, by decide⟩).1 hl
  have hlength : l.words.length = 1 := congrArg List.length hwords
  cases l <;> simp [Dump.Line.words] at hlength

/-- The line about the stack does not look like one about a fault. -/
theorem stack_ne_halted (stack : List Nat) (f : Fault) :
    line ("Stack:" :: stack.map Hex.word) ≠ line f.words := by
  intro h
  have hstack : IsLine ("Stack:" :: stack.map Hex.word) :=
    isLine_cons.2 ⟨by decide, List.forall_mem_map.2 fun a _ => isWord_hex 4 a⟩
  have hwords := (line_inj hstack f.isLine_words).1 h
  rcases f with ⟨⟨a⟩⟩ | ⟨_ | _⟩ <;> exact absurd (List.cons.inj hwords).1 (by decide)

/-- Of the lines in front of the dump, the last tells whether there was a fault. -/
theorem length_haltedWords_eq {xs ys : List String}
    (h : xs ++ (m.status ++ m.haltedWords).map line = ys ++ (n.status ++ n.haltedWords).map line) :
    m.haltedWords.length = n.haltedWords.length := by
  have hlast := congrArg List.getLast? h
  cases hm : m.halted with
  | none =>
    cases hn : n.halted with
    | none => rw [haltedWords, haltedWords, hm, hn]
    | some g =>
      have hline : line ("Stack:" :: m.registers.stack.toList.map Hex.word) = line g.words := by
        simpa [status, haltedWords, hm, hn] using hlast
      exact absurd hline (stack_ne_halted _ g)
  | some f =>
    cases hn : n.halted with
    | none =>
      have hline : line f.words = line ("Stack:" :: n.registers.stack.toList.map Hex.word) := by
        simpa [status, haltedWords, hm, hn] using hlast
      exact absurd hline.symm (stack_ne_halted _ f)
    | some g =>
      rw [haltedWords, haltedWords, hm, hn]
      rfl

/-- The text, read from its end. -/
theorem eq_of_text (h : m.text = n.text) :
    m.name = n.name ∧ m.status = n.status ∧ m.haltedWords = n.haltedWords ∧
      m.memory.dump = n.memory.dump := by
  have hpieces : pieces ("Rom: " ++ m.name) ++ m.rest.map line =
      pieces ("Rom: " ++ n.name) ++ n.rest.map line := by
    have htext := congrArg pieces h
    rw [pieces_text, pieces_text] at htext
    exact List.append_cancel_right htext
  have hrest (m : Machine) : m.rest.map line = (m.status ++ m.haltedWords).map line ++
      line ["Memory:"] :: (m.memory.dump.map (·.words)).map line := List.map_append
  rw [hrest, hrest, ← List.append_assoc, ← List.append_assoc] at hpieces
  obtain ⟨hfront, hdump⟩ :=
    (append_cons_inj_of_notMem m.memory_notMem_dump n.memory_notMem_dump).1 hpieces
  have hlength : ((m.status ++ m.haltedWords).map line).length =
      ((n.status ++ n.haltedWords).map line).length := by
    simp only [List.length_map, List.length_append, length_haltedWords_eq hfront]
    rfl
  obtain ⟨hname, hlines⟩ := List.append_inj' hfront hlength
  have hname : m.name = n.name := (String.append_right_inj _).1 (pieces_inj.1 hname)
  have hwords : m.status ++ m.haltedWords = n.status ++ n.haltedWords := by
    refine (map_line_inj (fun words hw => ?_) fun words hw => ?_).1 hlines
    · exact m.isLine_of_mem_rest words (List.mem_append_left _ hw)
    · exact n.isLine_of_mem_rest words (List.mem_append_left _ hw)
  obtain ⟨hstatus, hhalted⟩ := List.append_inj hwords rfl
  have hdump : m.memory.dump = n.memory.dump := by
    have hlines (m : Machine) : ∀ words ∈ m.memory.dump.map (·.words), IsLine words :=
      List.forall_mem_map.2 fun l _ => l.isLine_words
    have hwords := (map_line_inj (hlines m) (hlines n)).1 hdump
    exact (List.map_inj_right fun _ _ => Dump.Line.words_inj.1).1 hwords
  exact ⟨hname, hstatus, hhalted, hdump⟩

/-- The lines about the registers and the timers tell them. -/
theorem status_inj : m.status = n.status ↔
    m.registers = n.registers ∧ m.opcode = n.opcode ∧ m.timers = n.timers := by
  constructor
  · intro h
    have hbytes {bs cs : List Byte} : bs.map Hex.byte = cs.map Hex.byte ↔ bs = cs :=
      List.map_inj_right fun _ _ => Hex.byte_inj.1
    have hwords {as bs : List Nat} : as.map Hex.word = bs.map Hex.word ↔ as = bs :=
      List.map_inj_right fun _ _ => Hex.word_inj.1
    simp only [status, List.cons.injEq, Hex.word_inj, Hex.byte_inj, BitVec.toNat_inj, hbytes,
      hwords, true_and, and_true] at h
    obtain ⟨⟨hpc, hindex, hopcode⟩, ⟨hdelay, hsound⟩, hlow, hhigh, hstack⟩ := h
    have hv : m.registers.v = n.registers.v := by
      apply Vector.toList_inj.1
      rw [← List.take_append_drop 8 m.registers.v.toList, hlow, hhigh, List.take_append_drop]
    have hregisters : m.registers = n.registers := by
      change Registers.mk .. = Registers.mk ..
      rw [hv, hindex, hpc, CallStack.toList_inj.1 hstack]
    have htimers : m.timers = n.timers := by
      change Timers.mk .. = Timers.mk ..
      rw [hdelay, hsound]
    exact ⟨hregisters, hopcode, htimers⟩
  · rintro ⟨hregisters, hopcode, htimers⟩
    rw [status, status, hregisters, hopcode, htimers]

theorem haltedWords_inj : m.haltedWords = n.haltedWords ↔ m.halted = n.halted := by
  constructor
  · intro h
    unfold haltedWords at h
    cases hm : m.halted with
    | none =>
      cases hn : n.halted with
      | none => rfl
      | some g => simp [hm, hn] at h
    | some f =>
      cases hn : n.halted with
      | none => simp [hm, hn] at h
      | some g =>
        have hwords : f.words = g.words := by simpa [hm, hn] using h
        rw [Fault.words_inj.1 hwords]
  · intro h
    rw [haltedWords, haltedWords, h]

/-- **The text of a machine tells everything that it shows**: two machines with the same text agree
on it, and the rows of a dump that are drawn together hold zeros only. -/
theorem text_tells_state (m n : Machine) :
    (m.text = n.text ↔
      m.name = n.name ∧ m.registers = n.registers ∧ m.opcode = n.opcode ∧ m.timers = n.timers ∧
        m.halted = n.halted ∧ m.memory = n.memory) ∧
      ∀ start stop a, .gap start stop ∈ m.memory.dump → start ≤ a → a ≤ stop →
        m.memory.cell a = 0 := by
  refine ⟨⟨?_, ?_⟩, fun start stop a => Memory.cell_of_gap⟩
  · intro h
    obtain ⟨hname, hstatus, hhalted, hdump⟩ := eq_of_text h
    obtain ⟨hregisters, hopcode, htimers⟩ := status_inj.1 hstatus
    exact ⟨hname, hregisters, hopcode, htimers, haltedWords_inj.1 hhalted, Memory.dump_inj.1 hdump⟩
  · rintro ⟨hname, hregisters, hopcode, htimers, hhalted, hmemory⟩
    simp only [text, lines, registerLine, haltedLine, hname, hregisters, hopcode, htimers, hhalted,
      hmemory]

/-- A machine whose memory holds zeros. -/
def idle : Machine := boot "" ⟨.replicate Memory.size 0⟩ {} .zeros

/-- The whole memory of `idle` is drawn together; with a byte in it, the text is another one. -/
theorem text_tells_state_idle :
    .gap 0x000 0xFFF ∈ idle.memory.dump ∧ idle.memory.cell 0x800 = 0 ∧
      idle.text ≠ { idle with memory := idle.memory.blit 0x800 [1] }.text := by
  have hgap : .gap 0x000 0xFFF ∈ idle.memory.dump := by
    rw [show idle.memory = ⟨.replicate Memory.size 0⟩ from rfl, Memory.dump_zeros]
    exact List.mem_cons_self
  have hzero : idle.memory.cell 0x800 = 0 :=
    (text_tells_state idle idle).2 0x000 0xFFF 0x800 hgap (by decide) (by decide)
  refine ⟨hgap, hzero, fun h => ?_⟩
  obtain ⟨-, -, -, -, -, hmemory⟩ := (text_tells_state idle _).1.1 h
  have hcell : (idle.memory.blit 0x800 [1]).cell 0x800 = 1 := by
    rw [Memory.cell, Memory.getElem?_blit, if_pos (by decide)]
    rfl
  have hsame : idle.memory.cell 0x800 = (idle.memory.blit 0x800 [1]).cell 0x800 :=
    congrArg (·.cell 0x800) hmemory
  rw [hzero, hcell] at hsame
  exact absurd hsame (by decide)

end Machine

end Chip8
