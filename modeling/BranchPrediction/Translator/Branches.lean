import BranchPrediction.Translator.Emission

/-! The code of each kind of branch, from the test to the traced exits. -/
namespace BranchPrediction.Translator

open ForwardCode

variable {q : Qemu}

section Tests

/-- This code leaves a value of the guest in a variable and does nothing else. -/
def Computes (code : Code) (v : Var) (value : Cpu → U64) : Prop :=
  ∀ host s, ∃ s', run (tcg host) code none s = .fell s' ∧ s'.cpu = s.cpu ∧
    s'.printed = s.printed ∧ s'.read v = some (value s.cpu)

/-- This code jumps to a label if a condition on the guest holds. -/
def Tests (code : Code) (label : Nat) (taken : Host → Cpu → Bool) : Prop :=
  ∀ host s, ∃ s', s'.cpu = s.cpu ∧ s'.printed = s.printed ∧
    run (tcg host) code none s = if taken host s.cpu then .lost label s' else .fell s'

theorem Computes.tests {code : Code} {v : Var} {value : Cpu → U64} (h : Computes code v value)
    (cond : TcgCond) (imm : U64) (label : Nat) :
    Tests (code ++ [.op (.brcondiI64 cond v imm label)]) label
      (fun _ cpu => cond.holds (value cpu) imm) := by
  intro host s
  obtain ⟨s', hRun, hCpu, hPrinted, hValue⟩ := h host s
  refine ⟨s'.endBlock, hCpu, hPrinted, ?_⟩
  rw [run_append_of_fell hRun]
  simp only [run, tcg, stepOp, Exec.withValue, hValue]
  split_ifs <;> rfl

theorem Computes.andi {code : Code} {arg : Var} {value : Cpu → U64} (h : Computes code arg value)
    (temp : Nat) (imm : U64) :
    Computes (code ++ [.op (.andiI64 (.temp temp) arg imm)]) (.temp temp)
      (fun cpu => value cpu &&& imm) := by
  intro host s
  obtain ⟨s', hRun, hCpu, hPrinted, hValue⟩ := h host s
  refine ⟨s'.write (.temp temp) (value s.cpu &&& imm), ?_, hCpu, hPrinted,
    Function.update_self ..⟩
  rw [run_append_of_fell hRun]
  simp only [run, tcg, stepOp, Exec.withValue, hValue]

theorem tests_cc (cc label : Nat) :
    Tests [.op (.testCc cc label)] label (fun host cpu => host.testCc cc cpu.flags) := by
  intro host s
  refine ⟨s.endBlock, rfl, rfl, ?_⟩
  simp only [run, tcg, stepOp]
  split_ifs <;> rfl

/-- The value of a register as an operand; number 31 is zero. -/
def Cpu.operand (cpu : Cpu) (reg : Nat) (sf : Bool) : U64 :=
  if reg = 31 then 0 else if sf then cpu.X reg else ((cpu.X reg).setWidth 32).setWidth 64

theorem readCpuReg_computes (reg : Nat) (sf : Bool) (g : Translation) :
    ∃ code, Emits g ((readCpuReg reg sf).run g).2 code ∧
      Computes code ((readCpuReg reg sf).run g).1 (fun cpu => cpu.operand reg sf) := by
  by_cases hZero : reg = 31
  · subst reg
    refine ⟨[.op (.moviI64 (.temp g.temps) 0)], ⟨rfl, rfl⟩, fun host s => ?_⟩
    exact ⟨_, rfl, rfl, rfl, Function.update_self ..⟩
  · unfold readCpuReg
    simp only [ne_eq, hZero, not_false_eq_true, if_true]
    cases sf with
    | true =>
        refine ⟨[.op (.movI64 (.temp g.temps) (.cpuX reg))], ⟨rfl, rfl⟩, fun host s => ?_⟩
        have hValue : s.cpu.operand reg true = s.cpu.X reg := if_neg hZero
        exact ⟨_, rfl, rfl, rfl, (Function.update_self ..).trans (congrArg some hValue.symm)⟩
    | false =>
        refine ⟨[.op (.ext32uI64 (.temp g.temps) (.cpuX reg))], ⟨rfl, rfl⟩, fun host s => ?_⟩
        have hValue : s.cpu.operand reg false = ((s.cpu.X reg).setWidth 32).setWidth 64 :=
          if_neg hZero
        exact ⟨_, rfl, rfl, rfl, (Function.update_self ..).trans (congrArg some hValue.symm)⟩

theorem cpuReg_computes (reg : Nat) (g : Translation) :
    ∃ code, Emits g ((cpuReg reg).run g).2 code ∧
      Computes code ((cpuReg reg).run g).1 (fun cpu => cpu.operand reg true) := by
  by_cases hZero : reg = 31
  · subst reg
    refine ⟨[.op (.moviI64 (.temp g.temps) 0)], ⟨rfl, rfl⟩, fun host s => ?_⟩
    exact ⟨_, rfl, rfl, rfl, Function.update_self ..⟩
  · rw [cpuReg, if_neg hZero]
    refine ⟨[], ⟨(List.append_nil _).symm, rfl⟩, fun host s => ⟨s, rfl, rfl, rfl, ?_⟩⟩
    have hValue : s.cpu.operand reg true = s.cpu.X reg := if_neg hZero
    exact congrArg some hValue.symm

end Tests

section Immediate

/-- The code of a branch to a fixed address: it calls `printer` once, with the
direction, and ends the block in that direction. -/
def TracesBranch (code : Code) (pc addr : U64) (slot : Nat) (taken : Host → Cpu → Bool) : Prop :=
  ∀ host s, if taken host s.cpu then TracesExit host code none s ⟨pc, addr, 1⟩ slot addr
    else TracesExit host code none s ⟨pc, addr, 0⟩ 0 pc

/-- A test before the two exits makes a branch. -/
theorem Tests.traces {code exits : Code} {label : Nat} {taken : Host → Cpu → Bool} {pc addr : U64}
    (h : Tests code label taken) (hExits : TracedExits exits label pc addr) :
    TracesBranch (code ++ exits) pc addr 1 taken := by
  intro host s
  obtain ⟨s', hCpu, hPrinted, hRun⟩ := h host s
  by_cases hTaken : taken host s.cpu = true
  · rw [if_pos hTaken] at hRun ⊢
    obtain ⟨e, s'', hExit, hSlot, hCall, hDest⟩ := hExits.taken host s'
    refine ⟨e, s'', ?_, hSlot, ?_, hDest⟩
    · rw [run_append, hRun]
      exact hExit
    · rw [hCall, hPrinted]
  · rw [if_neg hTaken] at hRun ⊢
    obtain ⟨e, s'', hExit, hSlot, hCall, hDest⟩ := hExits.notTaken host s'
    refine ⟨e, s'', ?_, hSlot, ?_, hDest⟩
    · rw [run_append_of_fell hRun]
      exact hExit
    · rw [hCall, hPrinted]

/-- CBZ and CBNZ compare a register with zero. -/
theorem disasCompBImm_traces (insn : U32) (g : Translation) :
    ∃ code, Emits g ((disasCompBImm q insn).run g).2 code ∧
      TracesBranch code g.ctx.pc (branchTarget g.ctx.pc insn 5 19) 1 fun _ cpu =>
        TcgCond.holds (if extract32 insn 24 1 ≠ 0 then .ne else .eq)
          (cpu.operand (extract32 insn 0 5).toNat (extract32 insn 31 1 ≠ 0)) 0 := by
  let cond : TcgCond := if extract32 insn 24 1 ≠ 0 then .ne else .eq
  let addr := branchTarget g.ctx.pc insn 5 19
  obtain ⟨code, hCode, hComputes⟩ :=
    readCpuReg_computes (extract32 insn 0 5).toNat (extract32 insn 31 1 ≠ 0) g
  let atTest := (readCpuReg (extract32 insn 0 5).toNat (extract32 insn 31 1 ≠ 0)).run g
  let branch : TcgOp := .brcondiI64 cond atTest.1 0 atTest.2.labels
  let tested := ((emit branch).run (genNewLabel.run atTest.2).2).2
  have hTest : Emits g tested (code ++ [.op branch]) := hCode.trans ⟨rfl, rfl⟩
  obtain ⟨exits, hExits, hTraced⟩ := genTracedExits_traces (q := q) addr atTest.2.labels tested
  rw [hTest.pc] at hTraced
  exact ⟨_, hTest.trans hExits, (hComputes.tests cond 0 _).traces hTraced⟩

/-- The bit that TBZ and TBNZ test. -/
def testedBit (insn : U32) : Nat :=
  ((extract32 insn 31 1 <<< 5) ||| extract32 insn 19 5).toNat

/-- TBZ and TBNZ test one bit of a register. -/
theorem disasTestBImm_traces (insn : U32) (g : Translation) :
    ∃ code, Emits g ((disasTestBImm q insn).run g).2 code ∧
      TracesBranch code g.ctx.pc (branchTarget g.ctx.pc insn 5 14) 1 fun _ cpu =>
        TcgCond.holds (if extract32 insn 24 1 ≠ 0 then .ne else .eq)
          (cpu.operand (extract32 insn 0 5).toNat true &&& (1 : U64) <<< testedBit insn) 0 := by
  let cond : TcgCond := if extract32 insn 24 1 ≠ 0 then .ne else .eq
  let addr := branchTarget g.ctx.pc insn 5 14
  let atReg := (tcgTempNew.run g).2
  obtain ⟨code, hCode, hComputes⟩ := cpuReg_computes (extract32 insn 0 5).toNat atReg
  let atMask := (cpuReg (extract32 insn 0 5).toNat).run atReg
  let mask : TcgOp := .andiI64 (.temp g.temps) atMask.1 ((1 : U64) <<< testedBit insn)
  let masked := ((emit mask).run atMask.2).2
  let branch : TcgOp := .brcondiI64 cond (.temp g.temps) 0 masked.labels
  let tested := ((emit branch).run (genNewLabel.run masked).2).2
  have hRead : Emits g atMask.2 code := ⟨hCode.ops, hCode.pc⟩
  have hMask : Emits g masked (code ++ [.op mask]) := hRead.trans ⟨rfl, rfl⟩
  have hTest : Emits g tested (code ++ [.op mask] ++ [.op branch]) := hMask.trans ⟨rfl, rfl⟩
  obtain ⟨exits, hExits, hTraced⟩ := genTracedExits_traces (q := q) addr masked.labels tested
  rw [hTest.pc] at hTraced
  have hTests := (hComputes.andi g.temps ((1 : U64) <<< testedBit insn)).tests cond 0 masked.labels
  exact ⟨_, hTest.trans hExits, hTests.traces hTraced⟩

/-- A traced exit that is always taken. -/
theorem always_traces (addr : U64) (g : Translation) :
    ∃ code, Emits g ((genGotoTb q 0 addr).run ((genPrinterCall g.ctx.pc addr 1).run g).2).2 code ∧
      TracesBranch code g.ctx.pc addr 0 fun _ _ => true := by
  obtain ⟨code, hCode, hExits⟩ :=
    genGotoTb_exits (q := q) 0 addr ((genPrinterCall g.ctx.pc addr 1).run g).2
  exact ⟨_, (genPrinterCall_emits g.ctx.pc addr 1 g).trans hCode,
    fun host s => hExits.traces g.temps g.ctx.pc addr 1 host s⟩

/-- B and BL are always taken; BL sets the link register first. -/
theorem disasUncondBImm_traces (insn : U32) (g : Translation) :
    ∃ code, Emits g ((disasUncondBImm q insn).run g).2 code ∧
      TracesBranch code g.ctx.pc (branchTarget g.ctx.pc insn 0 26) 0 fun _ _ => true := by
  let addr := branchTarget g.ctx.pc insn 0 26
  by_cases hLink : insn &&& (1 : U32) <<< 31 ≠ 0
  · let link : TcgOp := .moviI64 (.cpuX 30) g.ctx.pc
    let linked := ((emit link).run g).2
    have hSet : Emits g linked [.op link] := ⟨rfl, rfl⟩
    obtain ⟨code, hCode, hTraces⟩ := always_traces (q := q) addr linked
    have hRun : ((disasUncondBImm q insn).run g).2 =
        ((genGotoTb q 0 addr).run ((genPrinterCall linked.ctx.pc addr 1).run linked).2).2 := by
      change ((if insn &&& (1 : U32) <<< 31 ≠ 0 then _ else _ : Gen Unit).run g).2 = _
      rw [if_pos hLink]
      rfl
    rw [hRun]
    refine ⟨_, hSet.trans hCode, fun host s => ?_⟩
    exact hTraces host (s.write (.cpuX 30) g.ctx.pc)
  · have hRun : ((disasUncondBImm q insn).run g).2 =
        ((genGotoTb q 0 addr).run ((genPrinterCall g.ctx.pc addr 1).run g).2).2 := by
      change ((if insn &&& (1 : U32) <<< 31 ≠ 0 then _ else _ : Gen Unit).run g).2 = _
      rw [if_neg hLink]
      rfl
    rw [hRun]
    exact always_traces addr g

/-- B.cond tests the flags, or is always taken; if it is not, its two exits use
different jump slots. -/
theorem disasCondBImm_traces {insn : U32} (hO0 : insn &&& (1 : U32) <<< 4 = 0)
    (hO1 : insn &&& (1 : U32) <<< 24 = 0) (g : Translation) :
    ∃ code slot, Emits g ((disasCondBImm q insn).run g).2 code ∧
      TracesBranch code g.ctx.pc (branchTarget g.ctx.pc insn 5 19) slot (fun host cpu =>
        if (extract32 insn 0 4).toNat < 0x0e then host.testCc (extract32 insn 0 4).toNat cpu.flags
        else true) ∧ (slot = 0 → 0x0e ≤ (extract32 insn 0 4).toNat) := by
  let addr := branchTarget g.ctx.pc insn 5 19
  let cond := (extract32 insn 0 4).toNat
  have hAllocated : ¬ (insn &&& (1 : U32) <<< 4 ≠ 0 ∨ insn &&& (1 : U32) <<< 24 ≠ 0) := by
    rw [not_or, not_not, not_not]
    exact ⟨hO0, hO1⟩
  change ∃ code slot, Emits g ((if insn &&& (1 : U32) <<< 4 ≠ 0 ∨ insn &&& (1 : U32) <<< 24 ≠ 0
    then _ else if cond < 0x0e then _ else _ : Gen Unit).run g).2 code ∧ _
  rw [if_neg hAllocated]
  by_cases hCond : cond < 0x0e
  · rw [if_pos hCond]
    let test : TcgOp := .testCc cond g.labels
    let tested := ((emit test).run (genNewLabel.run g).2).2
    have hTest : Emits g tested [.op test] := ⟨rfl, rfl⟩
    obtain ⟨exits, hExits, hTraced⟩ := genTracedExits_traces (q := q) addr g.labels tested
    have hBranch := (tests_cc cond g.labels).traces hTraced
    refine ⟨_, 1, hTest.trans hExits, ?_, fun hSame => absurd hSame Nat.one_ne_zero⟩
    simp only [cond] at hCond
    simp only [if_pos hCond]
    exact hBranch
  · rw [if_neg hCond]
    obtain ⟨code, hCode, hTraces⟩ := always_traces (q := q) addr g
    refine ⟨code, 0, hCode, ?_, fun _ => Nat.le_of_not_lt hCond⟩
    simp only [cond] at hCond
    simp only [if_neg hCond]
    exact hTraces

end Immediate

section Register

/-- The code of a branch to a register: it goes there without a call of `printer`. -/
def GoesTo (code : Code) (dest : Cpu → U64) : Prop :=
  ∀ host s, ∃ s', run (tcg host) code none s = .fell s' ∧ s'.printed = s.printed ∧
    s'.cpu.pc = dest s.cpu

theorem Computes.goesTo {code : Code} {v : Var} {value : Cpu → U64} (h : Computes code v value) :
    GoesTo (code ++ [.op (.movI64 .cpuPc v)]) value := by
  intro host s
  obtain ⟨s', hRun, _, hPrinted, hValue⟩ := h host s
  refine ⟨s'.write .cpuPc (value s.cpu), ?_, hPrinted, rfl⟩
  rw [run_append_of_fell hRun]
  simp only [run, tcg, stepOp, Exec.withValue, hValue]

/-- Setting the link register does not change where the guest goes. -/
theorem GoesTo.link {code : Code} {dest : Cpu → U64} (h : GoesTo code dest) (link : U64) :
    GoesTo (code ++ [.op (.moviI64 (.cpuX 30) link)]) dest := by
  intro host s
  obtain ⟨s', hRun, hPrinted, hDest⟩ := h host s
  refine ⟨s'.write (.cpuX 30) link, ?_, hPrinted, hDest⟩
  rw [run_append_of_fell hRun]
  rfl

/-- BR, RET and BLR go to the register. -/
theorem disasUncondBReg_goesTo {insn : U32} (hOp4 : extract32 insn 0 5 = 0)
    (hOp3 : extract32 insn 10 6 = 0) (hOp2 : extract32 insn 16 5 = 0x1f)
    (hOpc : (extract32 insn 21 4).toNat ∈ [0, 1, 2]) (g : Translation) :
    ∃ code, Emits g ((disasUncondBReg q insn).run g).2 code ∧
      GoesTo code fun cpu => cpu.operand (extract32 insn 5 5).toNat true := by
  have hAllocated : ¬ (extract32 insn 0 5 ≠ 0 ∨ extract32 insn 10 6 ≠ 0 ∨
      extract32 insn 16 5 ≠ 0x1f) := by
    rw [not_or, not_or, not_not, not_not, not_not]
    exact ⟨hOp4, hOp3, hOp2⟩
  obtain ⟨code, hCode, hComputes⟩ := cpuReg_computes (extract32 insn 5 5).toNat g
  let atDest := (cpuReg (extract32 insn 5 5).toNat).run g
  let jump : TcgOp := .movI64 .cpuPc atDest.1
  let link : TcgOp := .moviI64 (.cpuX 30) g.ctx.pc
  change ∃ code, Emits g ((if extract32 insn 0 5 ≠ 0 ∨ extract32 insn 10 6 ≠ 0 ∨
    extract32 insn 16 5 ≠ 0x1f then _ else _ : Gen Unit).run g).2 code ∧ _
  rw [if_neg hAllocated]
  simp only [List.mem_cons, List.not_mem_nil, or_false] at hOpc
  rcases hOpc with hOpc | hOpc | hOpc
  · rw [hOpc]
    exact ⟨_, hCode.trans ⟨rfl, rfl⟩, hComputes.goesTo⟩
  · rw [hOpc]
    have hJump : Emits g ((emit jump).run atDest.2).2 (code ++ [.op jump]) :=
      hCode.trans ⟨rfl, rfl⟩
    exact ⟨_, hJump.trans ⟨rfl, rfl⟩, hComputes.goesTo.link g.ctx.pc⟩
  · rw [hOpc]
    exact ⟨_, hCode.trans ⟨rfl, rfl⟩, hComputes.goesTo⟩

end Register

end BranchPrediction.Translator
