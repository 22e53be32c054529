import BranchPrediction.Translator.Translate

/-! What the translation functions emit, and what it does when it runs. -/
namespace BranchPrediction.Translator

open ForwardCode

/-- A translation step appends code and keeps the pc. -/
structure Emits (g g' : Translation) (code : Code) : Prop where
  ops : g'.ops = g.ops ++ code
  pc : g'.ctx.pc = g.ctx.pc

theorem Emits.trans {g g' g'' : Translation} {code later : Code} (h : Emits g g' code)
    (h' : Emits g' g'' later) : Emits g g'' (code ++ later) where
  ops := by rw [h'.ops, h.ops, List.append_assoc]
  pc := h'.pc.trans h.pc

section PrinterCall

def printerCode (temp : Nat) (pc addr tNt : U64) : Code :=
  [.op (.moviI64 (.temp temp) pc), .op (.moviI64 (.temp (temp + 1)) addr),
    .op (.moviI64 (.temp (temp + 2)) tNt),
    .op (.helperPrinter (.temp temp) (.temp (temp + 1)) (.temp (temp + 2)))]

theorem genPrinterCall_emits (pc addr tNt : U64) (g : Translation) :
    Emits g ((genPrinterCall pc addr tNt).run g).2 (printerCode g.temps pc addr tNt) where
  ops := by
    change g.ops ++ [_] ++ [_] ++ [_] ++ [_] = _
    simp only [List.append_assoc]
    rfl
  pc := rfl

theorem run_printerCode (host : Host) (temp : Nat) (pc addr tNt : U64) (s : Exec) :
    ∃ s', run (tcg host) (printerCode temp pc addr tNt) none s = .fell s' ∧ s'.cpu = s.cpu ∧
      s'.printed = s.printed ++ [⟨pc, addr, tNt⟩] := by
  simp [printerCode, run, tcg, stepOp, Exec.write, Exec.withValue, Exec.read]

end PrinterCall

section Exits

variable {q : Qemu}

/-- A jump slot that is linked leads to this address. -/
def LinkedTo (host : Host) (n : Nat) (dest : U64) : Prop :=
  ∀ linked, host.linked n = some linked → linked = dest

/-- An exit that uses no jump slot but this one, and no dead temporary. -/
def TbExit.Through (n : Nat) : TbExit → Prop
  | .chained m | .mainLoop (some m) => m = n
  | .mainLoop none | .exception _ _ _ | .exceptionInternal _ => True
  | .deadTemp => False

/-- This code ends the block at an address and does not call `printer`. -/
structure ExitsTo (code : Code) (n : Nat) (dest : U64) : Prop where
  unlabelled : ∀ l, Item.label l ∉ code
  leaves : ∀ host s, ∃ e s', run (tcg host) code none s = .left e s' ∧ e.Through n ∧
    s'.printed = s.printed ∧ (LinkedTo host n dest → s'.cpu.pc = dest)

theorem exitsTo_gotoTb (n : Nat) (dest : U64) :
    ExitsTo [.op (.gotoTb n), .op (.moviI64 .cpuPc dest), .op (.exitTb (some n))] n dest where
  unlabelled l := by simp
  leaves host s := by
    cases hLinked : host.linked n with
    | none => simp [run, tcg, stepOp, hLinked, Exec.write, Exec.endBlock, TbExit.Through]
    | some linked => simp [run, tcg, stepOp, hLinked, Exec.write, LinkedTo, TbExit.Through]

theorem exitsTo_exitTb (n : Nat) (dest : U64) :
    ExitsTo [.op (.moviI64 .cpuPc dest), .op (.exitTb none)] n dest where
  unlabelled l := by simp
  leaves host s := by simp [run, tcg, stepOp, Exec.write, TbExit.Through]

/-- The code of `gen_exception_internal`. -/
def exceptionInternalCode (temp : Nat) (excp : U32) : Code :=
  [.op (.moviI32 (.temp temp) excp), .op (.helperExceptionInternal (.temp temp))]

theorem exitsTo_exceptionInternal (n : Nat) (dest : U64) (temp : Nat) (excp : U32) :
    ExitsTo (.op (.moviI64 .cpuPc dest) :: exceptionInternalCode temp excp) n dest where
  unlabelled l := by simp [exceptionInternalCode]
  leaves host s := by
    simp [exceptionInternalCode, run, tcg, stepOp, Exec.write, Exec.withValue, Exec.read,
      TbExit.Through]

/-- The code of `gen_step_complete_exception`. -/
def stepCompleteCode (temp : Nat) (excp syndrome el : U32) : Code :=
  [.op .helperClearPstateSs, .op (.moviI32 (.temp temp) excp),
    .op (.moviI32 (.temp (temp + 1)) syndrome), .op (.moviI32 (.temp (temp + 2)) el),
    .op (.helperExceptionWithSyndrome (.temp temp) (.temp (temp + 1)) (.temp (temp + 2)))]

theorem exitsTo_stepComplete (n : Nat) (dest : U64) (temp : Nat) (excp syndrome el : U32) :
    ExitsTo (.op (.moviI64 .cpuPc dest) :: stepCompleteCode temp excp syndrome el) n dest where
  unlabelled l := by simp [stepCompleteCode]
  leaves host s := by
    simp [stepCompleteCode, run, tcg, stepOp, Exec.write, Exec.withValue, Exec.read,
      TbExit.Through]

theorem genExceptionInternal_emits (excp : U32) (g : Translation) :
    Emits g ((genExceptionInternal excp).run g).2 (exceptionInternalCode g.temps excp) where
  ops := by
    change g.ops ++ [_] ++ [_] = _
    rw [List.append_assoc]
    rfl
  pc := rfl

theorem genSsAdvance_run {g : Translation} (hActive : g.ctx.ssActive = true) :
    (genSsAdvance.run g).2 =
      { g with
        ctx := { g.ctx with pstateSs := false }
        ops := g.ops ++ [.op .helperClearPstateSs] } := by
  change ((if g.ctx.ssActive = true then _ else _ : Gen Unit).run g).2 = _
  rw [if_pos hActive]
  rfl

theorem genStepCompleteException_emits {g : Translation} (hActive : g.ctx.ssActive = true) :
    ∃ syndrome el, Emits g ((genStepCompleteException q).run g).2
      (stepCompleteCode g.temps q.EXCP_UDEF syndrome el) := by
  refine ⟨q.synSwstep g.ctx.ssSameEl true g.ctx.isLdex,
    q.defaultExceptionEl { g.ctx with pstateSs := false }, ?_⟩
  have hRun : ((genStepCompleteException q).run g).2 = ((do
      let g ← get
      genException q.EXCP_UDEF (q.synSwstep g.ctx.ssSameEl true g.ctx.isLdex)
        (q.defaultExceptionEl g.ctx)
      setIsJmp .exc : Gen Unit).run (genSsAdvance.run g).2).2 := rfl
  rw [hRun, genSsAdvance_run hActive]
  refine ⟨?_, rfl⟩
  change g.ops ++ [_] ++ [_] ++ [_] ++ [_] ++ [_] = _
  simp only [List.append_assoc]
  rfl

/-- In all its modes `gen_goto_tb` ends the block at its destination. -/
theorem genGotoTb_exits (n : Nat) (dest : U64) (g : Translation) :
    ∃ code, Emits g ((genGotoTb q n dest).run g).2 code ∧ ExitsTo code n dest := by
  change ∃ code,
    Emits g ((if useGotoTb q g.ctx dest = true then _ else _ : Gen Unit).run g).2 code ∧ _
  by_cases hUse : useGotoTb q g.ctx dest = true
  · rw [if_pos hUse]
    refine ⟨_, ⟨?_, rfl⟩, exitsTo_gotoTb n dest⟩
    change g.ops ++ [_] ++ [_] ++ [_] = _
    simp only [List.append_assoc]
    rfl
  · rw [if_neg hUse]
    let atDest := ((genA64SetPcIm dest).run g).2
    have hSet : Emits g atDest [.op (.moviI64 .cpuPc dest)] := ⟨rfl, rfl⟩
    change ∃ code,
      Emits g ((if g.ctx.ssActive = true then _ else _ : Gen Unit).run atDest).2 code ∧ _
    by_cases hActive : g.ctx.ssActive = true
    · rw [if_pos hActive]
      obtain ⟨syndrome, el, hException⟩ :=
        genStepCompleteException_emits (q := q) (g := atDest) hActive
      exact ⟨_, hSet.trans hException, exitsTo_stepComplete n dest _ _ _ _⟩
    · rw [if_neg hActive]
      by_cases hDebug : g.ctx.singlestepEnabled = true
      · rw [if_pos hDebug]
        exact ⟨_, hSet.trans (genExceptionInternal_emits q.EXCP_DEBUG atDest),
          exitsTo_exceptionInternal n dest _ _⟩
      · rw [if_neg hDebug]
        exact ⟨_, hSet.trans ⟨rfl, rfl⟩, exitsTo_exitTb n dest⟩

end Exits

section TracedExits

variable {q : Qemu}

/-- From here the code reports one call of `printer` and ends the block. -/
def TracesExit (host : Host) (code : Code) (target : Option Nat) (s : Exec) (call : PrinterCall)
    (n : Nat) (dest : U64) : Prop :=
  ∃ e s', run (tcg host) code target s = .left e s' ∧ e.Through n ∧
    s'.printed = s.printed ++ [call] ∧ (LinkedTo host n dest → s'.cpu.pc = dest)

theorem ExitsTo.traces {code : Code} {n : Nat} {dest : U64} (h : ExitsTo code n dest)
    (temp : Nat) (pc addr tNt : U64) (host : Host) (s : Exec) :
    TracesExit host (printerCode temp pc addr tNt ++ code) none s ⟨pc, addr, tNt⟩ n dest := by
  obtain ⟨s', hCall, _, hPrinted⟩ := run_printerCode host temp pc addr tNt s
  obtain ⟨e, s'', hExit, hSlot, hQuiet, hDest⟩ := h.leaves host s'
  refine ⟨e, s'', ?_, hSlot, ?_, hDest⟩
  · rw [run_append_of_fell hCall, hExit]
  · rw [hQuiet, hPrinted]

/-- The code of the two exits: it falls into the one that is not taken, and a
jump to the label reaches the other. -/
structure TracedExits (code : Code) (label : Nat) (pc addr : U64) : Prop where
  notTaken : ∀ host s, TracesExit host code none s ⟨pc, addr, 0⟩ 0 pc
  taken : ∀ host s, TracesExit host code (some label) s ⟨pc, addr, 1⟩ 1 addr

theorem genTracedExits_traces (addr : U64) (label : Nat) (g : Translation) :
    ∃ code, Emits g ((genTracedExits q addr label).run g).2 code ∧
      TracedExits code label g.ctx.pc addr := by
  let pc := g.ctx.pc
  have hFirst := genPrinterCall_emits pc addr 0 g
  obtain ⟨fall, hFall, hFallExits⟩ :=
    genGotoTb_exits (q := q) 0 pc ((genPrinterCall pc addr 0).run g).2
  let atFall := ((genGotoTb q 0 pc).run ((genPrinterCall pc addr 0).run g).2).2
  let atLabel := ((genSetLabel label).run atFall).2
  have hLabel : Emits atFall atLabel [.label label] := ⟨rfl, rfl⟩
  have hSecond := genPrinterCall_emits pc addr 1 atLabel
  obtain ⟨jump, hJump, hJumpExits⟩ :=
    genGotoTb_exits (q := q) 1 addr ((genPrinterCall pc addr 1).run atLabel).2
  have hAbsent : Item.label label ∉ printerCode g.temps pc addr 0 ++ fall := by
    rw [List.mem_append, not_or]
    exact ⟨by simp [printerCode], hFallExits.unlabelled label⟩
  refine ⟨_, (hFirst.trans hFall).trans (hLabel.trans (hSecond.trans hJump)), ?_, ?_⟩
  · intro host s
    obtain ⟨e, s', hRun, hRest⟩ := hFallExits.traces g.temps pc addr 0 host s
    exact ⟨e, s', run_append_of_left hRun _, hRest⟩
  · intro host s
    obtain ⟨e, s', hRun, hRest⟩ := hJumpExits.traces atLabel.temps pc addr 1 host s.endBlock
    exact ⟨e, s', (run_jump hAbsent _ s).trans hRun, hRest⟩

end TracedExits

end BranchPrediction.Translator
