import BranchPrediction.Translator.Block
import BranchPrediction.Translator.MoveImmediate

/-! Executing one block after the other is executing the guest code one instruction
after the other. -/
namespace BranchPrediction.Translator

open ForwardCode StateSteps

section BlockEnd

variable {q : BlockQemu} {g : Translation}

/-- Behind an instruction that does not end the block, the block exits to the next one. -/
theorem genBlockEnd_next (hIsJmp : g.ctx.isJmp = .next) :
    ∃ code, Emits g ((genBlockEnd q).run g).2 code ∧ ExitsTo code 1 g.ctx.pc := by
  change ∃ code, Emits g ((if (g.ctx.singlestepEnabled || g.ctx.ssActive) && g.ctx.isJmp ≠ .exc
    then _ else _ : Gen Unit).run g).2 code ∧ _
  by_cases hStep : ((g.ctx.singlestepEnabled || g.ctx.ssActive) && g.ctx.isJmp ≠ .exc) = true
  · rw [if_pos hStep, if_pos (by rw [hIsJmp]; decide)]
    let atNext := ((genA64SetPcIm g.ctx.pc).run g).2
    have hSet : Emits g atNext [.op (.moviI64 .cpuPc g.ctx.pc)] := ⟨rfl, rfl⟩
    change ∃ code, Emits g ((if g.ctx.singlestepEnabled = true then _ else _ : Gen Unit).run
      atNext).2 code ∧ _
    by_cases hDebug : g.ctx.singlestepEnabled = true
    · rw [if_pos hDebug]
      exact ⟨_, hSet.trans (genExceptionInternal_emits q.EXCP_DEBUG atNext),
        exitsTo_exceptionInternal 1 g.ctx.pc _ _⟩
    · rw [if_neg hDebug]
      rw [Bool.and_eq_true, Bool.or_eq_true] at hStep
      obtain ⟨syndrome, el, hException⟩ := genStepCompleteException_emits (q := q.toQemu)
        (g := atNext) (hStep.1.resolve_left hDebug)
      exact ⟨_, hSet.trans hException, exitsTo_stepComplete 1 g.ctx.pc _ _ _ _⟩
  · rw [if_neg hStep, hIsJmp]
    exact genGotoTb_exits 1 g.ctx.pc g

/-- Code that leaves the block with the pc as it is, through no jump slot. -/
def LeavesHere (code : Code) : Prop :=
  ∀ host s, ∃ e s', run (tcg host) code none s = .left e s' ∧ (∀ n, e.Through n) ∧
    s'.printed = s.printed ∧ s'.cpu.pc = s.cpu.pc

theorem leavesHere_exitTb : LeavesHere [.op (.exitTb none)] :=
  fun _ s => ⟨_, s, rfl, fun _ => trivial, rfl, rfl⟩

theorem leavesHere_exceptionInternal (temp : Nat) (excp : U32) :
    LeavesHere (exceptionInternalCode temp excp) := by
  intro host s
  simp [exceptionInternalCode, run, tcg, stepOp, Exec.write, Exec.withValue, Exec.read,
    TbExit.Through]

theorem leavesHere_stepComplete (temp : Nat) (excp syndrome el : U32) :
    LeavesHere (stepCompleteCode temp excp syndrome el) := by
  intro host s
  simp [stepCompleteCode, run, tcg, stepOp, Exec.write, Exec.withValue, Exec.read,
    TbExit.Through]

/-- Behind a branch to a register the pc is already where the guest goes on. -/
theorem genBlockEnd_jump (hIsJmp : g.ctx.isJmp = .jump) :
    ∃ code, ((genBlockEnd q).run g).2.ops = g.ops ++ code ∧ LeavesHere code := by
  change ∃ code, ((if (g.ctx.singlestepEnabled || g.ctx.ssActive) && g.ctx.isJmp ≠ .exc
    then _ else _ : Gen Unit).run g).2.ops = g.ops ++ code ∧ _
  by_cases hStep : ((g.ctx.singlestepEnabled || g.ctx.ssActive) && g.ctx.isJmp ≠ .exc) = true
  · rw [if_pos hStep, if_neg (by rw [hIsJmp]; decide)]
    change ∃ code, ((if g.ctx.singlestepEnabled = true then _ else _ : Gen Unit).run g).2.ops =
      g.ops ++ code ∧ _
    by_cases hDebug : g.ctx.singlestepEnabled = true
    · rw [if_pos hDebug]
      exact ⟨_, (genExceptionInternal_emits q.EXCP_DEBUG g).ops, leavesHere_exceptionInternal _ _⟩
    · rw [if_neg hDebug]
      rw [Bool.and_eq_true, Bool.or_eq_true] at hStep
      obtain ⟨syndrome, el, hException⟩ := genStepCompleteException_emits (q := q.toQemu)
        (g := g) (hStep.1.resolve_left hDebug)
      exact ⟨_, hException.ops, leavesHere_stepComplete _ _ _ _⟩
  · rw [if_neg hStep, hIsJmp]
    exact ⟨_, rfl, leavesHere_exitTb⟩

end BlockEnd

section Loop

variable {q : BlockQemu} {b : BlockInput} {guest : Guest} {debug ss : Bool} {g : Translation}

/-- A branch to a register is one instruction, and then the block is left. -/
theorem JumpsTo.leavesAfter {code later : Code} {pc : U64} {b : RegBranch}
    (hInsn : guest.decode (guest.code pc) = some (.reg b)) (h : JumpsTo code b (pc + 4))
    (hLater : LeavesHere later) (hKept : ∀ o, Item.op o ∈ later → o.keepsRegs debug ss = true) :
    LeavesAfter guest debug ss (code ++ later) pc 1 fun _ => 0 := by
  intro host _ s
  have hDecode : guest.decode (guest.code (s.cpu.at pc).pc) = some (.reg b) := hInsn
  have hFirst := Guest.run_one hDecode
  refine ⟨_, _, hFirst, ?_⟩
  obtain ⟨s', hRun, hPrinted, hCpu⟩ := h host s
  obtain ⟨e, s'', hLeave, hSlot, hQuiet, hPc⟩ := hLater host s'
  have hFrame := run_keepsRegs host hKept none s'
  rw [hLeave] at hFrame
  have hNext : (GuestInsn.reg b).next (s.cpu.at pc) = s'.cpu := by
    rw [hCpu, GuestInsn.next, Cpu.linked_at]
    rfl
  refine ⟨e, s'', 0, (run_append_of_fell hRun later).trans hLeave, hFrame.2 e rfl, hSlot 0, ?_,
    ?_, fun _ => ?_, ?_⟩
  · rw [hQuiet, hPrinted]
    exact (List.append_nil _).symm
  · rw [hNext]
    exact hFrame.1
  · rw [hNext, hPc]
  · rintro rfl
    have hOther : 0 = 1 := hSlot 1
    cases hOther

/-- A round of the loop without breakpoints and with no step pending. -/
theorem genInsn_run (hUnbroken : b.breakpoints = [])
    (hNotPending : (g.ctx.ssActive && !g.ctx.pstateSs) = false) :
    (genInsn q b).run g =
      (goOn q b ((disasA64Insn q.toQemu (b.ldlCode g.ctx.pc)).run g).2,
        ((disasA64Insn q.toQemu (b.ldlCode g.ctx.pc)).run g).2) := by
  change (if g.ctx.pc ∈ b.breakpoints then _ else if g.ctx.ssActive && !g.ctx.pstateSs then _
    else _ : Gen Bool).run g = _
  rw [if_neg (by rw [hUnbroken]; exact List.not_mem_nil), if_neg (by rw [hNotPending]; decide)]
  rfl

/-- The last instruction of a block, with what follows it. -/
theorem genBlockEnd_leaves (hOthers : OtherInsns q.toQemu guest) (hIsJmp : g.ctx.isJmp = .next)
    {i : GuestInsn} (hInsn : guest.decode (guest.code g.ctx.pc) = some i) :
    ∃ code dests, ((genBlockEnd q).run
        ((disasA64Insn q.toQemu (guest.code g.ctx.pc)).run g).2).2.ops = g.ops ++ code ∧
      LeavesAfter guest g.ctx.singlestepEnabled g.ctx.ssActive code g.ctx.pc 1 dests := by
  let g' := ((disasA64Insn q.toQemu (guest.code g.ctx.pc)).run g).2
  obtain ⟨later, hLaterOps, hKept⟩ := (genBlockEnd_along g' : EmitsKept g' ((genBlockEnd q).run g').2).ops
  rcases Guest.decode_cases hInsn with ⟨b, hImm, rfl⟩ | ⟨b, hReg, rfl⟩ | ⟨effect, hOther, rfl⟩
  · obtain ⟨code, dests, hCode, hLeaves, _⟩ := disasA64Insn_imm (q := q.toQemu) hImm
    refine ⟨code ++ later, dests, ?_, hLeaves.append later⟩
    rw [hLaterOps, hCode.ops, List.append_assoc]
  · obtain ⟨code, hCode, hJumps, hJump⟩ := disasA64Insn_reg (q := q.toQemu) hReg
    obtain ⟨here, hHereOps, hHere⟩ := genBlockEnd_jump (q := q) hJump
    obtain rfl : here = later := List.append_cancel_left (hHereOps.symm.trans hLaterOps)
    rw [hCode.debug, hCode.ss] at hKept
    refine ⟨code ++ here, fun _ => 0, ?_, hJumps.leavesAfter hInsn hHere hKept⟩
    rw [hLaterOps, hCode.ops, List.append_assoc]
  · obtain ⟨code, hCode, hFalls, hPc, hNext⟩ := disasA64Insn_effect hOthers hOther
    obtain ⟨next, hNextCode, hExits⟩ := genBlockEnd_next (q := q) (hNext.trans hIsJmp)
    obtain rfl : next = later := List.append_cancel_left (hNextCode.ops.symm.trans hLaterOps)
    rw [hCode.debug, hCode.ss] at hKept
    rw [hPc] at hExits
    refine ⟨code ++ next, _, ?_, hFalls.leavesAfter hInsn (hExits.leavesAfter hKept)⟩
    rw [hLaterOps, hCode.ops, List.append_assoc]

/-- A round that goes on translated an instruction that is no branch. -/
theorem other_of_goOn {i : GuestInsn} (hInsn : guest.decode (guest.code g.ctx.pc) = some i)
    (hAgain : goOn q b ((disasA64Insn q.toQemu (guest.code g.ctx.pc)).run g).2 = true) :
    ∃ effect, guest.other (guest.code g.ctx.pc) = some effect ∧ i = .other effect := by
  obtain ⟨hNext, hPlain⟩ := goOn_plain hAgain
  rcases Guest.decode_cases hInsn with ⟨b, hImm, rfl⟩ | ⟨b, hReg, rfl⟩ | hOther
  · obtain ⟨_, _, hCode, _, hEnds⟩ := disasA64Insn_imm (q := q.toQemu) hImm
    rw [hEnds ⟨hCode.debug.symm.trans hPlain.1, hCode.ss.symm.trans hPlain.2⟩] at hNext
    cases hNext
  · obtain ⟨_, _, _, hJump⟩ := disasA64Insn_reg (q := q.toQemu) hReg
    rw [hJump] at hNext
    cases hNext
  · exact hOther

/-- The loop without breakpoints, as rounds of `disas_a64_insn`. -/
theorem genInsns_run (hUnbroken : b.breakpoints = [])
    (hNotPending : (g.ctx.ssActive && !g.ctx.pstateSs) = false) (more : Nat) :
    let g' := ((disasA64Insn q.toQemu (b.ldlCode g.ctx.pc)).run g).2
    (genInsns q b more).run g = (1, g') ∨
      ∃ fewer, goOn q b g' = true ∧
        (genInsns q b more).run g =
          (((genInsns q b fewer).run g').1 + 1, ((genInsns q b fewer).run g').2) ∧
        more = fewer + 1 := by
  intro g'
  have hRound : (genInsn q b).run g = (goOn q b g', g') := genInsn_run hUnbroken hNotPending
  cases more with
  | zero =>
      left
      change ((1 : Nat), ((genInsn q b).run g).2) = _
      rw [hRound]
  | succ more =>
      rw [genInsns_succ, hRound]
      cases hAgain : goOn q b g' with
      | true => exact Or.inr ⟨more, rfl, rfl, rfl⟩
      | false => exact Or.inl rfl

/-- The loop, from any round on, together with what follows it. -/
theorem genInsns_leaves (hOthers : OtherInsns q.toQemu guest) (hCode : b.ldlCode = guest.code)
    (hUnbroken : b.breakpoints = []) (more : Nat) (hIsJmp : g.ctx.isJmp = .next)
    (hNotPending : (g.ctx.ssActive && !g.ctx.pstateSs) = false)
    (hDecodes : ∀ k < ((genInsns q b more).run g).1,
      (guest.decode (guest.code (insnAddr g.ctx.pc k))).isSome) :
    ∃ code dests,
      ((genBlockEnd q).run ((genInsns q b more).run g).2).2.ops = g.ops ++ code ∧
        LeavesAfter guest g.ctx.singlestepEnabled g.ctx.ssActive code g.ctx.pc
          ((genInsns q b more).run g).1 dests := by
  induction more using Nat.strong_induction_on generalizing g with
  | _ more ih =>
      have hRuns := genInsns_run (q := q) hUnbroken hNotPending more
      rw [hCode] at hRuns
      rcases hRuns with hRun | ⟨fewer, hAgain, hRun, rfl⟩ <;> rw [hRun] at hDecodes ⊢
      · obtain ⟨i, hInsn⟩ := Option.isSome_iff_exists.mp (hDecodes 0 Nat.one_pos)
        rw [insnAddr_zero] at hInsn
        exact genBlockEnd_leaves hOthers hIsJmp hInsn
      · obtain ⟨i, hInsn⟩ := Option.isSome_iff_exists.mp (hDecodes 0 (Nat.succ_pos _))
        rw [insnAddr_zero] at hInsn
        obtain ⟨effect, hOther, rfl⟩ := other_of_goOn hInsn hAgain
        obtain ⟨code, hFirst, hFalls, hPc, hNext⟩ := disasA64Insn_effect hOthers hOther
        have hSs := hFirst.ss.symm.trans (goOn_plain hAgain).2.2
        obtain ⟨later, dests, hLater, hLeaves⟩ := ih fewer (Nat.lt_succ_self fewer)
          (hNext.trans hIsJmp) (by rw [hFirst.ss, hSs]; rfl) (fun k hk => by
            rw [hPc, ← insnAddr_succ]
            exact hDecodes (k + 1) (Nat.succ_lt_succ hk))
        rw [hFirst.debug, hFirst.ss, hPc] at hLeaves
        refine ⟨code ++ later, dests, ?_, hFalls.leavesAfter hInsn hLeaves⟩
        rw [hLater, hFirst.ops, List.append_assoc]

end Loop

section Blocks

variable {q : BlockQemu} {b : BlockInput} {guest : Guest}

/-- The block is made of this guest code, and nothing keeps its first instruction
from being executed: no breakpoint and no pending step. -/
structure BlockInput.MadeOf (b : BlockInput) (guest : Guest) : Prop where
  code : b.ldlCode = guest.code
  unbroken : b.breakpoints = []
  notPending : b.ssActive = true → b.pstateSs = true

theorem BlockInput.MadeOf.not_pending (hMade : b.MadeOf guest) :
    (b.ssActive && !b.pstateSs) = false := by
  cases hSs : b.ssActive with
  | false => rfl
  | true =>
      rw [hMade.notPending hSs]
      rfl

/-- All instructions of the block are branches, or have a known effect. -/
def Known (q : BlockQemu) (b : BlockInput) (guest : Guest) : Prop :=
  ∀ k < (generate q b).icount, (guest.decode (guest.code (insnAddr b.tbPc k))).isSome

theorem generate_leaves (hOthers : OtherInsns q.toQemu guest) (hMade : b.MadeOf guest)
    (hKnown : Known q b guest) :
    ∃ dests, LeavesAfter guest b.singlestepEnabled b.ssActive (generate q b).ops b.tbPc
      (generate q b).icount dests := by
  let g : Translation := { ctx := b.start, ops := [], temps := 0, labels := 0 }
  obtain ⟨code, dests, hOps, hLeaves⟩ := genInsns_leaves (g := g) hOthers hMade.code hMade.unbroken
    (b.maxInsns q - 1) rfl hMade.not_pending hKnown
  have hCode : (generate q b).ops = code := hOps
  rw [hCode]
  exact ⟨dests, hLeaves⟩

variable {host : Host} {cpu : Cpu}

/-- A block does what the guest does in as many instructions as it has. -/
theorem execute_generate (hOthers : OtherInsns q.toQemu guest) (hMade : b.MadeOf guest)
    (hKnown : Known q b guest) (hHost : host.TestsConditions)
    (hLinked : LinkedByExits host (generate q b).ops) (hPc : cpu.pc = b.tbPc) :
    ∃ cpu' calls e s, guest.run (generate q b).icount cpu = some (cpu', calls) ∧
      execute host (generate q b).ops cpu = .left e s ∧ e ≠ .deadTemp ∧
      e.fits b.singlestepEnabled b.ssActive = true ∧ s.printed = calls ∧
      cpu'.SameRegs b.ssActive s.cpu ∧ s.cpu.pc = cpu'.pc := by
  obtain ⟨dests, hLeaves⟩ := generate_leaves hOthers hMade hKnown
  let unlinked : Host := { host with linked := fun _ => none }
  have hAt : cpu.at b.tbPc = cpu := hPc ▸ cpu.at_self
  obtain ⟨cpu', calls, hGuest, e, s, n, hRun, hFits, hSlot, hPrinted, hRegs, hDest, _⟩ :=
    hLeaves host hHost { cpu := cpu, temp := fun _ => none, printed := [] }
  rw [hAt] at hGuest
  have hAlive : e ≠ .deadTemp := by
    rintro rfl
    exact hSlot
  refine ⟨cpu', calls, e, s, hGuest, hRun, hAlive, hFits, hPrinted, hRegs, hDest fun dest hSome => ?_⟩
  -- a slot is linked only where an earlier exit through it went
  obtain ⟨before, s', hExit, rfl⟩ := hLinked n dest hSome
  obtain ⟨after, _, _, e', s'', m, hRun', _, hSlot', _, _, hDest', hOnly⟩ :=
    hLeaves unlinked hHost { cpu := before, temp := fun _ => none, printed := [] }
  obtain ⟨rfl, rfl⟩ := Outcome.left.inj (hRun'.symm.trans hExit)
  obtain rfl : n = m := hSlot'
  rw [hDest' fun _ hNone => nomatch hNone]
  exact hOnly rfl

/-- Every instruction with a known effect keeps the single-step settings. -/
theorem disasA64Insn_modes (hOthers : OtherInsns q.toQemu guest) {g : Translation} {i : GuestInsn}
    (hInsn : guest.decode (guest.code g.ctx.pc) = some i) :
    ∃ code, Appends g ((disasA64Insn q.toQemu (guest.code g.ctx.pc)).run g).2 code := by
  rcases Guest.decode_cases hInsn with ⟨b, hImm, _⟩ | ⟨b, hReg, _⟩ | ⟨effect, hOther, _⟩
  · obtain ⟨code, _, hCode, _⟩ := disasA64Insn_imm (q := q.toQemu) hImm
    exact ⟨code, hCode⟩
  · obtain ⟨code, hCode, _⟩ := disasA64Insn_reg (q := q.toQemu) hReg
    exact ⟨code, hCode⟩
  · obtain ⟨code, hCode, _⟩ := disasA64Insn_effect hOthers hOther
    exact ⟨code, hCode⟩

/-- With single steps of any kind a block has one instruction. -/
theorem generate_icount_one (hOthers : OtherInsns q.toQemu guest) (hMade : b.MadeOf guest)
    (hInsn : (guest.decode (guest.code b.tbPc)).isSome)
    (hStep : (b.singlestepEnabled || b.ssActive || b.singlestep) = true) :
    (generate q b).icount = 1 := by
  let g : Translation := { ctx := b.start, ops := [], temps := 0, labels := 0 }
  have hIcount : (generate q b).icount = ((genInsns q b (b.maxInsns q - 1)).run g).1 := rfl
  rw [hIcount]
  rcases genInsns_run (q := q) (g := g) hMade.unbroken hMade.not_pending (b.maxInsns q - 1) with
    hRun | ⟨_, hAgain, _⟩
  · rw [hRun]
  · obtain ⟨i, hInsn⟩ := Option.isSome_iff_exists.mp hInsn
    obtain ⟨code, hCode⟩ := disasA64Insn_modes (g := g) hOthers hInsn
    rw [hMade.code] at hAgain
    obtain ⟨_, hDebug, hSs⟩ := goOn_plain hAgain
    have hDebug : b.singlestepEnabled = false := hCode.debug.symm.trans hDebug
    have hSs : b.ssActive = false := hCode.ss.symm.trans hSs
    rw [hDebug, hSs, Bool.false_or, Bool.false_or] at hStep
    simp [goOn, hStep] at hAgain

end Blocks

section Runs

theorem Cpu.SameRegs.eq {cpu cpu' : Cpu} (h : cpu.SameRegs false cpu') (hPc : cpu'.pc = cpu.pc) :
    cpu' = cpu := by
  obtain ⟨hX, hFlags, hSs⟩ := h
  cases cpu
  cases cpu'
  simp only [Cpu.mk.injEq]
  exact ⟨hPc, hX, hFlags, hSs rfl⟩

/-- A run of the main loop: block after block, each made of the guest code at the pc,
of any size, with its slots linked by earlier exits, and with or without a debugger
that single-steps it. The number counts instructions. -/
inductive BlocksRun (q : BlockQemu) (guest : Guest) (start : Cpu) :
    Cpu → List PrinterCall → Nat → Prop where
  | zero : BlocksRun q guest start start [] 0
  | succ {cpu : Cpu} {calls : List PrinterCall} {steps : Nat} {b : BlockInput} {host : Host}
      {e : TbExit} {s : Exec} (prior : BlocksRun q guest start cpu calls steps)
      (hMade : b.MadeOf guest) (hSs : b.ssActive = false) (hPc : cpu.pc = b.tbPc)
      (hKnown : Known q b guest) (hHost : host.TestsConditions)
      (hLinked : LinkedByExits host (generate q b).ops)
      (hExit : execute host (generate q b).ops cpu = .left e s) :
      BlocksRun q guest start s.cpu (calls ++ s.printed) (steps + (generate q b).icount)

variable {q : BlockQemu} {guest : Guest} {start finish : Cpu} {calls : List PrinterCall} {steps : Nat}

/-- Blocks do what the guest does. -/
theorem BlocksRun.guest_run (hOthers : OtherInsns q.toQemu guest)
    (run : BlocksRun q guest start finish calls steps) :
    guest.run steps start = some (finish, calls) := by
  induction run with
  | zero => rfl
  | @succ cpu calls steps b host e s prior hMade hSs hPc hKnown hHost hLinked hExit ih =>
      obtain ⟨cpu', calls', e', s', hGuest, hRun, _, _, hPrinted, hRegs, hPc'⟩ :=
        execute_generate hOthers hMade hKnown hHost hLinked hPc
      obtain ⟨rfl, rfl⟩ := Outcome.left.inj (hRun.symm.trans hExit)
      rw [hSs] at hRegs
      rw [hRegs.eq hPc', hPrinted]
      exact Guest.run_add ih hGuest

/-- A block of one instruction. -/
def oneInsn (guest : Guest) (pc : U64) : BlockInput where
  tbPc := pc
  tbCflags := 0
  ssActive := false
  pstateSs := false
  currentEl := 0
  debugTargetEl := 0
  ldlCode := guest.code
  breakpoints := []
  singlestepEnabled := false
  singlestep := true
  opBufFull _ := false

theorem unlinked_linkedByExits (code : Code) : LinkedByExits unlinkedHost code :=
  fun _ _ hSome => nomatch hSome

/-- One more block of one instruction. -/
theorem BlocksRun.step (hOthers : OtherInsns q.toQemu guest) {i : GuestInsn}
    (run : BlocksRun q guest start finish calls steps)
    (hInsn : guest.decode (guest.code finish.pc) = some i) :
    BlocksRun q guest start (i.next finish) (calls ++ i.calls finish) (steps + 1) := by
  let b := oneInsn guest finish.pc
  have hMade : b.MadeOf guest := ⟨rfl, rfl, fun hSs => nomatch hSs⟩
  have hOne : (generate q b).icount = 1 :=
    generate_icount_one hOthers hMade (Option.isSome_iff_exists.mpr ⟨i, hInsn⟩) rfl
  have hKnown : Known q b guest := by
    intro k hk
    obtain rfl : k = 0 := by omega
    rw [insnAddr_zero]
    exact Option.isSome_iff_exists.mpr ⟨i, hInsn⟩
  have hLinked := unlinked_linkedByExits (generate q b).ops
  obtain ⟨cpu', calls', e, s, hGuest, hRun, _, _, hPrinted, hRegs, hPc⟩ :=
    execute_generate hOthers hMade hKnown (fun _ _ _ => rfl) hLinked rfl
  rw [hOne, Guest.run_one hInsn] at hGuest
  obtain ⟨rfl, rfl⟩ := Prod.mk.inj (Option.some.inj hGuest)
  have hRest := run.succ hMade rfl rfl hKnown (fun _ _ _ => rfl) hLinked hRun
  rwa [hRegs.eq hPc, hPrinted, hOne] at hRest

/-- Blocks can be chosen so as to follow any run of the guest. -/
theorem BlocksRun.of_guest_run (hOthers : OtherInsns q.toQemu guest)
    (h : guest.run steps start = some (finish, calls)) :
    BlocksRun q guest start finish calls steps := by
  induction steps generalizing finish calls with
  | zero =>
      obtain ⟨rfl, rfl⟩ := Prod.mk.inj (Option.some.inj h)
      exact .zero
  | succ steps ih =>
      obtain ⟨cpu, first, later, hFirst, hLast, rfl⟩ := Guest.run_split h
      rw [Guest.run, Option.bind_eq_bind, Option.bind_eq_some_iff] at hLast
      obtain ⟨i, hInsn, hRest⟩ := hLast
      obtain ⟨rfl, rfl⟩ := Prod.mk.inj (Option.some.inj hRest)
      rw [List.append_nil]
      exact (ih hFirst).step hOthers hInsn

/-- The block translator preserves the meaning of the guest code: what blocks reach
and trace is exactly what the guest reaches and does, instruction by instruction. -/
theorem blocksRun_iff (q : BlockQemu) (guest : Guest) (hOthers : OtherInsns q.toQemu guest)
    (start finish : Cpu) (calls : List PrinterCall) (steps : Nat) :
    BlocksRun q guest start finish calls steps ↔ guest.run steps start = some (finish, calls) :=
  ⟨fun run => run.guest_run hOthers, .of_guest_run hOthers⟩

/-- For code made of branches, ADR, ADRP, MOVZ and MOVN nothing is left to assume about the
translator, whatever the rest of it does. -/
theorem blocksRun_iff_of_moves (q : BlockQemu) (movk : U32 → Var → Gen Unit)
    (others : U32 → Gen Unit) (code : U64 → U32) (start finish : Cpu) (calls : List PrinterCall)
    (steps : Nat) :
    BlocksRun { q with disasOtherClass := disasDataProcImm q.toQemu movk others }
        ⟨code, moveImmediate⟩ start finish calls steps ↔
      Guest.run ⟨code, moveImmediate⟩ steps start = some (finish, calls) :=
  ⟨fun run => run.guest_run (otherInsns_moveImmediate movk others code),
    .of_guest_run (otherInsns_moveImmediate movk others code)⟩

/-- The constants of QEMU for blocks, and the start of the sample. -/
def sampleBlockQemu : BlockQemu :=
  { sampleQemu with CF_COUNT_MASK := 0x7fff, TCG_MAX_INSNS := 512, TARGET_PAGE_SIZE := 0x1000 }

def sampleStart : Cpu := resetCpu.at 0x1000

theorem sampleBlockQemu_others : OtherInsns sampleBlockQemu.toQemu sampleGuest :=
  otherInsns_moveImmediate _ _ _

/-- Four instructions, two of which are branches to a fixed offset. -/
theorem blocksRun_iff_sample :
    ∃ finish, BlocksRun sampleBlockQemu sampleGuest sampleStart finish
      [⟨0x1008, 0x100c, 1⟩, ⟨0x1010, 0x1010, 1⟩] 4 ∧ finish.pc = 0x1010 :=
  ⟨_, (blocksRun_iff sampleBlockQemu sampleGuest sampleBlockQemu_others sampleStart _ _ 4).mpr rfl,
    rfl⟩

/-- How the guest code is cut into blocks, how these are linked, and whether a debugger
single-steps them has no influence on the trace. -/
theorem trace_independent_of_blocks {q' : BlockQemu} {finish' : Cpu} {calls' : List PrinterCall}
    {steps' : Nat} (hOthers : OtherInsns q.toQemu guest) (hOthers' : OtherInsns q'.toQemu guest)
    (run : BlocksRun q guest start finish calls steps)
    (run' : BlocksRun q' guest start finish' calls' steps') (hSteps : steps ≤ steps') :
    calls <+: calls' ∧ (steps = steps' → finish = finish' ∧ calls = calls') := by
  have hGuest := run.guest_run hOthers
  have hGuest' := run'.guest_run hOthers'
  constructor
  · obtain ⟨more, rfl⟩ := Nat.exists_eq_add_of_le hSteps
    obtain ⟨cpu, first, later, hFirst, _, rfl⟩ := Guest.run_split hGuest'
    obtain ⟨_, rfl⟩ := Prod.mk.inj (Option.some.inj (hGuest.symm.trans hFirst))
    exact List.prefix_append calls later
  · rintro rfl
    exact Prod.mk.inj (Option.some.inj (hGuest.symm.trans hGuest'))

/-- The sample from its start in a block that is not cut short. -/
def sampleBlock : BlockInput := { oneInsn sampleGuest 0x1000 with singlestep := false }

/-- The first two instructions of the sample as one block, and all four one by one. -/
theorem trace_independent_of_blocks_sample :
    ∃ finish calls, BlocksRun sampleBlockQemu sampleGuest sampleStart finish calls 2 ∧
      calls <+: [⟨0x1008, 0x100c, 1⟩, ⟨0x1010, 0x1010, 1⟩] := by
  have hKnown : Known sampleBlockQemu sampleBlock sampleGuest := by
    intro k hk
    have hTwo : (generate sampleBlockQemu sampleBlock).icount = 2 := rfl
    obtain rfl | rfl : k = 0 ∨ k = 1 := by omega
    · rfl
    · rfl
  have run := BlocksRun.zero.succ (b := sampleBlock) ⟨rfl, rfl, fun hSs => nomatch hSs⟩ rfl
    (rfl : sampleStart.pc = 0x1000) hKnown (fun _ _ _ => rfl) (unlinked_linkedByExits _) rfl
  have run' := BlocksRun.of_guest_run sampleBlockQemu_others
    (rfl : sampleGuest.run 4 sampleStart = some (_, [⟨0x1008, 0x100c, 1⟩, ⟨0x1010, 0x1010, 1⟩]))
  exact ⟨_, _, run, (trace_independent_of_blocks sampleBlockQemu_others sampleBlockQemu_others run
    run' (by decide)).1⟩

/-- A single-stepped block executes one instruction, with the same trace as without
single steps, and ends in an exception in front of the next one. -/
theorem single_step_block {b : BlockInput} {host : Host} {cpu : Cpu}
    (hOthers : OtherInsns q.toQemu guest) (hMade : b.MadeOf guest) {i : GuestInsn}
    (hInsn : guest.decode (guest.code cpu.pc) = some i) (hPc : cpu.pc = b.tbPc)
    (hStep : (b.singlestepEnabled || b.ssActive) = true) (hHost : host.TestsConditions)
    (hLinked : LinkedByExits host (generate q b).ops) :
    ∃ e s, execute host (generate q b).ops cpu = .left e s ∧
      ((∃ excp, e = .exceptionInternal excp ∧ b.singlestepEnabled = true) ∨
        ∃ excp syndrome el, e = .exception excp syndrome el ∧ b.ssActive = true) ∧
      s.printed = i.calls cpu ∧ s.cpu.pc = (i.next cpu).pc ∧
      (i.next cpu).SameRegs b.ssActive s.cpu := by
  have hSome : (guest.decode (guest.code b.tbPc)).isSome := by
    rw [← hPc, hInsn]
    rfl
  have hOne := generate_icount_one hOthers hMade hSome (by rw [hStep]; rfl)
  have hKnown : Known q b guest := by
    intro k hk
    obtain rfl : k = 0 := by omega
    rwa [insnAddr_zero]
  obtain ⟨cpu', calls, e, s, hGuest, hRun, hAlive, hFits, hPrinted, hRegs, hDest⟩ :=
    execute_generate hOthers hMade hKnown hHost hLinked hPc
  rw [hOne, Guest.run_one hInsn] at hGuest
  obtain ⟨rfl, rfl⟩ := Prod.mk.inj (Option.some.inj hGuest)
  refine ⟨e, s, hRun, ?_, hPrinted, hDest, hRegs⟩
  cases e with
  | exceptionInternal excp => exact Or.inl ⟨excp, rfl, hFits⟩
  | exception excp syndrome el => exact Or.inr ⟨excp, syndrome, el, rfl, hFits⟩
  | deadTemp => exact absurd rfl hAlive
  | chained n | mainLoop slot =>
      change (!b.singlestepEnabled && !b.ssActive) = true at hFits
      rw [← Bool.not_or, hStep] at hFits
      cases hFits

/-- The CBNZ of the sample, single-stepped by a debugger. -/
def sampleStep : BlockInput := { oneInsn sampleGuest 0x1004 with singlestepEnabled := true }

theorem single_step_block_cbnz :
    ∃ e s, execute unlinkedHost (generate sampleBlockQemu sampleStep).ops (resetCpu.at 0x1004) =
        .left e s ∧
      s.printed = [⟨0x1008, 0x100c, 0⟩] ∧ s.cpu.pc = 0x1008 := by
  obtain ⟨e, s, hRun, _, hPrinted, hPc, _⟩ := single_step_block (q := sampleBlockQemu)
    (b := sampleStep) (i := .imm (compImm 0xb5000040) false) sampleBlockQemu_others
    ⟨rfl, rfl, fun hSs => nomatch hSs⟩ rfl (rfl : (resetCpu.at 0x1004).pc = sampleStep.tbPc) rfl
    (fun _ _ _ => rfl) (unlinked_linkedByExits _)
  exact ⟨e, s, hRun, hPrinted, hPc⟩

end Runs

end BranchPrediction.Translator
