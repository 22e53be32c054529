import BranchPrediction.Translator.Block

/-! What the code of a branch leaves alone: every guest register but the link
register, and the flags. -/
namespace BranchPrediction.Translator

open ForwardCode StateSteps

section Operations

def Var.isReg : Var → Bool
  | .cpuX _ => true
  | .cpuPc | .temp _ => false

/-- The operations that write no guest register, and the exits that the single-step
settings allow. -/
def TcgOp.keepsRegs (debug ss : Bool) : TcgOp → Bool
  | .moviI32 ret _ | .moviI64 ret _ | .movI64 ret _ | .ext32uI64 ret _ | .andiI64 ret _ _ =>
      !ret.isReg
  | .brcondiI64 _ _ _ _ | .testCc _ _ | .helperPrinter _ _ _ => true
  | .gotoTb _ | .exitTb _ => !debug && !ss
  | .helperExceptionInternal _ => debug
  | .helperClearPstateSs | .helperExceptionWithSyndrome _ _ _ => ss
  | .helperExceptionReturn => false

def TbExit.fits (debug ss : Bool) : TbExit → Bool
  | .chained _ | .mainLoop _ => !debug && !ss
  | .exceptionInternal _ => debug
  | .exception _ _ _ => ss
  | .deadTemp => true

/-- Registers and flags are the same, and without single steps of the guest the
step bit too. -/
structure Cpu.SameRegs (ss : Bool) (cpu cpu' : Cpu) : Prop where
  X : cpu'.X = cpu.X
  flags : cpu'.flags = cpu.flags
  pstateSs : ss = false → cpu'.pstateSs = cpu.pstateSs

def Exec.SameRegs (ss : Bool) (s s' : Exec) : Prop := s.cpu.SameRegs ss s'.cpu

instance (ss : Bool) : Std.Refl (Exec.SameRegs ss) where
  refl _ := ⟨rfl, rfl, fun _ => rfl⟩

instance (ss : Bool) : IsTrans Exec (Exec.SameRegs ss) where
  trans _ _ _ h h' := ⟨h'.X.trans h.X, h'.flags.trans h.flags,
    fun hStep => (h'.pstateSs hStep).trans (h.pstateSs hStep)⟩

theorem Exec.write_sameRegs (ss : Bool) (s : Exec) {ret : Var} (hRet : ret.isReg = false)
    (value : U64) : s.SameRegs ss (s.write ret value) := by
  cases ret with
  | cpuPc | temp i => exact ⟨rfl, rfl, fun _ => rfl⟩
  | cpuX i => cases hRet

variable {debug ss : Bool}

/-- An operation on the value of a variable does nothing else if that is a dead temporary. -/
theorem Exec.withValue_sameRegs (s : Exec) (arg : Var) {k : U64 → Effect Nat Exec TbExit}
    (h : ∀ value, s.SameRegs ss (k value).state ∧ ∀ e ∈ (k value).exit?, e.fits debug ss) :
    s.SameRegs ss (s.withValue arg k).state ∧
      ∀ e ∈ (s.withValue arg k).exit?, e.fits debug ss := by
  unfold Exec.withValue
  cases s.read arg with
  | some value => exact h value
  | none => exact ⟨Std.Refl.refl s, fun e hExit => by cases hExit; rfl⟩

theorem stepOp_keepsRegs (host : Host) {op : TcgOp} (hOp : op.keepsRegs debug ss = true) (s : Exec) :
    s.SameRegs ss (stepOp host op s).state ∧
      ∀ e ∈ (stepOp host op s).exit?, e.fits debug ss := by
  have hSame : s.SameRegs ss s := Std.Refl.refl s
  have hEnd : s.SameRegs ss s.endBlock := ⟨rfl, rfl, fun _ => rfl⟩
  cases op with
  | moviI32 ret arg | moviI64 ret arg =>
      exact ⟨s.write_sameRegs ss (by simpa [TcgOp.keepsRegs] using hOp) _,
        fun e h => absurd h (Option.not_mem_none e)⟩
  | movI64 ret arg | ext32uI64 ret arg | andiI64 ret arg _ =>
      refine s.withValue_sameRegs arg fun value => ?_
      exact ⟨s.write_sameRegs ss (by simpa [TcgOp.keepsRegs] using hOp) _,
        fun e h => absurd h (Option.not_mem_none e)⟩
  | brcondiI64 cond arg1 arg2 label =>
      refine s.withValue_sameRegs arg1 fun value => ?_
      split_ifs <;> exact ⟨hEnd, fun e h => absurd h (Option.not_mem_none e)⟩
  | testCc cc label =>
      simp only [stepOp]
      split_ifs <;> exact ⟨hEnd, fun e h => absurd h (Option.not_mem_none e)⟩
  | gotoTb n =>
      simp only [stepOp]
      cases host.linked n with
      | some dest =>
          exact ⟨s.write_sameRegs ss (rfl : Var.cpuPc.isReg = false) dest,
            fun e hExit => by cases hExit; exact hOp⟩
      | none => exact ⟨hEnd, fun e h => absurd h (Option.not_mem_none e)⟩
  | exitTb slot => exact ⟨hSame, fun e hExit => by cases hExit; exact hOp⟩
  | helperPrinter pc addr tNt =>
      refine s.withValue_sameRegs pc fun _ => s.withValue_sameRegs addr fun _ =>
        s.withValue_sameRegs tNt fun _ => ?_
      exact ⟨⟨rfl, rfl, fun _ => rfl⟩, fun e h => absurd h (Option.not_mem_none e)⟩
  | helperClearPstateSs =>
      refine ⟨⟨rfl, rfl, fun hNone => ?_⟩, fun e h => absurd h (Option.not_mem_none e)⟩
      rw [hNone] at hOp
      cases hOp
  | helperExceptionInternal excp =>
      refine s.withValue_sameRegs excp fun _ => ?_
      exact ⟨hSame, fun e hExit => by cases hExit; exact hOp⟩
  | helperExceptionWithSyndrome excp syndrome targetEl =>
      refine s.withValue_sameRegs excp fun _ => s.withValue_sameRegs syndrome fun _ =>
        s.withValue_sameRegs targetEl fun _ => ?_
      exact ⟨hSame, fun e hExit => by cases hExit; exact hOp⟩
  | helperExceptionReturn => cases hOp

/-- Code of such operations keeps the registers, and leaves as the settings demand. -/
theorem run_keepsRegs (host : Host) {code : Code}
    (hCode : ∀ o, Item.op o ∈ code → o.keepsRegs debug ss = true)
    (target : Option Nat) (s : Exec) :
    s.SameRegs ss (run (tcg host) code target s).state ∧
      ∀ e ∈ (run (tcg host) code target s).exit?, e.fits debug ss :=
  run_along (fun o ho => stepOp_keepsRegs host (hCode o ho)) (fun _ => ⟨rfl, rfl, fun _ => rfl⟩)
    target s

end Operations

section Emission

variable {q : Qemu}

/-- A translation step keeps the pc and the single-step settings, and appends only
operations that keep the registers under these settings. -/
structure EmitsKept (g g' : Translation) : Prop where
  pc : g'.ctx.pc = g.ctx.pc
  debug : g'.ctx.singlestepEnabled = g.ctx.singlestepEnabled
  ss : g'.ctx.ssActive = g.ctx.ssActive
  ops : ∃ code, g'.ops = g.ops ++ code ∧
    ∀ o, Item.op o ∈ code → o.keepsRegs g.ctx.singlestepEnabled g.ctx.ssActive = true

/-- A step that emits nothing. -/
theorem EmitsKept.quiet {g g' : Translation} (hPc : g'.ctx.pc = g.ctx.pc)
    (hDebug : g'.ctx.singlestepEnabled = g.ctx.singlestepEnabled)
    (hSs : g'.ctx.ssActive = g.ctx.ssActive) (hOps : g'.ops = g.ops) : EmitsKept g g' :=
  ⟨hPc, hDebug, hSs, [], by rw [hOps, List.append_nil], fun _ h => nomatch h⟩

instance : Std.Refl EmitsKept where
  refl _ := .quiet rfl rfl rfl rfl

instance : IsTrans Translation EmitsKept where
  trans g g' g'' h h' := by
    obtain ⟨code, hOps, hCode⟩ := h.ops
    obtain ⟨later, hOps', hLater⟩ := h'.ops
    refine ⟨h'.pc.trans h.pc, h'.debug.trans h.debug, h'.ss.trans h.ss, code ++ later, ?_,
      fun o ho => ?_⟩
    · rw [hOps', hOps, List.append_assoc]
    · rcases List.mem_append.mp ho with ho | ho
      · exact hCode o ho
      · have hKept := hLater o ho
        rwa [h.debug, h.ss] at hKept

/-- One more operation. -/
theorem EmitsKept.emit {g g' : Translation} (h : EmitsKept g g') (op : TcgOp)
    (hOp : op.keepsRegs g.ctx.singlestepEnabled g.ctx.ssActive = true) :
    EmitsKept g ((emit op).run g').2 := by
  refine IsTrans.trans _ _ _ h ⟨rfl, rfl, rfl, [.op op], rfl, fun o ho => ?_⟩
  obtain rfl := Item.op.inj (List.mem_singleton.mp ho)
  rw [h.debug, h.ss]
  exact hOp

theorem emit_along {op : TcgOp} (hOp : ∀ debug ss, op.keepsRegs debug ss = true) :
    Along EmitsKept (emit op) := fun g => .emit (Std.Refl.refl g) op (hOp _ _)

theorem tcgTempNew_along : Along EmitsKept tcgTempNew := fun _ => .quiet rfl rfl rfl rfl

theorem genNewLabel_along : Along EmitsKept genNewLabel := fun _ => .quiet rfl rfl rfl rfl

theorem genSetLabel_along (label : Nat) : Along EmitsKept (genSetLabel label) :=
  fun _ => ⟨rfl, rfl, rfl, [.label label], rfl, fun o ho => by simp at ho⟩

theorem setIsJmp_along (isJmp : IsJmp) : Along EmitsKept (setIsJmp isJmp) :=
  fun _ => .quiet rfl rfl rfl rfl

theorem tcgConstI32_along (val : U32) : Along EmitsKept (tcgConstI32 val) :=
  fun g => (tcgTempNew_along g).emit (.moviI32 _ val) rfl

theorem tcgConstI64_along (val : U64) : Along EmitsKept (tcgConstI64 val) :=
  fun g => (tcgTempNew_along g).emit (.moviI64 _ val) rfl

theorem genPrinterCall_along (pc addr tNt : U64) : Along EmitsKept (genPrinterCall pc addr tNt) :=
  .bind (tcgConstI64_along pc) fun _ => .bind (tcgConstI64_along addr) fun _ =>
    .bind (tcgConstI64_along tNt) fun _ => emit_along fun _ _ => rfl

theorem genA64SetPcIm_along (val : U64) : Along EmitsKept (genA64SetPcIm val) :=
  emit_along fun _ _ => rfl

theorem genExceptionInternal_kept {excp : U32} {g g' : Translation} (h : EmitsKept g g')
    (hDebug : g.ctx.singlestepEnabled = true) :
    EmitsKept g ((genExceptionInternal excp).run g').2 :=
  ((tcgConstI32_along excp).after h).emit (.helperExceptionInternal _) hDebug

theorem genException_kept {excp syndrome el : U32} {g g' : Translation} (h : EmitsKept g g')
    (hSs : g.ctx.ssActive = true) :
    EmitsKept g ((genException excp syndrome el).run g').2 := by
  have hExcp := (tcgConstI32_along excp).after h
  have hSyndrome := (tcgConstI32_along syndrome).after hExcp
  have hEl := (tcgConstI32_along el).after hSyndrome
  exact hEl.emit (.helperExceptionWithSyndrome _ _ _) hSs

theorem genStepCompleteException_kept {g g' : Translation} (h : EmitsKept g g')
    (hSs : g.ctx.ssActive = true) :
    EmitsKept g ((genStepCompleteException q).run g').2 := by
  have hAdvance : EmitsKept g (genSsAdvance.run g').2 := by
    have hCtx : EmitsKept g { g' with ctx := { g'.ctx with pstateSs := false } } :=
      IsTrans.trans _ _ _ h (.quiet rfl rfl rfl rfl)
    rw [genSsAdvance_run (h.ss.trans hSs)]
    exact hCtx.emit .helperClearPstateSs hSs
  exact (setIsJmp_along .exc).after (genException_kept hAdvance hSs)

/-- In all its modes `gen_goto_tb` keeps the registers. -/
theorem genGotoTb_along (n : Nat) (dest : U64) : Along EmitsKept (genGotoTb q n dest) := by
  intro g
  have hStart : EmitsKept g g := Std.Refl.refl g
  change EmitsKept g ((if useGotoTb q g.ctx dest = true then _ else _ : Gen Unit).run g).2
  by_cases hUse : useGotoTb q g.ctx dest = true
  · rw [if_pos hUse]
    have hModes : (!g.ctx.singlestepEnabled && !g.ctx.ssActive) = true := by
      unfold useGotoTb at hUse
      cases hDebug : g.ctx.singlestepEnabled <;> cases hSs : g.ctx.ssActive <;>
        simp [hDebug, hSs] at hUse ⊢
    have hSet := (genA64SetPcIm_along dest).after (hStart.emit (.gotoTb n) hModes)
    exact (setIsJmp_along .tbJump).after (hSet.emit (.exitTb (some n)) hModes)
  · rw [if_neg hUse]
    have hSet := (genA64SetPcIm_along dest).after hStart
    let atDest := ((genA64SetPcIm dest).run g).2
    change EmitsKept g ((if g.ctx.ssActive = true then _ else _ : Gen Unit).run atDest).2
    by_cases hSs : g.ctx.ssActive = true
    · rw [if_pos hSs]
      exact genStepCompleteException_kept hSet hSs
    · rw [if_neg hSs]
      by_cases hDebug : g.ctx.singlestepEnabled = true
      · rw [if_pos hDebug]
        exact genExceptionInternal_kept hSet hDebug
      · rw [if_neg hDebug]
        have hModes : (!g.ctx.singlestepEnabled && !g.ctx.ssActive) = true := by
          rw [Bool.not_eq_true] at hSs hDebug
          rw [hSs, hDebug]
          rfl
        exact (setIsJmp_along .tbJump).after (hSet.emit (.exitTb none) hModes)

theorem newTmpA64_along : Along EmitsKept newTmpA64 :=
  .bind tcgTempNew_along fun _ => fun _ => .quiet rfl rfl rfl rfl

theorem cpuReg_along (reg : Nat) : Along EmitsKept (cpuReg reg) :=
  .ite (fun _ g => (newTmpA64_along g).emit (.moviI64 _ 0) rfl) fun _ => .pure _

theorem readCpuReg_along (reg : Nat) (sf : Bool) : Along EmitsKept (readCpuReg reg sf) := by
  intro g
  have hTemp := newTmpA64_along g
  by_cases hZero : reg = 31
  · subst reg
    exact hTemp.emit (.moviI64 _ 0) rfl
  · unfold readCpuReg
    simp only [ne_eq, hZero, not_false_eq_true, if_true]
    cases sf with
    | true => exact hTemp.emit (.movI64 _ (.cpuX reg)) rfl
    | false => exact hTemp.emit (.ext32uI64 _ (.cpuX reg)) rfl

end Emission

section Kinds

variable {q : Qemu} {insn : U32}

theorem EmitsKept.plain {g g' : Translation} (h : EmitsKept g g') (hPlain : g.Plain) : g'.Plain :=
  ⟨h.debug.trans hPlain.1, h.ss.trans hPlain.2⟩

/-- The translation of an instruction that ends the block and keeps the registers. -/
structure EndsBlock (m : Gen Unit) : Prop where
  kept : Along EmitsKept m
  tbJump : Ensures Translation.Plain m fun g => g.ctx.isJmp = .tbJump

theorem EndsBlock.bind_of {α : Type} {V : α → Prop} {m : Gen α} {f : α → Gen Unit}
    (hFirst : Along EmitsKept m) (hResult : ∀ g, V (m.run g).1) (hRest : ∀ a, V a → EndsBlock (f a)) :
    EndsBlock (m >>= f) where
  kept := hFirst.bind_of hResult fun a ha => (hRest a ha).kept
  tbJump g hPlain := (hRest _ (hResult g)).tbJump _ ((hFirst g).plain hPlain)

theorem EndsBlock.bind {α : Type} {m : Gen α} {f : α → Gen Unit} (hFirst : Along EmitsKept m)
    (hRest : ∀ a, EndsBlock (f a)) : EndsBlock (m >>= f) :=
  .bind_of (V := fun _ => True) hFirst (fun _ => trivial) fun a _ => hRest a

theorem EndsBlock.ite {c : Prop} [Decidable c] {m m' : Gen Unit} (hThen : c → EndsBlock m)
    (hElse : ¬ c → EndsBlock m') : EndsBlock (if c then m else m') := by
  by_cases hCond : c
  · rw [if_pos hCond]
    exact hThen hCond
  · rw [if_neg hCond]
    exact hElse hCond

theorem genGotoTb_endsBlock (n : Nat) (dest : U64) : EndsBlock (genGotoTb q n dest) where
  kept := genGotoTb_along n dest
  tbJump g hPlain := by
    change ((if useGotoTb q g.ctx dest = true then _ else _ : Gen Unit).run g).2.ctx.isJmp = _
    by_cases hUse : useGotoTb q g.ctx dest = true
    · rw [if_pos hUse]
      rfl
    · rw [if_neg hUse]
      let atDest := ((genA64SetPcIm dest).run g).2
      change ((if g.ctx.ssActive = true then _ else if g.ctx.singlestepEnabled = true then _
        else _ : Gen Unit).run atDest).2.ctx.isJmp = _
      rw [if_neg (by rw [hPlain.2]; decide), if_neg (by rw [hPlain.1]; decide)]
      rfl

theorem genTracedExits_endsBlock (addr : U64) (label : Nat) :
    EndsBlock (genTracedExits q addr label) :=
  .bind .get fun _ => .bind (genPrinterCall_along _ _ _) fun _ =>
    .bind (genGotoTb_along _ _) fun _ => .bind (genSetLabel_along label) fun _ =>
      .bind (genPrinterCall_along _ _ _) fun _ => genGotoTb_endsBlock _ _

theorem disasCompBImm_endsBlock (insn : U32) : EndsBlock (disasCompBImm q insn) :=
  .bind .get fun _ => .bind (readCpuReg_along _ _) fun _ => .bind genNewLabel_along fun _ =>
    .bind (emit_along fun _ _ => rfl) fun _ => genTracedExits_endsBlock _ _

theorem disasTestBImm_endsBlock (insn : U32) : EndsBlock (disasTestBImm q insn) := by
  refine .bind .get fun _ => .bind_of (V := fun v => v.isReg = false) tcgTempNew_along
    (fun _ => rfl) fun tcgCmp hCmp => ?_
  refine .bind (cpuReg_along _) fun _ => .bind (emit_along fun _ _ => ?_) fun _ => ?_
  · rw [TcgOp.keepsRegs, hCmp]
    rfl
  · exact .bind genNewLabel_along fun _ => .bind (emit_along fun _ _ => rfl) fun _ =>
      genTracedExits_endsBlock _ _

theorem genAlways_endsBlock (pc addr : U64) :
    EndsBlock (genPrinterCall pc addr 1 >>= fun _ => genGotoTb q 0 addr) :=
  .bind (genPrinterCall_along pc addr 1) fun _ => genGotoTb_endsBlock 0 addr

theorem disasCondBImm_endsBlock (hO0 : insn &&& (1 : U32) <<< 4 = 0)
    (hO1 : insn &&& (1 : U32) <<< 24 = 0) : EndsBlock (disasCondBImm q insn) := by
  refine .bind .get fun g => .ite (fun hBad => ?_) fun _ => .ite (fun _ => ?_) fun _ => ?_
  · exact absurd hBad (by rw [not_or, not_not, not_not]; exact ⟨hO0, hO1⟩)
  · exact .bind genNewLabel_along fun _ => .bind (emit_along fun _ _ => rfl) fun _ =>
      genTracedExits_endsBlock _ _
  · exact genAlways_endsBlock _ _

/-- The operation that sets the link register, if there is one. -/
def linkCode (link : Bool) (pc : U64) : Code :=
  if link then [.op (.moviI64 (.cpuX 30) pc)] else []

theorem linkCode_false (pc : U64) : linkCode false pc = [] := rfl

/-- What a translation function emits for a branch: the link, and then operations that
keep the registers. -/
structure EmitsBranch (link : Bool) (g g' : Translation) : Prop where
  kept : EmitsKept { g with ops := g.ops ++ linkCode link g.ctx.pc } g'
  tbJump : g.Plain → g'.ctx.isJmp = .tbJump

theorem EndsBlock.emitsBranch {m : Gen Unit} (h : EndsBlock m) (link : Bool) {g g' : Translation}
    (hRun : g' = (m.run { g with ops := g.ops ++ linkCode link g.ctx.pc }).2) :
    EmitsBranch link g g' where
  kept := by
    rw [hRun]
    exact h.kept _
  tbJump hPlain := by
    rw [hRun]
    exact h.tbJump _ hPlain

theorem EndsBlock.emitsBranch_unlinked {m : Gen Unit} (h : EndsBlock m) (g : Translation) :
    EmitsBranch false g (m.run g).2 :=
  h.emitsBranch false (by rw [linkCode_false, List.append_nil])

/-- B and BL set at most the link register. -/
theorem disasUncondBImm_emitsBranch (insn : U32) (g : Translation) :
    EmitsBranch (insn.getLsbD 31) g ((disasUncondBImm q insn).run g).2 := by
  apply (genAlways_endsBlock g.ctx.pc (branchTarget g.ctx.pc insn 0 26)).emitsBranch
  have hBit : insn &&& (1 : U32) <<< 31 = 0 ↔ insn.getLsbD 31 = false :=
    and_one_shiftLeft_eq_zero_iff insn (by decide)
  change ((if insn &&& (1 : U32) <<< 31 ≠ 0 then _ else _ : Gen Unit).run g).2 = _
  cases hLink : insn.getLsbD 31 with
  | true =>
      rw [if_pos (by rw [Ne, hBit, hLink]; decide)]
      rfl
  | false =>
      rw [if_neg (by rw [not_not, hBit, hLink]), linkCode_false, List.append_nil]

/-- BL among the branches to a fixed offset. -/
def linksImm (insn : U32) : Bool := insn.extractLsb' 26 6 = 0b100101#6

theorem linksImm_of_uncond (h : insn.extractLsb' 26 5 = 0b00101#5) :
    linksImm insn = insn.getLsbD 31 := by
  have hField := congrArg BitVec.toNat h
  rw [BitVec.extractLsb'_toNat, Nat.shiftRight_eq_div_pow] at hField
  change insn.toNat / 2 ^ 26 % 2 ^ 5 = 5 at hField
  rw [linksImm, BitVec.getLsbD, Nat.testBit_eq_decide_div_mod_eq, decide_eq_decide,
    ← BitVec.toNat_inj, BitVec.extractLsb'_toNat, Nat.shiftRight_eq_div_pow]
  change insn.toNat / 2 ^ 26 % 2 ^ 6 = 37 ↔ insn.toNat / 2 ^ 31 % 2 = 1
  omega

theorem linksImm_of_not_uncond (h : insn.extractLsb' 26 5 ≠ 0b00101#5) :
    linksImm insn = false := by
  rw [Ne, ← BitVec.toNat_inj, BitVec.extractLsb'_toNat, Nat.shiftRight_eq_div_pow] at h
  change ¬ insn.toNat / 2 ^ 26 % 2 ^ 5 = 5 at h
  rw [linksImm, decide_eq_false_iff_not, ← BitVec.toNat_inj, BitVec.extractLsb'_toNat,
    Nat.shiftRight_eq_div_pow]
  change ¬ insn.toNat / 2 ^ 26 % 2 ^ 6 = 37
  omega

theorem disasBExcSys_emitsBranch {b : ImmBranch} (h : immBranch insn = some b) (g : Translation) :
    EmitsBranch (linksImm insn) g ((disasBExcSys q insn).run g).2 := by
  unfold immBranch at h
  split_ifs at h with hUncond hComp hTest hCond
  · have hClass := uncondImm_class hUncond
    have hEmits := disasUncondBImm_emitsBranch (q := q) insn g
    rw [linksImm_of_uncond hUncond]
    simp only [List.mem_cons, List.not_mem_nil, or_false] at hClass
    rcases hClass with hClass | hClass | hClass | hClass <;> rw [disasBExcSys, hClass] <;>
      exact hEmits
  · have hClass := class_of_field (congrArg BitVec.toNat hComp)
    have hEmits := (disasCompBImm_endsBlock (q := q) insn).emitsBranch_unlinked g
    rw [linksImm_of_not_uncond hUncond]
    simp only [List.mem_cons, List.not_mem_nil, or_false] at hClass
    rcases hClass with hClass | hClass <;> rw [disasBExcSys, hClass] <;> exact hEmits
  · have hClass := class_of_field (congrArg BitVec.toNat hTest)
    have hEmits := (disasTestBImm_endsBlock (q := q) insn).emitsBranch_unlinked g
    rw [linksImm_of_not_uncond hUncond]
    simp only [List.mem_cons, List.not_mem_nil, or_false] at hClass
    rcases hClass with hClass | hClass <;> rw [disasBExcSys, hClass] <;> exact hEmits
  · obtain ⟨hClass, hO1⟩ := condImm_class hCond.1
    have hO0 : insn &&& (1 : U32) <<< 4 = 0 :=
      (and_one_shiftLeft_eq_zero_iff insn (by decide)).mpr hCond.2
    have hO1 : insn &&& (1 : U32) <<< 24 = 0 :=
      (and_one_shiftLeft_eq_zero_iff insn (by decide)).mpr hO1
    rw [linksImm_of_not_uncond hUncond, disasBExcSys, hClass]
    exact (disasCondBImm_endsBlock hO0 hO1).emitsBranch_unlinked g

end Kinds

section BlockEnd

variable {q : BlockQemu}

/-- What is emitted behind the last instruction keeps the registers. -/
theorem genBlockEnd_along : Along EmitsKept (genBlockEnd q) := by
  intro g
  have hStart : EmitsKept g g := Std.Refl.refl g
  change EmitsKept g ((if (g.ctx.singlestepEnabled || g.ctx.ssActive) && g.ctx.isJmp ≠ .exc then _
    else _ : Gen Unit).run g).2
  by_cases hStep : ((g.ctx.singlestepEnabled || g.ctx.ssActive) && g.ctx.isJmp ≠ .exc) = true
  · rw [if_pos hStep]
    have hRaise {g' : Translation} (h : EmitsKept g g') :
        EmitsKept g ((if g.ctx.singlestepEnabled then genExceptionInternal q.EXCP_DEBUG
          else genStepCompleteException q.toQemu : Gen Unit).run g').2 := by
      by_cases hDebug : g.ctx.singlestepEnabled = true
      · rw [if_pos hDebug]
        exact genExceptionInternal_kept h hDebug
      · rw [if_neg hDebug]
        rw [Bool.and_eq_true, Bool.or_eq_true] at hStep
        exact genStepCompleteException_kept h (hStep.1.resolve_left hDebug)
    by_cases hJump : g.ctx.isJmp ≠ .jump
    · rw [if_pos hJump]
      exact hRaise ((genA64SetPcIm_along g.ctx.pc).after hStart)
    · rw [if_neg hJump]
      exact hRaise hStart
  · rw [if_neg hStep]
    cases hIsJmp : g.ctx.isJmp with
    | next => exact genGotoTb_along 1 g.ctx.pc g
    | tbJump | exc => exact hStart
    | update | jump =>
        have hModes : (!g.ctx.singlestepEnabled && !g.ctx.ssActive) = true := by
          cases hDebug : g.ctx.singlestepEnabled <;> cases hSs : g.ctx.ssActive <;>
            simp [hDebug, hSs, hIsJmp] at hStep ⊢
        first
        | exact hStart.emit (.exitTb none) hModes
        | exact ((genA64SetPcIm_along g.ctx.pc).after hStart).emit (.exitTb none) hModes

end BlockEnd

end BranchPrediction.Translator
