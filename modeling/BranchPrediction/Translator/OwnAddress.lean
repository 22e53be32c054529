import BranchPrediction.Translator.Branches

/-! Under which address the branches appear in the trace. -/
namespace BranchPrediction.Translator

open ForwardCode

/-- The instruction words that `disas_b_exc_sys` decodes as branches: B and BL,
CBZ and CBNZ, TBZ and TBNZ, B.cond, and BR, BLR and RET. -/
inductive AllocatedBranch (insn : U32) : Prop where
  | uncondImm (h : (extract32 insn 25 7).toNat ∈ [0x0a, 0x0b, 0x4a, 0x4b])
  | compImm (h : (extract32 insn 25 7).toNat ∈ [0x1a, 0x5a])
  | testImm (h : (extract32 insn 25 7).toNat ∈ [0x1b, 0x5b])
  | condImm (h : (extract32 insn 25 7).toNat = 0x2a) (hO0 : insn &&& (1 : U32) <<< 4 = 0)
      (hO1 : insn &&& (1 : U32) <<< 24 = 0)
  | uncondReg (h : (extract32 insn 25 7).toNat = 0x6b) (hOp4 : extract32 insn 0 5 = 0)
      (hOp3 : extract32 insn 10 6 = 0) (hOp2 : extract32 insn 16 5 = 0x1f)
      (hOpc : (extract32 insn 21 4).toNat ∈ [0, 1, 2])

/-- The code that is generated for one instruction at `ctx.pc`, with the numbers
of the next temporary and label. -/
def translate (q : Qemu) (ctx : DisasContext) (temps labels : Nat) (insn : U32) : Code :=
  ((disasA64Insn q insn).run { ctx := ctx, ops := [], temps := temps, labels := labels }).2.ops

/-- The calls of `printer` while this code runs. -/
def printedCalls (host : Host) (code : Code) (cpu : Cpu) : List PrinterCall :=
  (execute host code cpu).state.printed

section Decode

theorem extract32_toNat (value : U32) (start : Nat) {length : Nat} (hLength : length ≤ 32) :
    (extract32 value start length).toNat = value.toNat / 2 ^ start % 2 ^ length := by
  have hMask : ∀ k ≤ 32, (BitVec.allOnes 32 >>> (32 - k)).toNat = 2 ^ k - 1 := by decide
  rw [extract32, BitVec.toNat_and, hMask length hLength, BitVec.toNat_ushiftRight,
    Nat.shiftRight_eq_div_pow, Nat.and_two_pow_sub_one_eq_mod]

/-- The class of an instruction is the low part of what `disas_b_exc_sys` looks at. -/
theorem extract32_class (insn : U32) :
    (extract32 insn 25 4).toNat = (extract32 insn 25 7).toNat % 16 := by
  rw [extract32_toNat insn 25 (by decide), extract32_toNat insn 25 (by decide)]
  omega

theorem AllocatedBranch.class_eq {insn : U32} (h : AllocatedBranch insn) :
    (extract32 insn 25 4).toNat = 0xa ∨ (extract32 insn 25 4).toNat = 0xb := by
  rw [extract32_class]
  cases h with
  | uncondImm h | compImm h | testImm h =>
      simp only [List.mem_cons, List.not_mem_nil, or_false] at h
      omega
  | condImm h => omega
  | uncondReg h => omega

variable {q : Qemu}

/-- A branch is translated with the pc already at the next instruction. -/
theorem translate_eq (ctx : DisasContext) (temps labels : Nat) {insn : U32}
    (h : AllocatedBranch insn) :
    translate q ctx temps labels insn = ((disasBExcSys q insn).run
      { ctx := { ctx with insn := insn, pc := ctx.pc + 4, fpAccessChecked := false }
        ops := [], temps := temps, labels := labels }).2.ops := by
  unfold translate disasA64Insn
  rcases h.class_eq with hClass | hClass <;> rw [hClass] <;> rfl

/-- Code that traces the pc of the context, or code that traces nothing. -/
def IsBranchCode (code : Code) (pc : U64) : Prop :=
  (∃ addr slot taken, TracesBranch code pc addr slot taken) ∨ ∃ dest, GoesTo code dest

/-- Every allocated branch is translated by the function of its class. -/
theorem disasBExcSys_code {insn : U32} (h : AllocatedBranch insn) (g : Translation) :
    ∃ code, Emits g ((disasBExcSys q insn).run g).2 code ∧ IsBranchCode code g.ctx.pc := by
  cases h with
  | uncondImm h =>
      obtain ⟨code, hCode, hTraces⟩ := disasUncondBImm_traces (q := q) insn g
      refine ⟨code, ?_, Or.inl ⟨_, _, _, hTraces⟩⟩
      simp only [List.mem_cons, List.not_mem_nil, or_false] at h
      rcases h with h | h | h | h <;> rw [disasBExcSys, h] <;> exact hCode
  | compImm h =>
      obtain ⟨code, hCode, hTraces⟩ := disasCompBImm_traces (q := q) insn g
      refine ⟨code, ?_, Or.inl ⟨_, _, _, hTraces⟩⟩
      simp only [List.mem_cons, List.not_mem_nil, or_false] at h
      rcases h with h | h <;> rw [disasBExcSys, h] <;> exact hCode
  | testImm h =>
      obtain ⟨code, hCode, hTraces⟩ := disasTestBImm_traces (q := q) insn g
      refine ⟨code, ?_, Or.inl ⟨_, _, _, hTraces⟩⟩
      simp only [List.mem_cons, List.not_mem_nil, or_false] at h
      rcases h with h | h <;> rw [disasBExcSys, h] <;> exact hCode
  | condImm h hO0 hO1 =>
      obtain ⟨code, slot, hCode, hTraces, _⟩ := disasCondBImm_traces (q := q) hO0 hO1 g
      refine ⟨code, ?_, Or.inl ⟨_, _, _, hTraces⟩⟩
      rw [disasBExcSys, h]
      exact hCode
  | uncondReg h hOp4 hOp3 hOp2 hOpc =>
      obtain ⟨code, hCode, hGoes⟩ := disasUncondBReg_goesTo (q := q) hOp4 hOp3 hOp2 hOpc g
      refine ⟨code, ?_, Or.inr ⟨_, hGoes⟩⟩
      rw [disasBExcSys, h]
      exact hCode

end Decode

section Calls

variable {q : Qemu}

/-- A branch to a fixed address calls `printer` once. -/
theorem TracesBranch.printedCalls_eq {code : Code} {pc addr : U64} {slot : Nat}
    {taken : Host → Cpu → Bool} (h : TracesBranch code pc addr slot taken) (host : Host)
    (cpu : Cpu) :
    printedCalls host code cpu = [⟨pc, addr, if taken host cpu then 1 else 0⟩] := by
  have hBranch := h host { cpu := cpu, temp := fun _ => none, printed := [] }
  dsimp only at hBranch
  split_ifs at hBranch ⊢ <;>
  · obtain ⟨e, s', hRun, _, hPrinted, _⟩ := hBranch
    rw [printedCalls, execute, hRun]
    exact hPrinted

/-- A branch to a register does not call it. -/
theorem GoesTo.printedCalls_eq {code : Code} {dest : Cpu → U64} (h : GoesTo code dest)
    (host : Host) (cpu : Cpu) : printedCalls host code cpu = [] := by
  obtain ⟨s', hRun, hPrinted, _⟩ := h host { cpu := cpu, temp := fun _ => none, printed := [] }
  rw [printedCalls, execute, hRun]
  exact hPrinted

/-- What the trace gets from an allocated branch: nothing, or one record with the
address of the next instruction. -/
theorem printedCalls_translate (ctx : DisasContext) (temps labels : Nat) {insn : U32}
    (h : AllocatedBranch insn) (host : Host) (cpu : Cpu) :
    printedCalls host (translate q ctx temps labels insn) cpu = [] ∨
      ∃ addr tNt, printedCalls host (translate q ctx temps labels insn) cpu =
        [⟨ctx.pc + 4, addr, tNt⟩] := by
  obtain ⟨code, hCode, hKind⟩ := disasBExcSys_code (q := q) h
    { ctx := { ctx with insn := insn, pc := ctx.pc + 4, fpAccessChecked := false }
      ops := [], temps := temps, labels := labels }
  have hTranslate : translate q ctx temps labels insn = code := by
    rw [translate_eq ctx temps labels h, hCode.ops, List.nil_append]
  rw [hTranslate]
  rcases hKind with ⟨addr, slot, taken, hTraces⟩ | ⟨dest, hGoes⟩
  · exact Or.inr ⟨addr, _, hTraces.printedCalls_eq host cpu⟩
  · exact Or.inl (hGoes.printedCalls_eq host cpu)

end Calls

section Sample

/-- QEMU in user emulation, as far as a branch needs it. -/
def userQemu : Qemu where
  configUserOnly := true
  EXCP_UDEF := 1
  EXCP_DEBUG := 0x10002
  CF_LAST_IO := 0x8000
  TARGET_PAGE_MASK := 0xfffffffffffff000
  synUncategorized := 0x2000000
  synSwstep sameEl isv isLdex :=
    (if sameEl then 0xce000022 else 0xca000022) ||| (if isv then 0x1000000 else 0) |||
      if isLdex then 0x40 else 0
  defaultExceptionEl _ := 1
  disasSystem _ := pure ()
  disasExc _ := pure ()
  disasOtherClass _ := pure ()

/-- The start of a block at this address. -/
def blockStart (pc : U64) : DisasContext where
  pc := pc
  insn := 0
  isJmp := .next
  singlestepEnabled := false
  ssActive := false
  pstateSs := false
  ssSameEl := false
  isLdex := false
  currentEl := 0
  fpAccessChecked := false
  tbPc := pc
  tbCflags := 0
  tmpA64 := []

/-- The architectural meaning of the condition codes. -/
def conditionHolds (cc : Nat) (flags : Flags) : Bool :=
  let base :=
    match cc / 2 with
    | 0 => flags.z
    | 1 => flags.c
    | 2 => flags.n
    | 3 => flags.v
    | 4 => flags.c && !flags.z
    | 5 => flags.n == flags.v
    | 6 => flags.n == flags.v && !flags.z
    | _ => true
  if cc % 2 = 1 ∧ cc < 14 then !base else base

/-- A block that is not linked. -/
def unlinkedHost : Host where
  linked _ := none
  testCc := conditionHolds
  exceptionReturn cpu := cpu

def resetCpu : Cpu where
  pc := 0
  X _ := 0
  flags := { n := false, z := false, c := false, v := false }
  pstateSs := false

end Sample

/-- The code of an instruction calls `printer` exactly once, with this pc. -/
def TracedOnceAs (pc : U64) (host : Host) (code : Code) (cpu : Cpu) : Prop :=
  ∃ addr tNt, printedCalls host code cpu = [⟨pc, addr, tNt⟩]

/-- No branch is traced under its own address. -/
theorem not_tracedOnceAs_own (q : Qemu) (ctx : DisasContext) (temps labels : Nat) {insn : U32}
    (h : AllocatedBranch insn) (host : Host) (cpu : Cpu) :
    ¬ TracedOnceAs ctx.pc host (translate q ctx temps labels insn) cpu := by
  rintro ⟨addr, tNt, hOwn⟩
  rcases printedCalls_translate (q := q) ctx temps labels h host cpu with hNone | ⟨_, _, hNext⟩
  · rw [hNone] at hOwn
    cases hOwn
  · rw [hNext, List.cons.injEq, PrinterCall.mk.injEq] at hOwn
    have hMoved : ctx.pc + 4 ≠ ctx.pc := by simp
    exact hMoved hOwn.1.1

/-- CBZ X0 to the instruction after the next. -/
theorem not_tracedOnceAs_own_cbz :
    ¬ TracedOnceAs (blockStart 0x1000).pc unlinkedHost
      (translate userQemu (blockStart 0x1000) 0 0 0xb4000040) resetCpu :=
  not_tracedOnceAs_own userQemu (blockStart 0x1000) 0 0 (.compImm (by decide)) unlinkedHost resetCpu

/-- B at 0x1000 is traced as the branch at 0x1004, and RET is not traced. -/
theorem branches_at_0x1000 :
    AllocatedBranch 0x14000002 ∧ AllocatedBranch 0xd65f03c0 ∧
      printedCalls unlinkedHost (translate userQemu (blockStart 0x1000) 0 0 0x14000002) resetCpu =
        [⟨0x1004, 0x1008, 1⟩] ∧
      printedCalls unlinkedHost (translate userQemu (blockStart 0x1000) 0 0 0xd65f03c0) resetCpu =
        [] ∧
      ¬ TracedOnceAs 0x1000 unlinkedHost
        (translate userQemu (blockStart 0x1000) 0 0 0x14000002) resetCpu := by
  have hCalls : printedCalls unlinkedHost
      (translate userQemu (blockStart 0x1000) 0 0 0x14000002) resetCpu =
        [⟨0x1004, 0x1008, 1⟩] := by decide +kernel
  refine ⟨.uncondImm (by decide), .uncondReg (by decide) (by decide) (by decide) (by decide)
    (by decide), hCalls, by decide +kernel, ?_⟩
  rintro ⟨addr, tNt, hOwn⟩
  rw [hCalls, List.cons.injEq, PrinterCall.mk.injEq] at hOwn
  exact absurd hOwn.1.1 (by decide)

end BranchPrediction.Translator
