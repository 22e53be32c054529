import BranchPrediction.Translator.Guest

/-! ADR, ADRP, MOVZ and MOVN: instructions that are no branches and are translated to
one move of a constant. -/
namespace BranchPrediction.Translator

open ForwardCode StateSteps

section Translate

variable (q : Qemu)

/-- Bits `start` to `start + length - 1` of a 64-bit word, signed. -/
def sextract64 (value : U64) (start length : Nat) : U64 :=
  (value <<< (64 - length - start)).sshiftRight (64 - length)

def disasPcRelAdr (insn : U32) : Gen Unit := do
  let g ← get
  let page := extract32 insn 31 1
  let offset := sextract64 (insn.setWidth 64) 5 19
  let offset := offset <<< 2 ||| (extract32 insn 29 2).setWidth 64
  let rd := extract32 insn 0 5
  let base := g.ctx.pc - 4
  let ret ← cpuReg rd.toNat
  if page ≠ 0 then emit (.moviI64 ret ((base &&& ~~~(0xfff : U64)) + offset <<< 12))
  else emit (.moviI64 ret (base + offset))

/-- MOVN and MOVZ; `movk` stands for the branch that MOVK takes. -/
def disasMovwImm (movk : U32 → Var → Gen Unit) (insn : U32) : Gen Unit := do
  let rd := extract32 insn 0 5
  let imm : U64 := (extract32 insn 5 16).setWidth 64
  let sf := extract32 insn 31 1
  let opc := extract32 insn 29 2
  let pos := extract32 insn 21 2 <<< 4
  let tcgRd ← cpuReg rd.toNat
  if sf = 0 ∧ pos.toNat ≥ 32 then unallocatedEncoding q
  else
    match opc.toNat with
    | 0 | 2 =>
        let imm := imm <<< pos.toNat
        let imm := if opc = 0 then ~~~imm else imm
        let imm := if sf = 0 then imm &&& 0xffffffff else imm
        emit (.moviI64 tcgRd imm)
    | 3 => movk insn tcgRd
    | _ => unallocatedEncoding q

/-- `others` stands for the other instructions of the class, and for the other classes. -/
def disasDataProcImm (movk : U32 → Var → Gen Unit) (others : U32 → Gen Unit) (insn : U32) :
    Gen Unit :=
  match (extract32 insn 23 6).toNat with
  | 0x20 | 0x21 => disasPcRelAdr insn
  | 0x25 => disasMovwImm q movk insn
  | _ => others insn

end Translate

section Architecture

/-- Write a register; number 31 is the zero register. -/
def Cpu.setReg (cpu : Cpu) (reg : Nat) (value : U64) : Cpu :=
  if reg = 31 then cpu else { cpu with X := Function.update cpu.X reg value }

/-- The offset of ADR and ADRP. -/
def adrImm (insn : U32) : BitVec 21 := insn.extractLsb' 5 19 ++ insn.extractLsb' 29 2

/-- What ADR and ADRP leave in their register. -/
def adrValue (insn : U32) (pc : U64) : U64 :=
  if insn.getLsbD 31 then (pc &&& ~~~(0xfff : U64)) + (adrImm insn ++ 0#12).signExtend 64
  else pc + (adrImm insn).signExtend 64

/-- The constant of MOVZ, and its complement for MOVN, at the width of the register. -/
def movValue (width : Nat) (insn : U32) : U64 :=
  let imm := (insn.extractLsb' 5 16).setWidth width <<< (16 * (insn.extractLsb' 21 2).toNat)
  (if insn.getLsbD 30 then imm else ~~~imm).setWidth 64

/-- The effect of ADR, ADRP, MOVZ and MOVN. -/
def moveImmediate (insn : U32) : Option (Cpu → Cpu) :=
  let rd := (insn.extractLsb' 0 5).toNat
  if insn.extractLsb' 24 5 = 0b10000#5 then
    some fun cpu => cpu.setReg rd (adrValue insn cpu.pc)
  else if insn.extractLsb' 23 6 = 0b100101#6 ∧ insn.getLsbD 29 = false then
    if insn.getLsbD 31 then some fun cpu => cpu.setReg rd (movValue 64 insn)
    else if insn.getLsbD 22 = false then some fun cpu => cpu.setReg rd (movValue 32 insn)
    else none
  else none

end Architecture

section Values

/-- A signed field with more bits below it. -/
theorem signExtend_append {n k w : Nat} (hn : 0 < n) (x : BitVec n) (y : BitVec k) :
    x.signExtend w <<< k ||| y.setWidth w = (x ++ y).signExtend w := by
  apply BitVec.eq_of_getLsbD_eq
  intro i hi
  have hMsb : (x ++ y).msb = x.msb := by
    rw [BitVec.msb_append]
    simp [Nat.ne_of_gt hn]
  simp only [BitVec.getLsbD_or, BitVec.getLsbD_shiftLeft, BitVec.getLsbD_signExtend,
    BitVec.getLsbD_append, BitVec.getLsbD_setWidth, hMsb, hi, decide_true, Bool.true_and]
  by_cases hLow : i < k
  · have hIn : i < n + k := by omega
    simp [hLow, hIn]
  · have hAbove : i - k < w := by omega
    have hIff : i - k < n ↔ i < n + k := by omega
    have hNone : y.getLsbD i = false := BitVec.getLsbD_of_ge y i (by omega)
    simp only [hLow, hAbove, hNone, decide_true, decide_false, Bool.not_false, Bool.true_and,
      Bool.or_false, hIff]
    rfl

theorem sextract64_eq (insn : U32) {start length : Nat} (hLength : 0 < length)
    (hInside : start + length ≤ 32) :
    sextract64 (insn.setWidth 64) start length = (insn.extractLsb' start length).signExtend 64 := by
  apply BitVec.eq_of_getLsbD_eq
  intro i hi
  have hWord : ¬ 64 ≤ i := by omega
  rw [sextract64, BitVec.getLsbD_sshiftRight, BitVec.getLsbD_signExtend, BitVec.msb_eq_getLsbD_last,
    BitVec.msb_eq_getLsbD_last]
  simp only [BitVec.getLsbD_shiftLeft, BitVec.getLsbD_extractLsb', BitVec.getLsbD_setWidth, hWord,
    hi, decide_false, decide_true, Bool.not_false, Bool.true_and]
  by_cases hField : i < length
  · have hUp : 64 - length + i < 64 := by omega
    have hLow : ¬ 64 - length + i < 64 - length - start := by omega
    have hBit : 64 - length + i - (64 - length - start) = start + i := by omega
    have hIn : start + i < 64 := by omega
    simp only [hUp, hField, hLow, hBit, hIn, if_true, decide_true, decide_false, Bool.not_false,
      Bool.true_and]
  · have hUp : ¬ 64 - length + i < 64 := by omega
    have hLow : ¬ 64 - 1 < 64 - length - start := by omega
    have hBit : 64 - 1 - (64 - length - start) = start + (length - 1) := by omega
    have hTop : length - 1 < length := by omega
    have hIn : start + (length - 1) < 64 := by omega
    simp only [hUp, hField, hLow, hBit, hTop, hIn, if_false, decide_true, decide_false, Bool.not_false,
      Bool.true_and, Nat.reduceSub, Nat.reduceLT]

theorem and_low_half (x : U64) : x &&& 0xffffffff = (x.setWidth 32).setWidth 64 := by
  apply BitVec.eq_of_toNat_eq
  rw [BitVec.toNat_and, BitVec.toNat_setWidth_of_le (by decide), BitVec.toNat_setWidth]
  exact Nat.and_two_pow_sub_one_eq_mod x.toNat 32

theorem extract32_setWidth (insn : U32) (start : Nat) {length : Nat} (hLength : length ≤ 32) :
    (extract32 insn start length).setWidth 64 = (insn.extractLsb' start length).setWidth 64 := by
  apply BitVec.eq_of_toNat_eq
  rw [BitVec.toNat_setWidth, BitVec.toNat_setWidth, extract32_eq_toNat insn start hLength]

/-- The offset that `disas_pc_rel_adr` puts together. -/
theorem adrOffset_eq (insn : U32) :
    sextract64 (insn.setWidth 64) 5 19 <<< 2 ||| (extract32 insn 29 2).setWidth 64 =
      (adrImm insn).signExtend 64 := by
  rw [sextract64_eq insn (by decide) (by decide), extract32_setWidth insn 29 (by decide),
    signExtend_append (by decide), adrImm]

theorem adrpOffset_eq (offset : BitVec 21) :
    offset.signExtend 64 <<< 12 = (offset ++ 0#12).signExtend 64 := by
  rw [← signExtend_append (by decide)]
  simp

/-- The bits that tell MOVZ from MOVN, and the shift of the constant. -/
theorem movFields (insn : U32) (hBit : insn.getLsbD 29 = false) :
    (extract32 insn 29 2).toNat = (if insn.getLsbD 30 then 2 else 0) ∧
      (extract32 insn 21 2 <<< 4).toNat = 16 * (insn.extractLsb' 21 2).toNat := by
  have hHw := (insn.extractLsb' 21 2).isLt
  constructor
  · rw [BitVec.getLsbD, Nat.testBit_eq_decide_div_mod_eq, decide_eq_false_iff_not] at hBit
    rw [extract32_toNat insn 29 (by decide), BitVec.getLsbD, Nat.testBit_eq_decide_div_mod_eq]
    simp only [decide_eq_true_eq]
    split_ifs <;> omega
  · rw [BitVec.toNat_shiftLeft, extract32_eq_toNat insn 21 (by decide), Nat.shiftLeft_eq]
    omega

/-- In the 32-bit case the constant is cut to the low half. -/
theorem movValue_32 (insn : U32) : movValue 32 insn = movValue 64 insn &&& 0xffffffff := by
  have hShift (imm : BitVec 16) (k : Nat) :
      (imm.setWidth 64 <<< k).setWidth 32 = imm.setWidth 32 <<< k := by
    rw [BitVec.setWidth_shiftLeft_of_le (by decide), BitVec.setWidth_setWidth_of_le _ (by decide)]
  rw [and_low_half]
  simp only [movValue, BitVec.setWidth_eq]
  cases insn.getLsbD 30 with
  | true => simp only [if_true, hShift]
  | false =>
      simp only [Bool.false_eq_true, if_false]
      rw [BitVec.setWidth_not (by decide : 32 ≤ 64), hShift]

end Values

section Correct

variable {q : Qemu}

/-- A constant moved to a register, or to a temporary instead of the zero register. -/
theorem moveConst_falls (rd : Nat) (value : U64) (pc : U64) (g : Translation) :
    ∃ code, Appends g ((cpuReg rd >>= fun ret => emit (.moviI64 ret value)).run g).2 code ∧
      FallsThrough code pc (fun cpu => cpu.setReg rd value) ∧
      ((cpuReg rd >>= fun ret => emit (.moviI64 ret value)).run g).2.ctx.pc = g.ctx.pc ∧
      ((cpuReg rd >>= fun ret => emit (.moviI64 ret value)).run g).2.ctx.isJmp = g.ctx.isJmp := by
  by_cases hZero : rd = 31
  · subst rd
    refine ⟨[.op (.moviI64 (.temp g.temps) 0), .op (.moviI64 (.temp g.temps) value)],
      ⟨?_, rfl, rfl⟩, fun _ _ s => ⟨_, rfl, rfl, fun _ => rfl⟩, rfl, rfl⟩
    change g.ops ++ [_] ++ [_] = _
    rw [List.append_assoc]
    rfl
  · rw [cpuReg, if_neg hZero]
    refine ⟨[.op (.moviI64 (.cpuX rd) value)], ⟨rfl, rfl, rfl⟩, fun _ _ s => ⟨_, rfl, rfl, ?_⟩,
      rfl, rfl⟩
    intro pc'
    simp only [Cpu.setReg, if_neg hZero]
    rfl

theorem FallsThrough.congr {code : Code} {pc : U64} {effect : Cpu → Cpu}
    (h : FallsThrough code pc effect) (effect' : Cpu → Cpu)
    (hSame : ∀ cpu, cpu.pc = pc → effect cpu = effect' cpu) : FallsThrough code pc effect' := by
  intro host hHost s
  obtain ⟨s', hRun, hPrinted, hEffect⟩ := h host hHost s
  rw [hSame (s.cpu.at pc) rfl] at hEffect
  exact ⟨s', hRun, hPrinted, hEffect⟩

theorem disasPcRelAdr_eq (insn : U32) (g : Translation) :
    (disasPcRelAdr insn).run g = (cpuReg (insn.extractLsb' 0 5).toNat >>= fun ret =>
      emit (.moviI64 ret (adrValue insn (g.ctx.pc - 4)))).run g := by
  have hRun : (disasPcRelAdr insn).run g = (cpuReg (extract32 insn 0 5).toNat >>= fun ret =>
      if extract32 insn 31 1 ≠ 0 then
        emit (.moviI64 ret ((g.ctx.pc - 4 &&& ~~~(0xfff : U64)) +
          (sextract64 (insn.setWidth 64) 5 19 <<< 2 ||| (extract32 insn 29 2).setWidth 64) <<< 12))
      else emit (.moviI64 ret (g.ctx.pc - 4 +
        (sextract64 (insn.setWidth 64) 5 19 <<< 2 ||| (extract32 insn 29 2).setWidth 64)))).run g := rfl
  rw [hRun, adrOffset_eq, adrpOffset_eq, extract32_eq_toNat insn 0 (by decide)]
  simp only [extract32_bit, adrValue]
  cases insn.getLsbD 31 <;> rfl

theorem disasMovwImm_eq (movk : U32 → Var → Gen Unit) {insn : U32} (hBit : insn.getLsbD 29 = false)
    (hHalf : insn.getLsbD 31 = false → insn.getLsbD 22 = false) (g : Translation) :
    (disasMovwImm q movk insn).run g = (cpuReg (insn.extractLsb' 0 5).toNat >>= fun ret =>
      emit (.moviI64 ret (movValue (if insn.getLsbD 31 then 64 else 32) insn))).run g := by
  obtain ⟨hOpc, hPos⟩ := movFields insn hBit
  have hHw := (insn.extractLsb' 21 2).isLt
  have hAllocated : ¬ (extract32 insn 31 1 = 0 ∧ (extract32 insn 21 2 <<< 4).toNat ≥ 32) := by
    rintro ⟨hSf, hLarge⟩
    have hSf : insn.getLsbD 31 = false := by
      rw [← Bool.not_eq_true, ← extract32_bit, not_not]
      exact hSf
    have hLow := hHalf hSf
    rw [BitVec.getLsbD, Nat.testBit_eq_decide_div_mod_eq, decide_eq_false_iff_not] at hLow
    rw [hPos, BitVec.extractLsb'_toNat, Nat.shiftRight_eq_div_pow] at hLarge
    omega
  rw [disasMovwImm, ← extract32_eq_toNat insn 0 (by decide : 5 ≤ 32)]
  refine congrArg (fun m : Gen Unit => m.run g) (bind_congr fun ret => ?_)
  have hOpcZero : extract32 insn 29 2 = 0 ↔ insn.getLsbD 30 = false := by
    rw [← BitVec.toNat_inj, hOpc]
    cases insn.getLsbD 30 <;> decide
  have hSf : extract32 insn 31 1 = 0 ↔ insn.getLsbD 31 = false := by
    rw [← Bool.not_eq_true, ← extract32_bit, not_not]
  rw [if_neg hAllocated, hOpc]
  simp only [hOpcZero, hSf, hPos, extract32_setWidth insn 5 (by decide : 16 ≤ 32)]
  have hMov : movValue 64 insn =
      let imm := (insn.extractLsb' 5 16).setWidth 64 <<< (16 * (insn.extractLsb' 21 2).toNat)
      if insn.getLsbD 30 then imm else ~~~imm := BitVec.setWidth_eq _
  cases hMovz : insn.getLsbD 30 <;> rw [hMovz] at hMov <;> cases insn.getLsbD 31 <;>
    simp only [Bool.false_eq_true, Bool.true_eq_false, if_true, if_false, movValue_32, hMov]

/-- The classes of the instructions with an effect here. -/
theorem moveImmediate_class {insn : U32} {effect : Cpu → Cpu} (h : moveImmediate insn = some effect) :
    (extract32 insn 25 4).toNat ∈ [0x8, 0x9] := by
  rw [extract32_toNat insn 25 (by decide)]
  simp only [List.mem_cons, List.not_mem_nil, or_false]
  unfold moveImmediate at h
  split_ifs at h with hAdr hMov <;> simp only [← BitVec.toNat_inj, BitVec.extractLsb'_toNat,
    Nat.shiftRight_eq_div_pow] at hAdr
  · change insn.toNat / 2 ^ 24 % 2 ^ 5 = 16 at hAdr
    omega
  all_goals
    have hField := congrArg BitVec.toNat hMov.1
    rw [BitVec.extractLsb'_toNat, Nat.shiftRight_eq_div_pow] at hField
    change insn.toNat / 2 ^ 23 % 2 ^ 6 = 37 at hField
    omega

/-- The translation of ADR, ADRP, MOVZ and MOVN has their effect. -/
theorem disasDataProcImm_falls (movk : U32 → Var → Gen Unit) (others : U32 → Gen Unit) {insn : U32}
    {effect : Cpu → Cpu} (h : moveImmediate insn = some effect) (g : Translation) :
    ∃ code, Appends g ((disasDataProcImm q movk others insn).run g).2 code ∧
      FallsThrough code (g.ctx.pc - 4) effect ∧
      ((disasDataProcImm q movk others insn).run g).2.ctx.pc = g.ctx.pc ∧
      ((disasDataProcImm q movk others insn).run g).2.ctx.isJmp = g.ctx.isJmp := by
  have hClass := extract32_toNat insn 23 (by decide : 6 ≤ 32)
  unfold moveImmediate at h
  by_cases hAdr : insn.extractLsb' 24 5 = 0b10000#5
  · rw [if_pos hAdr] at h
    obtain rfl := Option.some.inj h
    have hField := congrArg BitVec.toNat hAdr
    rw [BitVec.extractLsb'_toNat, Nat.shiftRight_eq_div_pow] at hField
    change insn.toNat / 2 ^ 24 % 2 ^ 5 = 16 at hField
    have hKind : (extract32 insn 23 6).toNat = 0x20 ∨ (extract32 insn 23 6).toNat = 0x21 := by omega
    obtain ⟨code, hCode, hFalls, hKept⟩ := moveConst_falls (insn.extractLsb' 0 5).toNat
      (adrValue insn (g.ctx.pc - 4)) (g.ctx.pc - 4) g
    rw [← disasPcRelAdr_eq] at hCode hKept
    have hEffect := hFalls.congr
      (fun cpu => cpu.setReg (insn.extractLsb' 0 5).toNat (adrValue insn cpu.pc))
      fun cpu hPc => by rw [hPc]
    rcases hKind with hKind | hKind <;> rw [disasDataProcImm, hKind] <;>
      exact ⟨code, hCode, hEffect, hKept⟩
  · rw [if_neg hAdr] at h
    by_cases hMov : insn.extractLsb' 23 6 = 0b100101#6 ∧ insn.getLsbD 29 = false
    · rw [if_pos hMov] at h
      have hField := congrArg BitVec.toNat hMov.1
      rw [BitVec.extractLsb'_toNat, Nat.shiftRight_eq_div_pow] at hField
      change insn.toNat / 2 ^ 23 % 2 ^ 6 = 37 at hField
      have hKind : (extract32 insn 23 6).toNat = 0x25 := by omega
      have hHalf : insn.getLsbD 31 = false → insn.getLsbD 22 = false := by
        intro hSf
        rw [hSf, if_neg (by decide)] at h
        by_contra hHigh
        rw [if_neg hHigh] at h
        cases h
      obtain ⟨code, hCode, hFalls, hKept⟩ := moveConst_falls (insn.extractLsb' 0 5).toNat
        (movValue (if insn.getLsbD 31 then 64 else 32) insn) (g.ctx.pc - 4) g
      rw [← disasMovwImm_eq (q := q) movk hMov.2 hHalf] at hCode hKept
      rw [disasDataProcImm, hKind]
      refine ⟨code, hCode, ?_, hKept⟩
      cases hSf : insn.getLsbD 31 with
      | true =>
          rw [hSf, if_pos rfl] at h hFalls
          obtain rfl := Option.some.inj h
          exact hFalls
      | false =>
          rw [hSf, if_neg (by decide)] at h hFalls
          rw [if_pos (hHalf hSf)] at h
          obtain rfl := Option.some.inj h
          exact hFalls
    · rw [if_neg hMov] at h
      cases h

/-- What the rest of the development asks of the instructions that are no branches, for
those that `disas_data_proc_imm` translates to one move. -/
theorem otherInsns_moveImmediate (movk : U32 → Var → Gen Unit) (others : U32 → Gen Unit)
    (code : U64 → U32) :
    OtherInsns { q with disasOtherClass := disasDataProcImm q movk others }
      ⟨code, moveImmediate⟩ where
  otherClass insn hSome := by
    obtain ⟨effect, hEffect⟩ := Option.isSome_iff_exists.mp hSome
    have hClass := moveImmediate_class hEffect
    simp only [List.mem_cons, List.not_mem_nil, or_false] at hClass ⊢
    omega
  translated _ _ h g := disasDataProcImm_falls movk others h g

end Correct

section Sample

/-- MOVZ X0, #5; CBNZ X0 over the next word; BL to the next word; RET. -/
def sampleGuest : Guest where
  code pc :=
    if pc = 0x1000 then 0xd28000a0 else if pc = 0x1004 then 0xb5000040
    else if pc = 0x100c then 0x94000001 else 0xd65f03c0
  other := moveImmediate

/-- QEMU in user emulation with the instructions that are translated to one move. -/
def sampleQemu : Qemu :=
  { userQemu with
    disasOtherClass := disasDataProcImm userQemu (fun _ _ => pure ()) fun _ => pure () }

end Sample

end BranchPrediction.Translator
