import BranchPrediction.Translator.OwnAddress

/-! The branches to a fixed offset, as the architecture describes them, and what
their translation tells `printer` about the control flow. -/
namespace BranchPrediction.Translator

open ForwardCode

/-- A branch to a fixed offset: the offset in bytes, and when it is taken. -/
structure ImmBranch where
  offset : U64
  condition : Cpu → Bool

/-- B and BL. -/
def uncondImm (insn : U32) : ImmBranch where
  offset := 4 * (insn.extractLsb' 0 26).signExtend 64
  condition := fun _ => true

/-- CBZ and CBNZ: bit 31 selects all 64 bits of the register, and bit 24 the test
for a value that is not zero. -/
def compImm (insn : U32) : ImmBranch where
  offset := 4 * (insn.extractLsb' 5 19).signExtend 64
  condition := fun cpu =>
    let value := cpu.operand (insn.extractLsb' 0 5).toNat true
    let isZero := if insn.getLsbD 31 then value = 0 else value.setWidth 32 = 0#32
    decide isZero ^^ insn.getLsbD 24

/-- TBZ and TBNZ: bit 24 is the value of the tested bit for which they branch. -/
def testImm (insn : U32) : ImmBranch where
  offset := 4 * (insn.extractLsb' 5 14).signExtend 64
  condition := fun cpu =>
    let value := cpu.operand (insn.extractLsb' 0 5).toNat true
    value.getLsbD (insn.extractLsb' 31 1 ++ insn.extractLsb' 19 5).toNat == insn.getLsbD 24

/-- B.cond. -/
def condImm (insn : U32) : ImmBranch where
  offset := 4 * (insn.extractLsb' 5 19).signExtend 64
  condition := fun cpu => conditionHolds (insn.extractLsb' 0 4).toNat cpu.flags

/-- The encodings of the branches to a fixed offset. -/
def immBranch (insn : U32) : Option ImmBranch :=
  if insn.extractLsb' 26 5 = 0b00101#5 then some (uncondImm insn)
  else if insn.extractLsb' 25 6 = 0b011010#6 then some (compImm insn)
  else if insn.extractLsb' 25 6 = 0b011011#6 then some (testImm insn)
  else if insn.extractLsb' 24 8 = 0b01010100#8 ∧ insn.getLsbD 4 = false then some (condImm insn)
  else none

section Offsets

/-- A field of the instruction word that is shifted up and down again is sign-extended. -/
theorem sextract32_eq (insn : U32) {start length : Nat} (hLength : 0 < length)
    (hInside : start + length ≤ 32) :
    sextract32 insn start length = (insn.extractLsb' start length).signExtend 32 := by
  apply BitVec.eq_of_getLsbD_eq
  intro i hi
  have hWord : ¬ 32 ≤ i := by omega
  rw [sextract32, BitVec.getLsbD_sshiftRight, BitVec.getLsbD_signExtend, BitVec.msb_eq_getLsbD_last,
    BitVec.msb_eq_getLsbD_last]
  simp only [BitVec.getLsbD_shiftLeft, BitVec.getLsbD_extractLsb', hWord, hi, decide_false,
    decide_true, Bool.not_false, Bool.true_and]
  by_cases hField : i < length
  · have hUp : 32 - length + i < 32 := by omega
    have hLow : ¬ 32 - length + i < 32 - length - start := by omega
    have hBit : 32 - length + i - (32 - length - start) = start + i := by omega
    simp only [hUp, hField, hLow, hBit, if_true, decide_true, decide_false, Bool.not_false,
      Bool.true_and]
  · have hUp : ¬ 32 - length + i < 32 := by omega
    have hLow : ¬ 32 - 1 < 32 - length - start := by omega
    have hBit : 32 - 1 - (32 - length - start) = start + (length - 1) := by omega
    have hTop : length - 1 < length := by omega
    simp only [hUp, hField, hLow, hBit, hTop, if_false, decide_true, decide_false, Bool.not_false,
      Bool.true_and, Nat.reduceSub, Nat.reduceLT]

/-- Four times a short field does not overflow an `int`. -/
theorem signExtend_mul_four {length : Nat} (hShort : length ≤ 29) (field : BitVec length) :
    (field.signExtend 32 * 4).signExtend 64 = 4 * field.signExtend 64 := by
  have hPow : 2 ^ length ≤ 2 ^ 29 := Nat.pow_le_pow_right (by decide) hShort
  have hPowInt : (2 : Int) ^ length ≤ 2 ^ 29 := by exact_mod_cast hPow
  have hLow := BitVec.le_two_mul_toInt (x := field)
  have hHigh := BitVec.two_mul_toInt_lt (x := field)
  have hFour32 : (4 : BitVec 32).toInt = 4 := by decide
  have hFour64 : (4 : BitVec 64).toInt = 4 := by decide
  apply BitVec.eq_of_toInt_eq
  rw [BitVec.toInt_signExtend_of_le (by decide), BitVec.toInt_mul, BitVec.toInt_mul,
    BitVec.toInt_signExtend_of_le (by omega), BitVec.toInt_signExtend_of_le (by omega), hFour32,
    hFour64, Int.bmod_eq_of_le_mul_two (by omega) (by omega),
    Int.bmod_eq_of_le_mul_two (by omega) (by omega), Int.mul_comm]

/-- The target that the translator computes with the pc already advanced. -/
theorem branchTarget_eq (pc : U64) (insn : U32) {start length : Nat} (hLength : 0 < length)
    (hInside : start + length ≤ 32) (hShort : length ≤ 29) :
    branchTarget (pc + 4) insn start length =
      pc + 4 * (insn.extractLsb' start length).signExtend 64 := by
  rw [branchTarget, sextract32_eq insn hLength hInside, signExtend_mul_four hShort]
  ring

end Offsets

section Fields

theorem extract32_eq_toNat (insn : U32) (start : Nat) {length : Nat} (hLength : length ≤ 32) :
    (extract32 insn start length).toNat = (insn.extractLsb' start length).toNat := by
  rw [extract32_toNat insn start hLength, BitVec.extractLsb'_toNat, Nat.shiftRight_eq_div_pow]

theorem extract32_bit (insn : U32) (n : Nat) : extract32 insn n 1 ≠ 0 ↔ insn.getLsbD n = true := by
  have hValue := extract32_toNat insn n (by decide : 1 ≤ 32)
  rw [ne_eq, ← BitVec.toNat_inj, hValue, BitVec.getLsbD, Nat.testBit_eq_decide_div_mod_eq,
    decide_eq_true_eq]
  change ¬ insn.toNat / 2 ^ n % 2 ^ 1 = 0 ↔ insn.toNat / 2 ^ n % 2 = 1
  omega

theorem and_one_shiftLeft_eq_zero_iff {w : Nat} (x : BitVec w) {n : Nat} (hn : n < w) :
    x &&& 1#w <<< n = 0 ↔ x.getLsbD n = false := by
  have hMask := BitVec.and_twoPow x n
  rw [BitVec.twoPow] at hMask
  rw [hMask]
  cases hBit : x.getLsbD n with
  | false => simp
  | true =>
      have hSet : 1#w <<< n ≠ 0#w := by
        intro hZero
        have hClear := congrArg (BitVec.getLsbD · n) hZero
        simp [hn] at hClear
      simpa using hSet

/-- The comparison with zero that the bit 24 selects. -/
theorem holds_zero (op : Bool) (value : U64) :
    TcgCond.holds (if op = true then .ne else .eq) value 0 = (decide (value = 0) ^^ op) := by
  cases op <;> simp [TcgCond.holds]

/-- The zero extension of the low half is zero exactly if that half is. -/
theorem operand_eq_zero_iff (cpu : Cpu) (reg : Nat) (sf : Bool) :
    cpu.operand reg sf = 0 ↔
      if sf = true then cpu.operand reg true = 0 else (cpu.operand reg true).setWidth 32 = 0#32 := by
  cases sf with
  | true => rfl
  | false =>
      by_cases hZero : reg = 31
      · simp [Cpu.operand, hZero]
      · have hExtend (half : BitVec 32) : half.setWidth 64 = 0#64 ↔ half = 0#32 := by
          rw [← BitVec.toNat_inj, ← BitVec.toNat_inj, BitVec.toNat_setWidth_of_le (by decide)]
          rfl
        simp only [Cpu.operand, if_neg hZero, Bool.false_eq_true, if_false, if_true]
        exact hExtend _

/-- The bit to test, from its two fields. -/
theorem testedBit_eq (insn : U32) :
    testedBit insn = (insn.extractLsb' 31 1 ++ insn.extractLsb' 19 5).toNat := by
  have hHigh := (insn.extractLsb' 31 1).isLt
  have hFits : (insn.extractLsb' 31 1).toNat <<< 5 < 2 ^ 32 := by
    rw [Nat.shiftLeft_eq]
    omega
  rw [testedBit, BitVec.toNat_or, BitVec.toNat_shiftLeft, extract32_eq_toNat insn 31 (by decide),
    extract32_eq_toNat insn 19 (by decide), Nat.mod_eq_of_lt hFits, BitVec.toNat_append]

/-- Condition codes 14 and 15 always hold. -/
theorem conditionHolds_always {cc : Nat} (hLow : 14 ≤ cc) (hHigh : cc < 16) (flags : Flags) :
    conditionHolds cc flags = true := by
  have hCases : cc = 14 ∨ cc = 15 := by omega
  rcases hCases with rfl | rfl <;> rfl

end Fields

section Kinds

variable {q : Qemu} {insn : U32}

theorem uncondImm_class (h : insn.extractLsb' 26 5 = 0b00101#5) :
    (extract32 insn 25 7).toNat ∈ [0x0a, 0x0b, 0x4a, 0x4b] := by
  have hField := congrArg BitVec.toNat h
  rw [BitVec.extractLsb'_toNat, Nat.shiftRight_eq_div_pow] at hField
  change insn.toNat / 2 ^ 26 % 2 ^ 5 = 5 at hField
  rw [extract32_toNat insn 25 (by decide)]
  simp only [List.mem_cons, List.not_mem_nil, or_false]
  omega

/-- Without its bit 31 the class of an instruction is six bits long. -/
theorem class_of_field {n : Nat} (h : (insn.extractLsb' 25 6).toNat = n) :
    (extract32 insn 25 7).toNat ∈ [n, n + 0x40] := by
  rw [BitVec.extractLsb'_toNat, Nat.shiftRight_eq_div_pow] at h
  rw [extract32_toNat insn 25 (by decide)]
  simp only [List.mem_cons, List.not_mem_nil, or_false]
  omega

theorem condImm_class (h : insn.extractLsb' 24 8 = 0b01010100#8) :
    (extract32 insn 25 7).toNat = 0x2a ∧ insn.getLsbD 24 = false := by
  have hField := congrArg BitVec.toNat h
  rw [BitVec.extractLsb'_toNat, Nat.shiftRight_eq_div_pow] at hField
  change insn.toNat / 2 ^ 24 % 2 ^ 8 = 0x54 at hField
  rw [extract32_toNat insn 25 (by decide), BitVec.getLsbD, Nat.testBit_eq_decide_div_mod_eq,
    decide_eq_false_iff_not]
  omega

/-- The code of a branch is that of its description: it computes the target, tests
the condition, and uses one jump slot for both exits only if it is always taken. -/
def Follows (code : Code) (pc : U64) (b : ImmBranch) : Prop :=
  ∃ slot taken, TracesBranch code (pc + 4) (pc + b.offset) slot taken ∧
    (slot = 0 → ∀ host cpu, taken host cpu = true) ∧
    ∀ host : Host, (∀ cc < 14, ∀ flags, host.testCc cc flags = conditionHolds cc flags) →
      ∀ cpu, taken host cpu = b.condition cpu

variable {g : Translation} {pc : U64} (hPc : g.ctx.pc = pc + 4)
include hPc

theorem uncondImm_follows (insn : U32) :
    ∃ code, Emits g ((disasUncondBImm q insn).run g).2 code ∧ Follows code pc (uncondImm insn) := by
  obtain ⟨code, hCode, hTraces⟩ := disasUncondBImm_traces (q := q) insn g
  rw [hPc, branchTarget_eq pc insn (by decide) (by decide) (by decide)] at hTraces
  exact ⟨code, hCode, 0, _, hTraces, fun _ _ _ => rfl, fun _ _ _ => rfl⟩

theorem compImm_follows (insn : U32) :
    ∃ code, Emits g ((disasCompBImm q insn).run g).2 code ∧ Follows code pc (compImm insn) := by
  obtain ⟨code, hCode, hTraces⟩ := disasCompBImm_traces (q := q) insn g
  rw [hPc, branchTarget_eq pc insn (by decide) (by decide) (by decide)] at hTraces
  refine ⟨code, hCode, 1, _, hTraces, fun hSame => absurd hSame Nat.one_ne_zero,
    fun _ _ cpu => ?_⟩
  simp only [extract32_bit, extract32_eq_toNat insn 0 (by decide : 5 ≤ 32), holds_zero, compImm]
  have hSf : decide (insn.getLsbD 31 = true) = insn.getLsbD 31 := Bool.decide_eq_true
  rw [hSf, decide_eq_decide.mpr (operand_eq_zero_iff cpu _ _)]

theorem testImm_follows (insn : U32) :
    ∃ code, Emits g ((disasTestBImm q insn).run g).2 code ∧ Follows code pc (testImm insn) := by
  obtain ⟨code, hCode, hTraces⟩ := disasTestBImm_traces (q := q) insn g
  rw [hPc, branchTarget_eq pc insn (by decide) (by decide) (by decide)] at hTraces
  refine ⟨code, hCode, 1, _, hTraces, fun hSame => absurd hSame Nat.one_ne_zero,
    fun _ _ cpu => ?_⟩
  simp only [extract32_bit, extract32_eq_toNat insn 0 (by decide : 5 ≤ 32), holds_zero, testImm]
  have hBit : testedBit insn < 64 := by
    rw [testedBit_eq]
    exact (insn.extractLsb' 31 1 ++ insn.extractLsb' 19 5).isLt
  let value := cpu.operand (insn.extractLsb' 0 5).toNat true
  have hTest : value &&& (1 : U64) <<< testedBit insn = 0 ↔ value.getLsbD (testedBit insn) = false :=
    and_one_shiftLeft_eq_zero_iff value hBit
  have hXor (bit op : Bool) : (decide (bit = false) ^^ op) = (bit == op) := by
    cases bit <;> cases op <;> rfl
  rw [← testedBit_eq, decide_eq_decide.mpr hTest]
  exact hXor (value.getLsbD (testedBit insn)) (insn.getLsbD 24)

theorem condImm_follows (hField : insn.extractLsb' 24 8 = 0b01010100#8)
    (hO0 : insn.getLsbD 4 = false) :
    ∃ code, Emits g ((disasCondBImm q insn).run g).2 code ∧ Follows code pc (condImm insn) := by
  obtain ⟨code, slot, hCode, hTraces, hSlot⟩ := disasCondBImm_traces (q := q)
    ((and_one_shiftLeft_eq_zero_iff insn (by decide)).mpr hO0)
    ((and_one_shiftLeft_eq_zero_iff insn (by decide)).mpr (condImm_class hField).2) g
  rw [hPc, branchTarget_eq pc insn (by decide) (by decide) (by decide)] at hTraces
  refine ⟨code, hCode, slot, _, hTraces, fun hSame _ _ => if_neg (Nat.not_lt.mpr (hSlot hSame)),
    fun host hTestCc cpu => ?_⟩
  rw [extract32_eq_toNat insn 0 (by decide : 4 ≤ 32)]
  by_cases hCond : (insn.extractLsb' 0 4).toNat < 0x0e
  · rw [if_pos hCond, hTestCc _ hCond]
    rfl
  · rw [if_neg hCond]
    exact (conditionHolds_always (Nat.le_of_not_lt hCond) (insn.extractLsb' 0 4).isLt cpu.flags).symm

end Kinds

section Dispatch

variable {q : Qemu} {insn : U32} {b : ImmBranch}

/-- The translator takes each branch to the function of its kind. -/
theorem disasBExcSys_follows (h : immBranch insn = some b) {g : Translation} {pc : U64}
    (hPc : g.ctx.pc = pc + 4) :
    AllocatedBranch insn ∧
      ∃ code, Emits g ((disasBExcSys q insn).run g).2 code ∧ Follows code pc b := by
  unfold immBranch at h
  split_ifs at h with hUncond hComp hTest hCond <;> obtain rfl := Option.some.inj h
  · have hClass := uncondImm_class hUncond
    refine ⟨.uncondImm hClass, ?_⟩
    simp only [List.mem_cons, List.not_mem_nil, or_false] at hClass
    rcases hClass with hClass | hClass | hClass | hClass <;> rw [disasBExcSys, hClass] <;>
      exact uncondImm_follows hPc insn
  · have hClass := class_of_field (congrArg BitVec.toNat hComp)
    refine ⟨.compImm hClass, ?_⟩
    simp only [List.mem_cons, List.not_mem_nil, or_false] at hClass
    rcases hClass with hClass | hClass <;> rw [disasBExcSys, hClass] <;>
      exact compImm_follows hPc insn
  · have hClass := class_of_field (congrArg BitVec.toNat hTest)
    refine ⟨.testImm hClass, ?_⟩
    simp only [List.mem_cons, List.not_mem_nil, or_false] at hClass
    rcases hClass with hClass | hClass <;> rw [disasBExcSys, hClass] <;>
      exact testImm_follows hPc insn
  · obtain ⟨hClass, hO1⟩ := condImm_class hCond.1
    refine ⟨.condImm hClass ((and_one_shiftLeft_eq_zero_iff insn (by decide)).mpr hCond.2)
      ((and_one_shiftLeft_eq_zero_iff insn (by decide)).mpr hO1), ?_⟩
    rw [disasBExcSys, hClass]
    exact condImm_follows hPc hCond.1 hCond.2

theorem translate_follows (ctx : DisasContext) (temps labels : Nat) (h : immBranch insn = some b) :
    Follows (translate q ctx temps labels insn) ctx.pc b := by
  let g : Translation :=
    { ctx := { ctx with insn := insn, pc := ctx.pc + 4, fpAccessChecked := false }
      ops := [], temps := temps, labels := labels }
  have hPc : g.ctx.pc = ctx.pc + 4 := rfl
  obtain ⟨hAllocated, code, hCode, hFollows⟩ := disasBExcSys_follows (q := q) h hPc
  have hTranslate : translate q ctx temps labels insn = code := by
    rw [translate_eq ctx temps labels hAllocated, hCode.ops, List.nil_append]
  rwa [hTranslate]

end Dispatch

section Execution

/-- The main loop links a jump slot of a block only behind an exit through that
slot, and to the block at the pc that the exit has left. -/
def LinkedByExits (host : Host) (code : Code) : Prop :=
  ∀ n dest, host.linked n = some dest →
    ∃ cpu s, execute { host with linked := fun _ => none } code cpu = .left (.mainLoop (some n)) s ∧
      s.cpu.pc = dest

variable {host : Host} {code : Code} {pc : U64} {b : ImmBranch}

/-- The exits of a traced branch that use a jump slot. -/
theorem TracesBranch.exit_through {next addr : U64} {slot n : Nat} {taken : Host → Cpu → Bool}
    (h : TracesBranch code next addr slot taken) (host : Host)
    (hUnlinked : ∀ m, host.linked m = none) {cpu : Cpu} {s : Exec}
    (hExit : execute host code cpu = .left (.mainLoop (some n)) s) :
    if taken host cpu then n = slot ∧ s.cpu.pc = addr else n = 0 ∧ s.cpu.pc = next := by
  have hFree (m : Nat) (dest : U64) : LinkedTo host m dest := by
    intro linked hSome
    rw [hUnlinked m] at hSome
    cases hSome
  have hBranch := h host { cpu := cpu, temp := fun _ => none, printed := [] }
  dsimp only at hBranch
  split_ifs at hBranch ⊢ <;>
  · obtain ⟨e, s', hRun, hSlot, _, hDest⟩ := hBranch
    rw [execute, hRun] at hExit
    obtain ⟨rfl, rfl⟩ := Outcome.left.inj hExit
    exact ⟨hSlot, hDest (hFree _ _)⟩

/-- What the execution of a branch does, however its jump slots are linked. -/
theorem Follows.exits (h : Follows code pc b)
    (hTestCc : ∀ cc < 14, ∀ flags, host.testCc cc flags = conditionHolds cc flags)
    (hLinked : LinkedByExits host code) (cpu : Cpu) :
    ∃ e s, execute host code cpu = .left e s ∧ e ≠ .deadTemp ∧
      s.printed = [⟨pc + 4, pc + b.offset, if b.condition cpu then 1 else 0⟩] ∧
      s.cpu.pc = if b.condition cpu then pc + b.offset else pc + 4 := by
  obtain ⟨slot, taken, hTraces, hSame, hCondition⟩ := h
  let unlinked : Host := { host with linked := fun _ => none }
  have hAlive {e : TbExit} {n : Nat} (hSlot : e.Through n) : e ≠ .deadTemp := by
    rintro rfl
    exact hSlot
  have hBranch := hTraces host { cpu := cpu, temp := fun _ => none, printed := [] }
  dsimp only at hBranch
  rw [hCondition host hTestCc cpu] at hBranch
  by_cases hTaken : b.condition cpu = true
  · rw [if_pos hTaken] at hBranch
    rw [if_pos hTaken, if_pos hTaken]
    obtain ⟨e, s, hRun, hSlot, hPrinted, hDest⟩ := hBranch
    refine ⟨e, s, hRun, hAlive hSlot, hPrinted, hDest fun dest hSome => ?_⟩
    obtain ⟨cpu', s', hExit, rfl⟩ := hLinked slot dest hSome
    have hThrough := hTraces.exit_through unlinked (fun _ => rfl) hExit
    split_ifs at hThrough with hOther
    · exact hThrough.2
    · exact absurd (hSame hThrough.1 unlinked cpu') hOther
  · rw [if_neg hTaken] at hBranch
    rw [if_neg hTaken, if_neg hTaken]
    obtain ⟨e, s, hRun, hSlot, hPrinted, hDest⟩ := hBranch
    refine ⟨e, s, hRun, hAlive hSlot, hPrinted, hDest fun dest hSome => ?_⟩
    obtain ⟨cpu', s', hExit, rfl⟩ := hLinked 0 dest hSome
    have hThrough := hTraces.exit_through unlinked (fun _ => rfl) hExit
    split_ifs at hThrough with hOther
    · -- a slot shared by both exits belongs to a branch that is always taken
      have hAlways := hSame hThrough.1.symm host cpu
      rw [hCondition host hTestCc cpu] at hAlways
      exact absurd hAlways hTaken
    · exact hThrough.2

end Execution

/-- The trace gets the direction and the target of every branch to a fixed offset,
once, and the guest goes on where the trace says. -/
theorem direction_and_target (q : Qemu) (ctx : DisasContext) (temps labels : Nat) {insn : U32}
    {b : ImmBranch} (hBranch : immBranch insn = some b) {host : Host}
    (hTestCc : ∀ cc < 14, ∀ flags, host.testCc cc flags = conditionHolds cc flags)
    (hLinked : LinkedByExits host (translate q ctx temps labels insn)) (cpu : Cpu) :
    ∃ e s, execute host (translate q ctx temps labels insn) cpu = .left e s ∧ e ≠ .deadTemp ∧
      s.printed = [⟨ctx.pc + 4, ctx.pc + b.offset, if b.condition cpu then 1 else 0⟩] ∧
      s.cpu.pc = if b.condition cpu then ctx.pc + b.offset else ctx.pc + 4 :=
  (translate_follows ctx temps labels hBranch).exits hTestCc hLinked cpu

/-- A block whose taken exit is linked to the block at 0x1008. -/
def linkedHost : Host where
  linked n := if n = 1 then some 0x1008 else none
  testCc := conditionHolds
  exceptionReturn cpu := cpu

/-- CBZ X0 to the instruction after the next, linked after it was taken before. -/
theorem direction_and_target_cbz :
    ∃ e s, execute linkedHost (translate userQemu (blockStart 0x1000) 0 0 0xb4000040) resetCpu =
        .left e s ∧
      s.printed = [⟨0x1004, 0x1008, 1⟩] ∧ s.cpu.pc = 0x1008 := by
  have hBranch : immBranch 0xb4000040 = some (compImm 0xb4000040) := rfl
  have hTaken : (compImm 0xb4000040).condition resetCpu = true := by decide
  have hLinked : LinkedByExits linkedHost
      (translate userQemu (blockStart 0x1000) 0 0 0xb4000040) := by
    intro n dest hSome
    obtain ⟨rfl, rfl⟩ : n = 1 ∧ 0x1008 = dest := by
      simpa [linkedHost] using hSome
    exact ⟨resetCpu, _, rfl, rfl⟩
  obtain ⟨e, s, hRun, _, hPrinted, hDest⟩ := direction_and_target userQemu (blockStart 0x1000) 0 0
    hBranch (fun _ _ _ => rfl) hLinked resetCpu
  rw [hTaken] at hPrinted hDest
  exact ⟨e, s, hRun, hPrinted, hDest⟩

end BranchPrediction.Translator
