import BranchPrediction.Library.StateSteps
import BranchPrediction.Translator.ControlFlow

/-! `gen_intermediate_code_a64`: the instructions of a block, one after the other,
and what is emitted behind the last one. -/
namespace BranchPrediction.Translator

open ForwardCode StateSteps

/-- The constants that only the translation of whole blocks takes from the headers. -/
structure BlockQemu extends Qemu where
  CF_COUNT_MASK : U32
  TCG_MAX_INSNS : Nat
  TARGET_PAGE_SIZE : U64

/-- What the translation of a block reads: the block itself, the guest code, the
debuggers' breakpoints and single steps, and when the buffer for operations is full. -/
structure BlockInput where
  tbPc : U64
  tbCflags : U32
  ssActive : Bool
  pstateSs : Bool
  currentEl : Nat
  debugTargetEl : Nat
  ldlCode : U64 → U32
  breakpoints : List U64
  singlestepEnabled : Bool
  singlestep : Bool
  opBufFull : Translation → Bool

namespace BlockInput

variable (q : BlockQemu) (b : BlockInput)

/-- The context with which the translation of a block starts. -/
def start : DisasContext where
  pc := b.tbPc
  insn := 0
  isJmp := .next
  singlestepEnabled := b.singlestepEnabled
  ssActive := b.ssActive
  pstateSs := b.pstateSs
  ssSameEl := b.debugTargetEl = b.currentEl
  isLdex := false
  currentEl := b.currentEl
  fpAccessChecked := false
  tbPc := b.tbPc
  tbCflags := b.tbCflags
  tmpA64 := []

def nextPageStart : U64 := (b.tbPc &&& q.TARGET_PAGE_MASK) + q.TARGET_PAGE_SIZE

def maxInsns : Nat :=
  let count := (b.tbCflags &&& q.CF_COUNT_MASK).toNat
  let count := if count = 0 then q.CF_COUNT_MASK.toNat else count
  if count > q.TCG_MAX_INSNS then q.TCG_MAX_INSNS else count

end BlockInput

section Generate

variable (q : BlockQemu) (b : BlockInput)

def genExceptionInternalInsn (offset : U64) (excp : U32) : Gen Unit := do
  let g ← get
  genA64SetPcIm (g.ctx.pc - offset)
  genExceptionInternal excp
  setIsJmp .exc

/-- The loop goes on, unless the block has all its instructions. -/
def goOn (g : Translation) : Bool :=
  g.ctx.isJmp = .next && !b.opBufFull g && !g.ctx.singlestepEnabled && !b.singlestep &&
    !g.ctx.ssActive && decide (g.ctx.pc < b.nextPageStart q)

/-- One round of the loop; the result is whether nothing but the number of
instructions can end it here. -/
def genInsn : Gen Bool := do
  let g ← get
  if g.ctx.pc ∈ b.breakpoints then
    genExceptionInternalInsn 0 q.EXCP_DEBUG
    -- the size of the block has to cover the breakpoint
    updateCtx fun s => { s with pc := s.pc + 4 }
    return false
  else if g.ctx.ssActive && !g.ctx.pstateSs then
    -- the step is pending: no instruction is executed
    genException q.EXCP_UDEF (q.synSwstep g.ctx.ssSameEl false false) (q.defaultExceptionEl g.ctx)
    setIsJmp .exc
    return false
  else
    disasA64Insn q.toQemu (b.ldlCode g.ctx.pc)
    let g ← get
    return goOn q b g

/-- The loop, with the number of instructions that may follow this one; the
result is the number of rounds. -/
def genInsns : Nat → Gen Nat
  | 0 => do
      let _ ← genInsn q b
      return 1
  | more + 1 => do
      let again ← genInsn q b
      if again then
        let numInsns ← genInsns more
        return numInsns + 1
      else return 1

/-- Behind the last instruction. -/
def genBlockEnd : Gen Unit := do
  let g ← get
  if (g.ctx.singlestepEnabled || g.ctx.ssActive) && g.ctx.isJmp ≠ .exc then
    if g.ctx.isJmp ≠ .jump then genA64SetPcIm g.ctx.pc
    if g.ctx.singlestepEnabled then genExceptionInternal q.EXCP_DEBUG
    else genStepCompleteException q.toQemu
  else
    match g.ctx.isJmp with
    | .next => genGotoTb q.toQemu 1 g.ctx.pc
    | .update =>
        genA64SetPcIm g.ctx.pc
        emit (.exitTb none)
    | .jump => emit (.exitTb none)
    | .tbJump | .exc => return

/-- The number of instructions of the block; its size is the distance of the pc
from the start. -/
def genIntermediateCodeA64 : Gen Nat := do
  let numInsns ← genInsns q b (b.maxInsns q - 1)
  genBlockEnd q
  return numInsns

end Generate

section Rounds

variable {q : BlockQemu} {b : BlockInput} {g : Translation}

/-- No single steps. -/
def Translation.Plain (g : Translation) : Prop :=
  g.ctx.singlestepEnabled = false ∧ g.ctx.ssActive = false

theorem goOn_plain (h : goOn q b g = true) : g.ctx.isJmp = .next ∧ g.Plain := by
  simp only [goOn, Bool.and_eq_true, Bool.not_eq_true', decide_eq_true_eq] at h
  exact ⟨h.1.1.1.1.1, h.1.1.1.2, h.1.2⟩

theorem goOn_inside (h : goOn q b g = true) : g.ctx.pc < b.nextPageStart q := by
  simp only [goOn, Bool.and_eq_true, decide_eq_true_eq] at h
  exact h.2

theorem genInsns_succ (more : Nat) : (genInsns q b (more + 1)).run g =
    if ((genInsn q b).run g).1 then
      (((genInsns q b more).run ((genInsn q b).run g).2).1 + 1,
        ((genInsns q b more).run ((genInsn q b).run g).2).2)
    else (1, ((genInsn q b).run g).2) := by
  change (if ((genInsn q b).run g).1 then (· + 1) <$> genInsns q b more
    else return 1 : Gen Nat).run ((genInsn q b).run g).2 = _
  cases ((genInsn q b).run g).1 <;> rfl

theorem genInsns_once (hStop : ((genInsn q b).run g).1 = false) (more : Nat) :
    (genInsns q b more).run g = (1, ((genInsn q b).run g).2) := by
  cases more with
  | zero => rfl
  | succ more => rw [genInsns_succ, hStop, if_neg (by decide)]

/-- The pc of the instruction number `k` behind an address. -/
def insnAddr (pc : U64) (k : Nat) : U64 := pc + 4 * BitVec.ofNat 64 k

theorem insnAddr_zero (pc : U64) : insnAddr pc 0 = pc := by
  simp [insnAddr]

theorem insnAddr_succ (pc : U64) (k : Nat) : insnAddr pc (k + 1) = insnAddr (pc + 4) k := by
  have hSucc : BitVec.ofNat 64 (k + 1) = BitVec.ofNat 64 k + 1 := by
    rw [BitVec.ofNat_add]
    rfl
  rw [insnAddr, insnAddr, hSucc]
  ring

/-- The last of the addresses in front. -/
theorem insnAddr_succ_last (pc : U64) (k : Nat) : insnAddr pc (k + 1) = insnAddr pc k + 4 := by
  rw [insnAddr_succ, insnAddr, insnAddr]
  ring

theorem insnAddr_one (pc : U64) : insnAddr pc 1 = pc + 4 := by
  rw [insnAddr_succ, insnAddr_zero]

end Rounds

/-- A block: its operations, and the sizes that are recorded for it. -/
structure Block where
  ops : Code
  size : U64
  icount : Nat

def generate (q : BlockQemu) (b : BlockInput) : Block :=
  let (icount, g) := (genIntermediateCodeA64 q b).run
    { ctx := b.start, ops := [], temps := 0, labels := 0 }
  { ops := g.ops, size := g.ctx.pc - b.tbPc, icount := icount }

end BranchPrediction.Translator
