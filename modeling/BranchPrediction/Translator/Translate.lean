import BranchPrediction.Translator.Tcg

/-! The part of `translate-a64.c` that translates branches. A translation
function appends operations and updates the `DisasContext`. -/
namespace BranchPrediction.Translator

open ForwardCode

/-- `is_jmp`. -/
inductive IsJmp where
  | next
  | jump
  | update
  | tbJump
  | exc
deriving DecidableEq, Repr

/-- The fields of `DisasContext` that the functions below use, those of its
translation block included. -/
structure DisasContext where
  pc : U64
  insn : U32
  isJmp : IsJmp
  singlestepEnabled : Bool
  ssActive : Bool
  pstateSs : Bool
  ssSameEl : Bool
  isLdex : Bool
  currentEl : Nat
  fpAccessChecked : Bool
  tbPc : U64
  tbCflags : U32
  tmpA64 : List Var

/-- The context, the code so far, and the next free temporary and label. -/
structure Translation where
  ctx : DisasContext
  ops : Code
  temps : Nat
  labels : Nat

abbrev Gen := StateM Translation

/-- What the translator takes from the headers of QEMU, and the translation of
the instructions that are no branches. -/
structure Qemu where
  configUserOnly : Bool
  EXCP_UDEF : U32
  EXCP_DEBUG : U32
  CF_LAST_IO : U32
  TARGET_PAGE_MASK : U64
  synUncategorized : U32
  synSwstep : Bool → Bool → Bool → U32
  defaultExceptionEl : DisasContext → U32
  disasSystem : U32 → Gen Unit
  disasExc : U32 → Gen Unit
  disasOtherClass : U32 → Gen Unit

/-- Bits `start` to `start + length - 1`, unsigned. -/
def extract32 (value : U32) (start length : Nat) : U32 :=
  (value >>> start) &&& (BitVec.allOnes 32 >>> (32 - length))

/-- Bits `start` to `start + length - 1`, signed. -/
def sextract32 (value : U32) (start length : Nat) : U32 :=
  (value <<< (32 - length - start)).sshiftRight (32 - length)

section Emit

def updateCtx (f : DisasContext → DisasContext) : Gen Unit :=
  modify fun g => { g with ctx := f g.ctx }

def setIsJmp (isJmp : IsJmp) : Gen Unit := updateCtx fun s => { s with isJmp := isJmp }

def emit (op : TcgOp) : Gen Unit := modify fun g => { g with ops := g.ops ++ [.op op] }

def tcgTempNew : Gen Var :=
  modifyGet fun g => (.temp g.temps, { g with temps := g.temps + 1 })

def genNewLabel : Gen Nat :=
  modifyGet fun g => (g.labels, { g with labels := g.labels + 1 })

def genSetLabel (label : Nat) : Gen Unit :=
  modify fun g => { g with ops := g.ops ++ [.label label] }

def tcgConstI32 (val : U32) : Gen Var := do
  let t ← tcgTempNew
  emit (.moviI32 t val)
  return t

def tcgConstI64 (val : U64) : Gen Var := do
  let t ← tcgTempNew
  emit (.moviI64 t val)
  return t

def genA64SetPcIm (val : U64) : Gen Unit := emit (.moviI64 .cpuPc val)

end Emit

section Exceptions

variable (q : Qemu)

def genExceptionInternal (excp : U32) : Gen Unit := do
  let tcgExcp ← tcgConstI32 excp
  emit (.helperExceptionInternal tcgExcp)

def genException (excp syndrome targetEl : U32) : Gen Unit := do
  let tcgExcp ← tcgConstI32 excp
  let tcgSyn ← tcgConstI32 syndrome
  let tcgEl ← tcgConstI32 targetEl
  emit (.helperExceptionWithSyndrome tcgExcp tcgSyn tcgEl)

def genExceptionInsn (offset : U64) (excp syndrome targetEl : U32) : Gen Unit := do
  let g ← get
  genA64SetPcIm (g.ctx.pc - offset)
  genException excp syndrome targetEl
  setIsJmp .exc

def genSsAdvance : Gen Unit := do
  let g ← get
  if g.ctx.ssActive then
    updateCtx fun s => { s with pstateSs := false }
    emit .helperClearPstateSs

def genStepCompleteException : Gen Unit := do
  genSsAdvance
  let g ← get
  genException q.EXCP_UDEF (q.synSwstep g.ctx.ssSameEl true g.ctx.isLdex)
    (q.defaultExceptionEl g.ctx)
  setIsJmp .exc

def unallocatedEncoding : Gen Unit := do
  let g ← get
  genExceptionInsn 4 q.EXCP_UDEF q.synUncategorized (q.defaultExceptionEl g.ctx)

/-- The message for the log is left out. -/
def unsupportedEncoding : Gen Unit := unallocatedEncoding q

/-- Blocks are not linked in a single step or with deterministic input and
output, and in system emulation only inside a page. -/
def useGotoTb (s : DisasContext) (dest : U64) : Bool :=
  if s.singlestepEnabled || s.ssActive || s.tbCflags &&& q.CF_LAST_IO ≠ 0 then false
  else if !q.configUserOnly && s.tbPc &&& q.TARGET_PAGE_MASK ≠ dest &&& q.TARGET_PAGE_MASK then
    false
  else true

def genGotoTb (n : Nat) (dest : U64) : Gen Unit := do
  let g ← get
  if useGotoTb q g.ctx dest then
    emit (.gotoTb n)
    genA64SetPcIm dest
    emit (.exitTb (some n))
    setIsJmp .tbJump
  else
    genA64SetPcIm dest
    if g.ctx.ssActive then genStepCompleteException q
    else if g.ctx.singlestepEnabled then genExceptionInternal q.EXCP_DEBUG
    else
      emit (.exitTb none)
      setIsJmp .tbJump

end Exceptions

section Registers

def newTmpA64 : Gen Var := do
  let t ← tcgTempNew
  updateCtx fun s => { s with tmpA64 := s.tmpA64 ++ [t] }
  return t

def newTmpA64Zero : Gen Var := do
  let t ← newTmpA64
  emit (.moviI64 t 0)
  return t

def cpuReg (reg : Nat) : Gen Var :=
  if reg = 31 then newTmpA64Zero else return .cpuX reg

def readCpuReg (reg : Nat) (sf : Bool) : Gen Var := do
  let v ← newTmpA64
  if reg ≠ 31 then
    if sf then emit (.movI64 v (.cpuX reg)) else emit (.ext32uI64 v (.cpuX reg))
  else emit (.moviI64 v 0)
  return v

def freeTmpA64 : Gen Unit := updateCtx fun s => { s with tmpA64 := [] }

end Registers

section Branches

variable (q : Qemu)

/-- `s->pc + sextract32(insn, start, length) * 4 - 4`. -/
def branchTarget (pc : U64) (insn : U32) (start length : Nat) : U64 :=
  pc + (sextract32 insn start length * 4).signExtend 64 - 4

/-- The call of the helper, from the constants that it is given. -/
def genPrinterCall (pc addr tNt : U64) : Gen Unit := do
  let tcgPc ← tcgConstI64 pc
  let tcgAddr ← tcgConstI64 addr
  let tcgTNt ← tcgConstI64 tNt
  emit (.helperPrinter tcgPc tcgAddr tcgTNt)

/-- What follows the test of every conditional branch: the two traced exits. -/
def genTracedExits (addr : U64) (labelMatch : Nat) : Gen Unit := do
  let g ← get
  genPrinterCall g.ctx.pc addr 0
  genGotoTb q 0 g.ctx.pc
  genSetLabel labelMatch
  genPrinterCall g.ctx.pc addr 1
  genGotoTb q 1 addr

/-- B and BL. -/
def disasUncondBImm (insn : U32) : Gen Unit := do
  let g ← get
  let addr := branchTarget g.ctx.pc insn 0 26
  if insn &&& (1 : U32) <<< 31 ≠ 0 then
    let link ← cpuReg 30
    emit (.moviI64 link g.ctx.pc)
  genPrinterCall g.ctx.pc addr 1
  genGotoTb q 0 addr

/-- CBZ and CBNZ. -/
def disasCompBImm (insn : U32) : Gen Unit := do
  let g ← get
  let sf := extract32 insn 31 1
  let op := extract32 insn 24 1
  let rt := extract32 insn 0 5
  let addr := branchTarget g.ctx.pc insn 5 19
  let tcgCmp ← readCpuReg rt.toNat (sf ≠ 0)
  let labelMatch ← genNewLabel
  emit (.brcondiI64 (if op ≠ 0 then .ne else .eq) tcgCmp 0 labelMatch)
  genTracedExits q addr labelMatch

/-- TBZ and TBNZ. -/
def disasTestBImm (insn : U32) : Gen Unit := do
  let g ← get
  let bitPos := (extract32 insn 31 1 <<< 5) ||| extract32 insn 19 5
  let op := extract32 insn 24 1
  let addr := branchTarget g.ctx.pc insn 5 14
  let rt := extract32 insn 0 5
  let tcgCmp ← tcgTempNew
  let reg ← cpuReg rt.toNat
  emit (.andiI64 tcgCmp reg ((1 : U64) <<< bitPos.toNat))
  let labelMatch ← genNewLabel
  emit (.brcondiI64 (if op ≠ 0 then .ne else .eq) tcgCmp 0 labelMatch)
  genTracedExits q addr labelMatch

/-- B.cond. -/
def disasCondBImm (insn : U32) : Gen Unit := do
  let g ← get
  if insn &&& (1 : U32) <<< 4 ≠ 0 ∨ insn &&& (1 : U32) <<< 24 ≠ 0 then unallocatedEncoding q
  else
    let addr := branchTarget g.ctx.pc insn 5 19
    let cond := extract32 insn 0 4
    if cond.toNat < 0x0e then
      let labelMatch ← genNewLabel
      emit (.testCc cond.toNat labelMatch)
      genTracedExits q addr labelMatch
    else
      -- both 0xe and 0xf are "always"
      genPrinterCall g.ctx.pc addr 1
      genGotoTb q 0 addr

/-- BR, BLR, RET, ERET and DRPS. -/
def disasUncondBReg (insn : U32) : Gen Unit := do
  let g ← get
  let opc := extract32 insn 21 4
  let op2 := extract32 insn 16 5
  let op3 := extract32 insn 10 6
  let rn := extract32 insn 5 5
  let op4 := extract32 insn 0 5
  if op4 ≠ 0 ∨ op3 ≠ 0 ∨ op2 ≠ 0x1f then unallocatedEncoding q
  else
    match opc.toNat with
    | 0 | 2 =>
        let dest ← cpuReg rn.toNat
        emit (.movI64 .cpuPc dest)
        setIsJmp .jump
    | 1 =>
        let dest ← cpuReg rn.toNat
        emit (.movI64 .cpuPc dest)
        let link ← cpuReg 30
        emit (.moviI64 link g.ctx.pc)
        setIsJmp .jump
    | 4 =>
        if g.ctx.currentEl = 0 then unallocatedEncoding q
        else
          emit .helperExceptionReturn
          setIsJmp .jump
    | 5 => if rn ≠ 0x1f then unallocatedEncoding q else unsupportedEncoding q
    | _ => unallocatedEncoding q

def disasBExcSys (insn : U32) : Gen Unit :=
  match (extract32 insn 25 7).toNat with
  | 0x0a | 0x0b | 0x4a | 0x4b => disasUncondBImm q insn
  | 0x1a | 0x5a => disasCompBImm q insn
  | 0x1b | 0x5b => disasTestBImm q insn
  | 0x2a => disasCondBImm q insn
  | 0x6a => if insn &&& (1 : U32) <<< 24 ≠ 0 then q.disasSystem insn else q.disasExc insn
  | 0x6b => disasUncondBReg q insn
  | _ => unallocatedEncoding q

/-- One instruction, already fetched. -/
def disasA64Insn (insn : U32) : Gen Unit := do
  updateCtx fun s => { s with insn := insn, pc := s.pc + 4, fpAccessChecked := false }
  match (extract32 insn 25 4).toNat with
  | 0x0 | 0x1 | 0x2 | 0x3 => unallocatedEncoding q
  | 0xa | 0xb => disasBExcSys q insn
  | _ => q.disasOtherClass insn
  freeTmpA64

end Branches

end BranchPrediction.Translator
