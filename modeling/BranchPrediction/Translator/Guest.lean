import BranchPrediction.Translator.Frame

/-! The guest as the architecture describes it, one instruction at a time, and what
the translation of one instruction does to it. -/
namespace BranchPrediction.Translator

open ForwardCode StateSteps

section Architecture

/-- The same registers at another pc. -/
def Cpu.at (cpu : Cpu) (pc : U64) : Cpu := { cpu with pc := pc }

/-- The link register set to the return address, if the branch links. -/
def Cpu.linked (cpu : Cpu) (link : Bool) (ret : U64) : Cpu :=
  if link then { cpu with X := Function.update cpu.X 30 ret } else cpu

@[simp] theorem Cpu.at_pc (cpu : Cpu) (pc : U64) : (cpu.at pc).pc = pc := rfl

@[simp] theorem Cpu.at_self (cpu : Cpu) : cpu.at cpu.pc = cpu := rfl

theorem Cpu.linked_at (cpu : Cpu) (link : Bool) (ret pc : U64) :
    (cpu.at pc).linked link ret = (cpu.linked link ret).at pc := by
  cases link <;> rfl

/-- A branch to a register, and whether it links. -/
structure RegBranch where
  rn : Nat
  link : Bool

/-- The encodings of BR, BLR and RET. -/
def regBranch (insn : U32) : Option RegBranch :=
  if insn.extractLsb' 0 5 ≠ 0 then none
  else if insn.extractLsb' 10 22 = 0b1101011000011111000000#22 then
    some ⟨(insn.extractLsb' 5 5).toNat, false⟩
  else if insn.extractLsb' 10 22 = 0b1101011000111111000000#22 then
    some ⟨(insn.extractLsb' 5 5).toNat, true⟩
  else if insn.extractLsb' 10 22 = 0b1101011001011111000000#22 then
    some ⟨(insn.extractLsb' 5 5).toNat, false⟩
  else none

inductive GuestInsn where
  | imm (b : ImmBranch) (link : Bool)
  | reg (b : RegBranch)
  | other (effect : Cpu → Cpu)

/-- The state behind an instruction at `cpu.pc`. -/
def GuestInsn.next (i : GuestInsn) (cpu : Cpu) : Cpu :=
  match i with
  | .imm b link =>
      (cpu.linked link (cpu.pc + 4)).at
        (if b.condition cpu then cpu.pc + b.offset else cpu.pc + 4)
  | .reg b => (cpu.linked b.link (cpu.pc + 4)).at (cpu.operand b.rn true)
  | .other effect => (effect cpu).at (cpu.pc + 4)

/-- What the trace gets of it: the address behind a branch to a fixed offset, its
target, and whether it is taken. -/
def GuestInsn.calls (i : GuestInsn) (cpu : Cpu) : List PrinterCall :=
  match i with
  | .imm b _ => [⟨cpu.pc + 4, cpu.pc + b.offset, if b.condition cpu then 1 else 0⟩]
  | .reg _ | .other _ => []

/-- The guest code, and the effect of the instructions that are no branches; those
without an effect here may do anything. -/
structure Guest where
  code : U64 → U32
  other : U32 → Option (Cpu → Cpu)

namespace Guest

variable (guest : Guest)

def decode (insn : U32) : Option GuestInsn :=
  match immBranch insn with
  | some b => some (.imm b (linksImm insn))
  | none =>
      match regBranch insn with
      | some b => some (.reg b)
      | none => (guest.other insn).map .other

/-- This many instructions from a state, and the trace of them. -/
def run : Nat → Cpu → Option (Cpu × List PrinterCall)
  | 0, cpu => some (cpu, [])
  | n + 1, cpu => do
      let i ← guest.decode (guest.code cpu.pc)
      let (cpu', calls) ← run n (i.next cpu)
      return (cpu', i.calls cpu ++ calls)

variable {guest}

theorem decode_cases {insn : U32} {i : GuestInsn} (h : guest.decode insn = some i) :
    (∃ b, immBranch insn = some b ∧ i = .imm b (linksImm insn)) ∨
      (∃ b, regBranch insn = some b ∧ i = .reg b) ∨
      ∃ effect, guest.other insn = some effect ∧ i = .other effect := by
  unfold decode at h
  cases hImm : immBranch insn with
  | some b =>
      rw [hImm] at h
      exact Or.inl ⟨b, rfl, (Option.some.inj h).symm⟩
  | none =>
      rw [hImm] at h
      cases hReg : regBranch insn with
      | some b =>
          rw [hReg] at h
          exact Or.inr (Or.inl ⟨b, rfl, (Option.some.inj h).symm⟩)
      | none =>
          rw [hReg, Option.map_eq_some_iff] at h
          obtain ⟨effect, hEffect, hInsn⟩ := h
          exact Or.inr (Or.inr ⟨effect, hEffect, hInsn.symm⟩)

theorem run_succ {cpu cpu' : Cpu} {i : GuestInsn} {calls : List PrinterCall} {n : Nat}
    (hInsn : guest.decode (guest.code cpu.pc) = some i)
    (hRest : guest.run n (i.next cpu) = some (cpu', calls)) :
    guest.run (n + 1) cpu = some (cpu', i.calls cpu ++ calls) := by
  simp only [run, hInsn, hRest, Option.bind_eq_bind, Option.bind_some]
  rfl

theorem run_one {cpu : Cpu} {i : GuestInsn} (hInsn : guest.decode (guest.code cpu.pc) = some i) :
    guest.run 1 cpu = some (i.next cpu, i.calls cpu) := by
  have hRun := run_succ hInsn (rfl : guest.run 0 (i.next cpu) = some (i.next cpu, []))
  rwa [List.append_nil] at hRun

/-- One run after another. -/
theorem run_add {cpu cpu' cpu'' : Cpu} {calls later : List PrinterCall} {m n : Nat}
    (hFirst : guest.run m cpu = some (cpu', calls)) (hLater : guest.run n cpu' = some (cpu'', later)) :
    guest.run (m + n) cpu = some (cpu'', calls ++ later) := by
  induction m generalizing cpu calls with
  | zero =>
      obtain ⟨rfl, rfl⟩ := Prod.mk.inj (Option.some.inj hFirst)
      rwa [Nat.zero_add]
  | succ m ih =>
      rw [run, Option.bind_eq_bind, Option.bind_eq_some_iff] at hFirst
      obtain ⟨i, hInsn, hRest⟩ := hFirst
      rw [Option.bind_eq_bind, Option.bind_eq_some_iff] at hRest
      obtain ⟨⟨middle, between⟩, hMiddle, hLast⟩ := hRest
      obtain ⟨rfl, rfl⟩ := Prod.mk.inj (Option.some.inj hLast)
      rw [Nat.add_right_comm, run_succ hInsn (ih hMiddle), List.append_assoc]

/-- A run is its first instructions and then the others. -/
theorem run_split {cpu cpu'' : Cpu} {calls : List PrinterCall} {m n : Nat}
    (h : guest.run (m + n) cpu = some (cpu'', calls)) :
    ∃ cpu' first later, guest.run m cpu = some (cpu', first) ∧
      guest.run n cpu' = some (cpu'', later) ∧ calls = first ++ later := by
  induction m generalizing cpu calls with
  | zero => exact ⟨cpu, [], calls, rfl, by rwa [Nat.zero_add] at h, rfl⟩
  | succ m ih =>
      rw [Nat.add_right_comm, run, Option.bind_eq_bind, Option.bind_eq_some_iff] at h
      obtain ⟨i, hInsn, hRest⟩ := h
      rw [Option.bind_eq_bind, Option.bind_eq_some_iff] at hRest
      obtain ⟨⟨final, behind⟩, hBehind, hLast⟩ := hRest
      obtain ⟨rfl, rfl⟩ := Prod.mk.inj (Option.some.inj hLast)
      obtain ⟨cpu', first, later, hFirst, hLater, rfl⟩ := ih hBehind
      exact ⟨cpu', i.calls cpu ++ first, later, run_succ hInsn hFirst, hLater,
        (List.append_assoc ..).symm⟩

end Guest

end Architecture

section Instructions

variable {q : Qemu} {guest : Guest} {insn : U32}

/-- The condition codes are tested as the architecture says. -/
def Host.TestsConditions (host : Host) : Prop :=
  ∀ cc < 14, ∀ flags, host.testCc cc flags = conditionHolds cc flags

/-- Code that has an effect on the guest at `pc`, does not call `printer` and does not
leave the block. -/
def FallsThrough (code : Code) (pc : U64) (effect : Cpu → Cpu) : Prop :=
  ∀ host : Host, host.TestsConditions → ∀ s, ∃ s', ForwardCode.run (tcg host) code none s = .fell s' ∧
    s'.printed = s.printed ∧ ∀ pc', s'.cpu.at pc' = (effect (s.cpu.at pc)).at pc'

/-- What the translation of one instruction changes. -/
structure Appends (g g' : Translation) (code : Code) : Prop where
  ops : g'.ops = g.ops ++ code
  debug : g'.ctx.singlestepEnabled = g.ctx.singlestepEnabled
  ss : g'.ctx.ssActive = g.ctx.ssActive

/-- The translation of the instructions that are no branches, as far as it is known:
it has the effect of the instruction and goes on behind it. -/
structure OtherInsns (q : Qemu) (guest : Guest) : Prop where
  otherClass : ∀ insn, (guest.other insn).isSome →
    (extract32 insn 25 4).toNat ∉ [0x0, 0x1, 0x2, 0x3, 0xa, 0xb]
  translated : ∀ insn effect, guest.other insn = some effect → ∀ g : Translation,
    ∃ code, Appends g ((q.disasOtherClass insn).run g).2 code ∧
      FallsThrough code (g.ctx.pc - 4) effect ∧
      ((q.disasOtherClass insn).run g).2.ctx.pc = g.ctx.pc ∧
      ((q.disasOtherClass insn).run g).2.ctx.isJmp = g.ctx.isJmp

/-- The translation with the instruction fetched and the pc behind it. -/
def Translation.fetched (g : Translation) (insn : U32) : Translation :=
  { g with ctx := { g.ctx with insn := insn, pc := g.ctx.pc + 4, fpAccessChecked := false } }

def Translation.freed (g : Translation) : Translation :=
  { g with ctx := { g.ctx with tmpA64 := [] } }

theorem disasA64Insn_branch (h : AllocatedBranch insn) (g : Translation) :
    ((disasA64Insn q insn).run g).2 = ((disasBExcSys q insn).run (g.fetched insn)).2.freed := by
  unfold disasA64Insn
  rcases h.class_eq with hClass | hClass <;> rw [hClass] <;> rfl

theorem disasA64Insn_other (h : (extract32 insn 25 4).toNat ∉ [0x0, 0x1, 0x2, 0x3, 0xa, 0xb])
    (g : Translation) :
    ((disasA64Insn q insn).run g).2 = ((q.disasOtherClass insn).run (g.fetched insn)).2.freed := by
  simp only [List.mem_cons, List.not_mem_nil, or_false, not_or] at h
  unfold disasA64Insn
  split
  iterate 6 omega
  rfl

end Instructions

section Leaving

variable {guest : Guest} {debug ss : Bool}

/-- From the state `s`, the code leaves the block with the guest in this state and this
trace. The exits through jump slots lead to `dests`. -/
def LeavesAt (host : Host) (debug ss : Bool) (dests : Nat → U64) (code : Code) (s : Exec)
    (cpu : Cpu) (calls : List PrinterCall) : Prop :=
  ∃ e s' n, ForwardCode.run (tcg host) code none s = .left e s' ∧ e.fits debug ss = true ∧
    e.Through n ∧ s'.printed = s.printed ++ calls ∧ cpu.SameRegs ss s'.cpu ∧
    (LinkedTo host n (dests n) → s'.cpu.pc = cpu.pc) ∧ (e = .mainLoop (some n) → cpu.pc = dests n)

/-- The code takes the guest from `pc` through this many instructions and leaves the block. -/
def LeavesAfter (guest : Guest) (debug ss : Bool) (code : Code) (pc : U64) (steps : Nat)
    (dests : Nat → U64) : Prop :=
  ∀ host : Host, host.TestsConditions → ∀ s, ∃ cpu calls,
    guest.run steps (s.cpu.at pc) = some (cpu, calls) ∧
      LeavesAt host debug ss dests code s cpu calls

/-- What follows an exit does not matter. -/
theorem LeavesAfter.append {code : Code} {pc : U64} {steps : Nat} {dests : Nat → U64}
    (h : LeavesAfter guest debug ss code pc steps dests) (later : Code) :
    LeavesAfter guest debug ss (code ++ later) pc steps dests := by
  intro host hHost s
  obtain ⟨cpu, calls, hGuest, e, s', n, hRun, hRest⟩ := h host hHost s
  exact ⟨cpu, calls, hGuest, e, s', n, run_append_of_left hRun later, hRest⟩

/-- One more instruction in front. -/
theorem FallsThrough.leavesAfter {code later : Code} {pc : U64} {effect : Cpu → Cpu} {steps : Nat}
    {dests : Nat → U64} (h : FallsThrough code pc effect)
    (hInsn : guest.decode (guest.code pc) = some (.other effect))
    (hLater : LeavesAfter guest debug ss later (pc + 4) steps dests) :
    LeavesAfter guest debug ss (code ++ later) pc (steps + 1) dests := by
  intro host hHost s
  obtain ⟨s', hRun, hPrinted, hEffect⟩ := h host hHost s
  obtain ⟨cpu, calls, hGuest, hLeaves⟩ := hLater host hHost s'
  have hNext : (GuestInsn.other effect).next (s.cpu.at pc) = s'.cpu.at (pc + 4) :=
    (hEffect (pc + 4)).symm
  have hDecode : guest.decode (guest.code (s.cpu.at pc).pc) = some (.other effect) := hInsn
  rw [← hNext] at hGuest
  have hFirst := Guest.run_succ hDecode hGuest
  refine ⟨cpu, _, hFirst, ?_⟩
  rw [LeavesAt, hPrinted] at hLeaves
  rw [LeavesAt, run_append_of_fell hRun]
  exact hLeaves

/-- Code that goes on at an address, behind the last instruction. -/
theorem ExitsTo.leavesAfter {code : Code} {n : Nat} {pc : U64} (h : ExitsTo code n pc)
    (hKept : ∀ o, Item.op o ∈ code → o.keepsRegs debug ss = true) :
    LeavesAfter guest debug ss code pc 0 fun _ => pc := by
  intro host _ s
  obtain ⟨e, s', hRun, hSlot, hPrinted, hPc⟩ := h.leaves host s
  have hFrame := run_keepsRegs host hKept none s
  rw [hRun] at hFrame
  refine ⟨s.cpu.at pc, [], rfl, e, s', n, hRun, hFrame.2 e rfl, hSlot, ?_, ?_, hPc, fun _ => rfl⟩
  · rw [hPrinted, List.append_nil]
  · exact ⟨hFrame.1.X, hFrame.1.flags, hFrame.1.pstateSs⟩

/-- The condition of a branch does not look at the pc. -/
theorem immBranch_condition_at {insn : U32} {b : ImmBranch} (h : immBranch insn = some b)
    (cpu : Cpu) (pc : U64) : b.condition (cpu.at pc) = b.condition cpu := by
  unfold immBranch at h
  split_ifs at h <;> obtain rfl := Option.some.inj h <;> rfl

theorem run_linkCode (host : Host) (link : Bool) (pc : U64) (rest : Code) (s : Exec) :
    ForwardCode.run (tcg host) (linkCode link pc ++ rest) none s =
      ForwardCode.run (tcg host) rest none { s with cpu := s.cpu.linked link pc } := by
  cases link <;> rfl

/-- Where the jump slots of a branch lead: slot 0 behind it, and its own slot to its
target, also if that is slot 0. -/
def branchDests (slot : Nat) (pc target : U64) (n : Nat) : U64 :=
  if n = 0 ∧ slot ≠ 0 then pc else target

theorem branchDests_slot (slot : Nat) (pc target : U64) :
    branchDests slot pc target slot = target :=
  if_neg fun hBoth => hBoth.2 hBoth.1

theorem branchDests_zero {slot : Nat} (hOther : slot ≠ 0) (pc target : U64) :
    branchDests slot pc target 0 = pc :=
  if_pos ⟨rfl, hOther⟩

/-- A branch to a fixed offset is one instruction and the end of the block. -/
theorem Follows.leavesAfter {rest : Code} {pc : U64} {b : ImmBranch}
    (hInsn : immBranch (guest.code pc) = some b)
    (h : Follows (linkCode (linksImm (guest.code pc)) (pc + 4) ++ rest) pc b)
    (hKept : ∀ o, Item.op o ∈ rest → o.keepsRegs debug ss = true) :
    ∃ dests, LeavesAfter guest debug ss (linkCode (linksImm (guest.code pc)) (pc + 4) ++ rest) pc 1
      dests := by
  obtain ⟨slot, taken, hTraces, hSame, hCondition⟩ := h
  refine ⟨branchDests slot (pc + 4) (pc + b.offset), fun host hHost s => ?_⟩
  have hDecode : guest.decode (guest.code pc) = some (.imm b (linksImm (guest.code pc))) := by
    rw [Guest.decode, hInsn]
  refine ⟨_, _, Guest.run_one hDecode, ?_⟩
  generalize linksImm (guest.code pc) = link at hTraces ⊢
  have hFrame := run_keepsRegs host hKept none { s with cpu := s.cpu.linked link (pc + 4) }
  rw [← run_linkCode] at hFrame
  have hBranch := hTraces host s
  rw [hCondition host hHost s.cpu] at hBranch
  have hRegs {cpu : Cpu} (dest : U64) (h : (s.cpu.linked link (pc + 4)).SameRegs ss cpu) :
      (((s.cpu.at pc).linked link (pc + 4)).at dest).SameRegs ss cpu := by
    rw [Cpu.linked_at]
    exact ⟨h.X, h.flags, h.pstateSs⟩
  simp only [GuestInsn.next, GuestInsn.calls, immBranch_condition_at hInsn, Cpu.at_pc]
  by_cases hCond : b.condition s.cpu = true
  · rw [if_pos hCond] at hBranch
    obtain ⟨e, s', hRun, hSlot, hPrinted, hPc⟩ := hBranch
    rw [hRun] at hFrame
    rw [if_pos hCond, if_pos hCond]
    refine ⟨e, s', slot, hRun, hFrame.2 e rfl, hSlot, hPrinted, hRegs _ hFrame.1, ?_, ?_⟩
    · rw [branchDests_slot]
      exact hPc
    · rw [branchDests_slot]
      exact fun _ => rfl
  · rw [if_neg hCond] at hBranch
    obtain ⟨e, s', hRun, hSlot, hPrinted, hPc⟩ := hBranch
    rw [hRun] at hFrame
    rw [if_neg hCond, if_neg hCond]
    have hOther : slot ≠ 0 := fun hZero => hCond (hCondition host hHost s.cpu ▸ hSame hZero host s.cpu)
    refine ⟨e, s', 0, hRun, hFrame.2 e rfl, hSlot, hPrinted, hRegs _ hFrame.1, ?_, ?_⟩
    · rw [branchDests_zero hOther]
      exact hPc
    · rw [branchDests_zero hOther]
      exact fun _ => rfl

end Leaving

section Branches

variable {q : Qemu} {guest : Guest} {g : Translation}

/-- The translation of a branch to a fixed offset. -/
theorem disasA64Insn_imm {b : ImmBranch} (hInsn : immBranch (guest.code g.ctx.pc) = some b) :
    ∃ code dests, Appends g ((disasA64Insn q (guest.code g.ctx.pc)).run g).2 code ∧
      LeavesAfter guest g.ctx.singlestepEnabled g.ctx.ssActive code g.ctx.pc 1 dests ∧
      (g.Plain → ((disasA64Insn q (guest.code g.ctx.pc)).run g).2.ctx.isJmp = .tbJump) := by
  let fetched := g.fetched (guest.code g.ctx.pc)
  have hPc : fetched.ctx.pc = g.ctx.pc + 4 := rfl
  obtain ⟨hAllocated, code, hCode, hFollows⟩ := disasBExcSys_follows (q := q) hInsn hPc
  have hEmits := disasBExcSys_emitsBranch (q := q) hInsn fetched
  obtain ⟨rest, hRest, hKept⟩ := hEmits.kept.ops
  obtain rfl : code = linkCode (linksImm (guest.code g.ctx.pc)) (g.ctx.pc + 4) ++ rest := by
    have hBoth := hCode.ops.symm.trans hRest
    rwa [List.append_assoc, List.append_cancel_left_eq] at hBoth
  obtain ⟨dests, hLeaves⟩ := hFollows.leavesAfter hInsn hKept
  rw [disasA64Insn_branch hAllocated]
  exact ⟨_, dests, ⟨hCode.ops, hEmits.kept.debug, hEmits.kept.ss⟩, hLeaves, hEmits.tbJump⟩

/-- The fields of BR, BLR and RET. -/
theorem regBranch_fields {insn : U32} {b : RegBranch} (h : regBranch insn = some b) :
    (extract32 insn 25 7).toNat = 0x6b ∧ (extract32 insn 0 5).toNat = 0 ∧
      (extract32 insn 10 6).toNat = 0 ∧ (extract32 insn 16 5).toNat = 0x1f ∧
      (extract32 insn 5 5).toNat = b.rn ∧
      (b.link = true ∧ (extract32 insn 21 4).toNat = 1 ∨
        b.link = false ∧ (extract32 insn 21 4).toNat ∈ [0, 2]) := by
  have hRn := extract32_eq_toNat insn 5 (by decide : 5 ≤ 32)
  have hLow {k : Nat} (hZero : ¬ insn.extractLsb' 0 5 ≠ 0)
      (hField : (insn.extractLsb' 10 22).toNat = 0x3587c0 + 0x800 * k) (hk : k < 3) :
      (extract32 insn 25 7).toNat = 0x6b ∧ (extract32 insn 0 5).toNat = 0 ∧
        (extract32 insn 10 6).toNat = 0 ∧ (extract32 insn 16 5).toNat = 0x1f ∧
        (extract32 insn 21 4).toNat = k := by
    rw [not_not, ← BitVec.toNat_inj, BitVec.extractLsb'_toNat, Nat.shiftRight_eq_div_pow] at hZero
    change insn.toNat / 2 ^ 0 % 2 ^ 5 = 0 at hZero
    rw [BitVec.extractLsb'_toNat, Nat.shiftRight_eq_div_pow] at hField
    rw [extract32_toNat insn 25 (by decide), extract32_toNat insn 0 (by decide),
      extract32_toNat insn 10 (by decide), extract32_toNat insn 16 (by decide),
      extract32_toNat insn 21 (by decide)]
    omega
  unfold regBranch at h
  split_ifs at h with hZero hBr hBlr hRet <;> obtain rfl := Option.some.inj h
  · have hFields := hLow (k := 0) hZero (congrArg BitVec.toNat hBr) (by decide)
    refine ⟨hFields.1, hFields.2.1, hFields.2.2.1, hFields.2.2.2.1, hRn, Or.inr ⟨rfl, ?_⟩⟩
    rw [hFields.2.2.2.2]
    decide
  · have hFields := hLow (k := 1) hZero (congrArg BitVec.toNat hBlr) (by decide)
    exact ⟨hFields.1, hFields.2.1, hFields.2.2.1, hFields.2.2.2.1, hRn,
      Or.inl ⟨rfl, hFields.2.2.2.2⟩⟩
  · have hFields := hLow (k := 2) hZero (congrArg BitVec.toNat hRet) (by decide)
    refine ⟨hFields.1, hFields.2.1, hFields.2.2.1, hFields.2.2.2.1, hRn, Or.inr ⟨rfl, ?_⟩⟩
    rw [hFields.2.2.2.2]
    decide

/-- Code that goes to a register and sets the link register. -/
def JumpsTo (code : Code) (b : RegBranch) (ret : U64) : Prop :=
  ∀ host s, ∃ s', ForwardCode.run (tcg host) code none s = .fell s' ∧ s'.printed = s.printed ∧
    s'.cpu = (s.cpu.linked b.link ret).at (s.cpu.operand b.rn true)

/-- The register is read before the link is written, which matters for BLR X30. -/
theorem Computes.jumpsTo {code : Code} {v : Var} {rn : Nat}
    (h : Computes code v fun cpu => cpu.operand rn true) (link : Bool) (ret : U64) :
    JumpsTo (code ++ [.op (.movI64 .cpuPc v)] ++ linkCode link ret) ⟨rn, link⟩ ret := by
  intro host s
  obtain ⟨s', hRun, hCpu, hPrinted, hValue⟩ := h host s
  have hMove : ForwardCode.run (tcg host) (code ++ [.op (.movI64 .cpuPc v)]) none s =
      .fell (s'.write .cpuPc (s.cpu.operand rn true)) := by
    rw [run_append_of_fell hRun]
    simp only [ForwardCode.run, tcg, stepOp, Exec.withValue, hValue]
  have hDest : (s'.write .cpuPc (s.cpu.operand rn true)).cpu = s.cpu.at (s.cpu.operand rn true) := by
    rw [← hCpu]
    rfl
  have hLink := run_linkCode host link ret [] (s'.write .cpuPc (s.cpu.operand rn true))
  rw [List.append_nil] at hLink
  refine ⟨_, (run_append_of_fell hMove _).trans hLink, hPrinted, ?_⟩
  rw [← Cpu.linked_at, ← hDest]

/-- BR, BLR and RET. -/
theorem disasUncondBReg_jumpsTo {insn : U32} {b : RegBranch} (h : regBranch insn = some b)
    (g : Translation) :
    ∃ code, Appends g ((disasUncondBReg q insn).run g).2 code ∧ JumpsTo code b g.ctx.pc ∧
      ((disasUncondBReg q insn).run g).2.ctx.pc = g.ctx.pc ∧
      ((disasUncondBReg q insn).run g).2.ctx.isJmp = .jump := by
  obtain ⟨_, hOp4, hOp3, hOp2, hRn, hOpc⟩ := regBranch_fields h
  have hAllocated : ¬ (extract32 insn 0 5 ≠ 0 ∨ extract32 insn 10 6 ≠ 0 ∨
      extract32 insn 16 5 ≠ 0x1f) := by
    rw [not_or, not_or, not_not, not_not, not_not]
    exact ⟨BitVec.eq_of_toNat_eq hOp4, BitVec.eq_of_toNat_eq hOp3, BitVec.eq_of_toNat_eq hOp2⟩
  obtain ⟨code, hCode, hComputes⟩ := cpuReg_computes (extract32 insn 5 5).toNat g
  have hKept := cpuReg_along (extract32 insn 5 5).toNat g
  let atDest := (cpuReg (extract32 insn 5 5).toNat).run g
  obtain ⟨rn, link⟩ := b
  obtain rfl : (extract32 insn 5 5).toNat = rn := hRn
  have hJumps := hComputes.jumpsTo link g.ctx.pc
  have hRun : ((disasUncondBReg q insn).run g).2 =
      { atDest.2 with
        ctx := { atDest.2.ctx with isJmp := .jump }
        ops := atDest.2.ops ++ [.op (.movI64 .cpuPc atDest.1)] ++ linkCode link g.ctx.pc } := by
    change ((if extract32 insn 0 5 ≠ 0 ∨ extract32 insn 10 6 ≠ 0 ∨ extract32 insn 16 5 ≠ 0x1f
      then _ else _ : Gen Unit).run g).2 = _
    rw [if_neg hAllocated]
    rcases hOpc with ⟨hLink, hOpc⟩ | ⟨hLink, hOpc⟩ <;> obtain rfl : link = _ := hLink
    · rw [hOpc]
      rfl
    · rw [linkCode_false, List.append_nil]
      simp only [List.mem_cons, List.not_mem_nil, or_false] at hOpc
      rcases hOpc with hOpc | hOpc <;> rw [hOpc] <;> rfl
  rw [hRun]
  refine ⟨_, ⟨?_, hKept.debug, hKept.ss⟩, hJumps, hKept.pc, rfl⟩
  simp only [atDest, hCode.ops, List.append_assoc]

/-- A branch to a register is one instruction; the end of the block is still to come. -/
theorem disasA64Insn_reg {b : RegBranch} (h : regBranch (guest.code g.ctx.pc) = some b) :
    ∃ code, Appends g ((disasA64Insn q (guest.code g.ctx.pc)).run g).2 code ∧
      JumpsTo code b (g.ctx.pc + 4) ∧
      ((disasA64Insn q (guest.code g.ctx.pc)).run g).2.ctx.isJmp = .jump := by
  let fetched := g.fetched (guest.code g.ctx.pc)
  obtain ⟨hClass, hOp4, hOp3, hOp2, _, hOpc⟩ := regBranch_fields h
  have hAllocated : AllocatedBranch (guest.code g.ctx.pc) := by
    refine .uncondReg hClass (BitVec.eq_of_toNat_eq hOp4) (BitVec.eq_of_toNat_eq hOp3)
      (BitVec.eq_of_toNat_eq hOp2) ?_
    simp only [List.mem_cons, List.not_mem_nil, or_false] at hOpc ⊢
    omega
  obtain ⟨code, hCode, hJumps, _, hIsJmp⟩ := disasUncondBReg_jumpsTo (q := q) h fetched
  rw [disasA64Insn_branch hAllocated, disasBExcSys, hClass]
  exact ⟨code, ⟨hCode.ops, hCode.debug, hCode.ss⟩, hJumps, hIsJmp⟩

/-- An instruction that is no branch. -/
theorem disasA64Insn_effect (hOthers : OtherInsns q guest) {effect : Cpu → Cpu}
    (h : guest.other (guest.code g.ctx.pc) = some effect) :
    ∃ code, Appends g ((disasA64Insn q (guest.code g.ctx.pc)).run g).2 code ∧
      FallsThrough code g.ctx.pc effect ∧
      ((disasA64Insn q (guest.code g.ctx.pc)).run g).2.ctx.pc = g.ctx.pc + 4 ∧
      ((disasA64Insn q (guest.code g.ctx.pc)).run g).2.ctx.isJmp = g.ctx.isJmp := by
  let fetched := g.fetched (guest.code g.ctx.pc)
  obtain ⟨code, hCode, hFalls, hPc, hIsJmp⟩ := hOthers.translated _ effect h fetched
  have hBefore : fetched.ctx.pc - 4 = g.ctx.pc := BitVec.add_sub_cancel ..
  rw [hBefore] at hFalls
  rw [disasA64Insn_other (hOthers.otherClass _ (by rw [h]; rfl))]
  exact ⟨code, ⟨hCode.ops, hCode.debug, hCode.ss⟩, hFalls, hPc, hIsJmp⟩

end Branches

end BranchPrediction.Translator
