import BranchPrediction.Translator.Frame

/-! The sizes that are recorded for a block, and the page it lies in. -/
namespace BranchPrediction.Translator

open ForwardCode StateSteps

/-- A translation step that keeps the pc. -/
def SamePc (g g' : Translation) : Prop := g'.ctx.pc = g.ctx.pc

instance : Std.Refl SamePc where
  refl _ := rfl

instance : IsTrans Translation SamePc where
  trans _ _ _ h h' := h'.trans h

/-- The translation functions that are parameters leave the pc to `disas_a64_insn`. -/
structure Qemu.KeepsPc (q : Qemu) : Prop where
  disasSystem : ∀ insn, Along SamePc (q.disasSystem insn)
  disasExc : ∀ insn, Along SamePc (q.disasExc insn)
  disasOtherClass : ∀ insn, Along SamePc (q.disasOtherClass insn)

section Instructions

variable {q : Qemu} (insn : U32)

theorem unallocatedEncoding_samePc : Along SamePc (unallocatedEncoding q) := fun _ => rfl

theorem disasCondBImm_samePc : Along SamePc (disasCondBImm q insn) := by
  by_cases hBad : insn &&& (1 : U32) <<< 4 ≠ 0 ∨ insn &&& (1 : U32) <<< 24 ≠ 0
  · exact .bind .get fun _ => .ite (fun _ => unallocatedEncoding_samePc) fun h => absurd hBad h
  · rw [not_or, not_not, not_not] at hBad
    exact fun g => ((disasCondBImm_endsBlock hBad.1 hBad.2).kept g).pc

theorem disasUncondBReg_samePc : Along SamePc (disasUncondBReg q insn) := by
  have hReg (reg : Nat) : Along SamePc (cpuReg reg) := fun g => (cpuReg_along reg g).pc
  have hEmit (op : TcgOp) : Along SamePc (emit op) := fun _ => rfl
  have hJump : Along SamePc (setIsJmp .jump) := fun _ => rfl
  refine .bind .get fun _ => .ite (fun _ => unallocatedEncoding_samePc) fun _ => ?_
  split
  iterate 2 exact .bind (hReg _) fun _ => .bind (hEmit _) fun _ => hJump
  · exact .bind (hReg _) fun _ => .bind (hEmit _) fun _ => .bind (hReg 30) fun _ =>
      .bind (hEmit _) fun _ => hJump
  · exact .ite (fun _ => unallocatedEncoding_samePc) fun _ => .bind (hEmit _) fun _ => hJump
  · exact .ite (fun _ => unallocatedEncoding_samePc) fun _ => unallocatedEncoding_samePc
  · exact unallocatedEncoding_samePc

theorem disasBExcSys_samePc (hq : q.KeepsPc) : Along SamePc (disasBExcSys q insn) := by
  unfold disasBExcSys
  split
  iterate 4 exact fun g => (disasUncondBImm_emitsBranch insn g).kept.pc
  iterate 2 exact fun g => ((disasCompBImm_endsBlock insn).kept g).pc
  iterate 2 exact fun g => ((disasTestBImm_endsBlock insn).kept g).pc
  · exact disasCondBImm_samePc insn
  · exact .ite (fun _ => hq.disasSystem insn) fun _ => hq.disasExc insn
  · exact disasUncondBReg_samePc insn
  · exact unallocatedEncoding_samePc

/-- Every instruction, allocated or not, moves the pc by four. -/
theorem disasA64Insn_pc (hq : q.KeepsPc) (g : Translation) :
    ((disasA64Insn q insn).run g).2.ctx.pc = g.ctx.pc + 4 := by
  let fetched : Translation :=
    { g with ctx := { g.ctx with insn := insn, pc := g.ctx.pc + 4, fpAccessChecked := false } }
  have hClass (m : Gen Unit) (h : Along SamePc m) :
      ((m >>= fun _ => freeTmpA64).run fetched).2.ctx.pc = g.ctx.pc + 4 := h fetched
  unfold disasA64Insn
  split
  iterate 4 exact hClass _ unallocatedEncoding_samePc
  iterate 2 exact hClass _ (disasBExcSys_samePc insn hq)
  exact hClass _ (hq.disasOtherClass insn)

end Instructions

section Rounds

variable {q : BlockQemu} {b : BlockInput} {g : Translation}

/-- A step is pending, and it is not a breakpoint that stops the guest here. -/
def Pending (b : BlockInput) (g : Translation) : Prop :=
  g.ctx.pc ∉ b.breakpoints ∧ (g.ctx.ssActive && !g.ctx.pstateSs) = true

/-- A round moves the pc by four, unless a step is pending. -/
theorem genInsn_pc (hq : q.toQemu.KeepsPc) (g : Translation) :
    (Pending b g → ((genInsn q b).run g).1 = false ∧
      ((genInsn q b).run g).2.ctx.pc = g.ctx.pc) ∧
    (¬ Pending b g → ((genInsn q b).run g).2.ctx.pc = g.ctx.pc + 4) ∧
    (((genInsn q b).run g).1 = true → goOn q b ((genInsn q b).run g).2 = true) := by
  have hRun : (genInsn q b).run g = (if g.ctx.pc ∈ b.breakpoints then do
        genExceptionInternalInsn 0 q.EXCP_DEBUG
        updateCtx fun s => { s with pc := s.pc + 4 }
        return false
      else if g.ctx.ssActive && !g.ctx.pstateSs then do
        genException q.EXCP_UDEF (q.synSwstep g.ctx.ssSameEl false false)
          (q.defaultExceptionEl g.ctx)
        setIsJmp .exc
        return false
      else do
        disasA64Insn q.toQemu (b.ldlCode g.ctx.pc)
        let g ← get
        return goOn q b g : Gen Bool).run g := rfl
  rw [hRun, Pending]
  by_cases hBreak : g.ctx.pc ∈ b.breakpoints
  · rw [if_pos hBreak]
    exact ⟨fun h => absurd hBreak h.1, fun _ => rfl, fun h => nomatch h⟩
  · rw [if_neg hBreak]
    by_cases hStep : (g.ctx.ssActive && !g.ctx.pstateSs) = true
    · rw [if_pos hStep]
      exact ⟨fun _ => ⟨rfl, rfl⟩, fun h => absurd ⟨hBreak, hStep⟩ h, fun h => nomatch h⟩
    · rw [if_neg hStep]
      exact ⟨fun h => absurd h.2 hStep, fun _ => disasA64Insn_pc _ hq g, fun h => h⟩

/-- The loop from a state in which no step is pending: the pc moves by four a round,
and every round but the first starts in front of the end of the page. -/
theorem genInsns_size (hq : q.toQemu.KeepsPc) (more : Nat) (hReady : ¬ Pending b g) :
    let n := ((genInsns q b more).run g).1
    0 < n ∧ n ≤ more + 1 ∧ ((genInsns q b more).run g).2.ctx.pc = insnAddr g.ctx.pc n ∧
      ∀ k, 0 < k → k < n → insnAddr g.ctx.pc k < b.nextPageStart q := by
  induction more generalizing g with
  | zero =>
      have hPc := (genInsn_pc (q := q) hq g).2.1 hReady
      have hNone (k : Nat) (hk : 0 < k) (hLast : k < 1) : insnAddr g.ctx.pc k < b.nextPageStart q := by
        omega
      exact ⟨Nat.one_pos, Nat.le_refl 1, hPc.trans (insnAddr_one _).symm, hNone⟩
  | succ more ih =>
      obtain ⟨_, hPc, hAgain⟩ := genInsn_pc (q := q) (b := b) hq g
      have hPc := hPc hReady
      rw [genInsns_succ]
      by_cases hMore : ((genInsn q b).run g).1 = true
      · rw [if_pos hMore]
        let g' := ((genInsn q b).run g).2
        have hGoOn : goOn q b g' = true := hAgain hMore
        have hReady' : ¬ Pending b g' := by
          rintro ⟨_, hStep⟩
          rw [(goOn_plain hGoOn).2.2] at hStep
          cases hStep
        obtain ⟨hPos, hLe, hEnd, hInside⟩ := ih hReady'
        have hMoved (k : Nat) : insnAddr g'.ctx.pc k = insnAddr g.ctx.pc (k + 1) := by
          rw [insnAddr_succ, ← hPc]
        refine ⟨Nat.succ_pos _, Nat.succ_le_succ hLe, hEnd.trans (hMoved _), fun k hk hkn => ?_⟩
        obtain ⟨k, rfl⟩ : ∃ j, k = j + 1 := ⟨k - 1, by omega⟩
        rw [← hMoved]
        rcases Nat.eq_zero_or_pos k with rfl | hk
        · rw [insnAddr_zero]
          exact goOn_inside hGoOn
        · exact hInside k hk (Nat.lt_of_succ_lt_succ hkn)
      · rw [if_neg hMore]
        exact ⟨Nat.one_pos, by omega, hPc.trans (insnAddr_one _).symm, fun k _ _ => by omega⟩

end Rounds

section Pages

variable {n : Nat} {pc : U64}

theorem and_pageMask (x : U64) (n : Nat) :
    (x &&& BitVec.allOnes 64 <<< n).toNat = x.toNat / 2 ^ n * 2 ^ n := by
  have hDown : x.toNat / 2 ^ n * 2 ^ n < 2 ^ 64 :=
    Nat.lt_of_le_of_lt (Nat.div_mul_le_self x.toNat (2 ^ n)) x.isLt
  rw [← BitVec.shiftLeft_ushiftRight, BitVec.toNat_shiftLeft, BitVec.toNat_ushiftRight,
    Nat.shiftRight_eq_div_pow, Nat.shiftLeft_eq, Nat.mod_eq_of_lt hDown]

/-- The end of the page as a number, except behind the last page. -/
theorem nextPage_toNat (hBits : n < 64) (pc : U64) :
    ((pc &&& BitVec.allOnes 64 <<< n) + 1#64 <<< n).toNat =
      (pc.toNat / 2 ^ n + 1) * 2 ^ n % 2 ^ 64 := by
  have hOne : (1#64 <<< n).toNat = 2 ^ n := by
    rw [BitVec.toNat_shiftLeft, Nat.shiftLeft_eq]
    exact (congrArg (· % 2 ^ 64) (Nat.one_mul _)).trans
      (Nat.mod_eq_of_lt (Nat.pow_lt_pow_right (by decide) hBits))
  rw [BitVec.toNat_add, and_pageMask, hOne, Nat.add_one_mul]

/-- Addresses that follow the first one in steps of four and stay in front of the end
of its page are in the page. -/
theorem insnAddr_in_page (hFour : 2 ≤ n) (hBits : n < 64) {count : Nat}
    (hInside : ∀ k, 0 < k → k < count →
      insnAddr pc k < (pc &&& BitVec.allOnes 64 <<< n) + 1#64 <<< n) {k : Nat} (hk : k < count) :
    (insnAddr pc k).toNat = pc.toNat + 4 * k ∧
      (insnAddr pc k).toNat / 2 ^ n = pc.toNat / 2 ^ n := by
  have hStep : 4 ≤ 2 ^ n := Nat.pow_le_pow_right (by decide : 0 < 2) hFour
  have hAll : 2 ^ (64 - n) * 2 ^ n = 2 ^ 64 := by
    rw [← Nat.pow_add, Nat.sub_add_cancel (Nat.le_of_lt hBits)]
  have hPages : pc.toNat / 2 ^ n < 2 ^ (64 - n) :=
    Nat.div_lt_of_lt_mul (by rw [Nat.mul_comm, hAll]; exact pc.isLt)
  have hStart : pc.toNat / 2 ^ n * 2 ^ n ≤ pc.toNat := Nat.div_mul_le_self pc.toNat (2 ^ n)
  have hEnd := nextPage_toNat hBits pc
  generalize hPage : pc.toNat / 2 ^ n = page at *
  induction k with
  | zero =>
      rw [insnAddr_zero]
      exact ⟨rfl, hPage⟩
  | succ k ih =>
      obtain ⟨hAddr, hSame⟩ := ih (Nat.lt_of_succ_lt hk)
      have hBefore := hInside (k + 1) (Nat.succ_pos k) hk
      rw [BitVec.lt_def, hEnd] at hBefore
      -- behind the last page the end is 0, and no further instruction is taken
      have hNotLast : page + 1 ≠ 2 ^ (64 - n) := by
        intro hLast
        rw [hLast, hAll] at hBefore
        exact Nat.not_lt_zero _ hBefore
      have hRoom : (page + 2) * 2 ^ n ≤ 2 ^ 64 := by
        rw [← hAll]
        exact Nat.mul_le_mul_right _ (by omega)
      have hTwo : (page + 2) * 2 ^ n = (page + 1) * 2 ^ n + 2 ^ n := by ring
      have hLt : (page + 1) * 2 ^ n < 2 ^ 64 := by omega
      rw [Nat.mod_eq_of_lt hLt] at hBefore
      have hInPage : (insnAddr pc k).toNat < (page + 1) * 2 ^ n :=
        Nat.lt_mul_of_div_lt (by omega) (Nat.two_pow_pos n)
      have hNext : (insnAddr pc (k + 1)).toNat = (insnAddr pc k).toNat + 4 := by
        rw [insnAddr_succ_last, BitVec.toNat_add]
        exact Nat.mod_eq_of_lt (by change _ + 4 < _; omega)
      exact ⟨by omega, Nat.div_eq_of_lt_le (by omega) hBefore⟩

theorem and_pageMask_eq {x y : U64} (h : x.toNat / 2 ^ n = y.toNat / 2 ^ n) :
    x &&& BitVec.allOnes 64 <<< n = y &&& BitVec.allOnes 64 <<< n := by
  apply BitVec.eq_of_toNat_eq
  rw [and_pageMask, and_pageMask, h]

/-- Every block has an instruction and no more than it may have, all of them in the page
of the first; its size is four bytes for each, or none if it only reports a pending step. -/
theorem generate_size (q : BlockQemu) (b : BlockInput) (hq : q.toQemu.KeepsPc) (hFour : 2 ≤ n)
    (hBits : n < 64) (hMask : q.TARGET_PAGE_MASK = BitVec.allOnes 64 <<< n)
    (hSize : q.TARGET_PAGE_SIZE = 1#64 <<< n) :
    0 < (generate q b).icount ∧ (generate q b).icount ≤ max 1 (b.maxInsns q) ∧
      (∀ k < (generate q b).icount,
        insnAddr b.tbPc k &&& q.TARGET_PAGE_MASK = b.tbPc &&& q.TARGET_PAGE_MASK) ∧
      (generate q b).size =
        if b.tbPc ∉ b.breakpoints ∧ b.ssActive = true ∧ b.pstateSs = false then 0
        else 4 * BitVec.ofNat 64 (generate q b).icount := by
  let g : Translation := { ctx := b.start, ops := [], temps := 0, labels := 0 }
  let more := b.maxInsns q - 1
  have hIcount : (generate q b).icount = ((genInsns q b more).run g).1 := rfl
  have hEnd : (generate q b).size = ((genInsns q b more).run g).2.ctx.pc - b.tbPc :=
    congrArg (· - b.tbPc) (genBlockEnd_along ((genInsns q b more).run g).2).pc
  have hPendingIff : Pending b g ↔
      b.tbPc ∉ b.breakpoints ∧ b.ssActive = true ∧ b.pstateSs = false := by
    change b.tbPc ∉ b.breakpoints ∧ (b.ssActive && !b.pstateSs) = true ↔ _
    rw [Bool.and_eq_true, Bool.not_eq_true']
  rw [hIcount, hEnd]
  by_cases hPending : Pending b g
  · obtain ⟨hStop, hPc⟩ := (genInsn_pc (q := q) hq g).1 hPending
    rw [if_pos (hPendingIff.mp hPending), genInsns_once hStop]
    refine ⟨Nat.one_pos, by omega, fun k hk => ?_, ?_⟩
    · obtain rfl : k = 0 := Nat.lt_one_iff.mp hk
      rw [insnAddr_zero]
    · rw [hPc]
      exact BitVec.sub_self b.tbPc
  · obtain ⟨hPos, hLe, hPc, hInside⟩ := genInsns_size (q := q) hq more hPending
    rw [if_neg fun h => hPending (hPendingIff.mpr h)]
    refine ⟨hPos, by omega, fun k hk => ?_, ?_⟩
    · rw [hMask]
      refine and_pageMask_eq (insnAddr_in_page hFour hBits (fun j hj hjn => ?_) hk).2
      have hBefore := hInside j hj hjn
      rw [BlockInput.nextPageStart, hMask, hSize] at hBefore
      exact hBefore
    · rw [hPc]
      exact add_sub_cancel_left b.tbPc _

/-- Hints that do nothing, two words in front of the end of a page. -/
def hintsAtPageEnd : BlockInput where
  tbPc := 0x1ff8
  tbCflags := 0
  ssActive := false
  pstateSs := false
  currentEl := 0
  debugTargetEl := 0
  ldlCode _ := 0xd503201f
  breakpoints := []
  singlestepEnabled := false
  singlestep := false
  opBufFull _ := false

def hintQemu : BlockQemu :=
  { userQemu with CF_COUNT_MASK := 0x7fff, TCG_MAX_INSNS := 512, TARGET_PAGE_SIZE := 0x1000 }

theorem generate_size_page_end :
    (∀ k < (generate hintQemu hintsAtPageEnd).icount,
        insnAddr 0x1ff8 k &&& 0xfffffffffffff000 = 0x1000) ∧
      (generate hintQemu hintsAtPageEnd).size = 8 := by
  have hKeeps : hintQemu.toQemu.KeepsPc := ⟨fun _ _ => rfl, fun _ _ => rfl, fun _ _ => rfl⟩
  obtain ⟨_, _, hPage, hSize⟩ := generate_size (n := 12) hintQemu hintsAtPageEnd hKeeps (by decide)
    (by decide) (by decide) (by decide)
  exact ⟨hPage, hSize.trans (by decide +kernel)⟩

end Pages

end BranchPrediction.Translator
