import BranchPrediction.SharedMemory.FullMemory

/-! The loop of `client.c`, which stands in for the helper and numbers the cells
that it stores. It runs against the same server. -/
namespace BranchPrediction.SharedMemory

open Interleaving

/-- The next operation of the loop. -/
inductive ClientLabel where
  /-- `if (!firstTime)` -/
  | loop
  /-- the first round: `sem_wait(serverRead_sem)` -/
  | connect
  /-- `sem_wait(statusMutex_sem)` -/
  | lock
  /-- `currStatus = status` -/
  | check
  /-- `sem_post(statusMutex_sem)` -/
  | unlock
  /-- `sem_getvalue(clientWrote_sem, ..)` -/
  | getValue
  /-- choose the sector by `nextToWrite` -/
  | pick
  /-- write cell `cnt` of the sector -/
  | store (sector : Nat)
  /-- the sector is full: `sem_wait(statusMutex_sem)` -/
  | closeLock
  /-- `switch (status)` -/
  | closeSwitch
  /-- the test of `nextToWrite` in case 0 -/
  | closeSide
  /-- `status = newStatus` -/
  | closeStatus (newStatus : Nat)
  /-- the read of `nextToWrite ^= 1` -/
  | closeToggle
  /-- the write of `nextToWrite ^= 1` -/
  | closeToggleWrite (side : Nat)
  /-- `sem_post(clientWrote_sem)` -/
  | closePost
  /-- `sem_post(statusMutex_sem)` -/
  | closeUnlock
  /-- the memory was full: `sem_wait(serverRead_sem)` -/
  | full
  /-- `exit(0)` -/
  | exited
deriving DecidableEq, Repr

/-- The static and local variables of `main`. -/
structure EmulatedClient where
  label : ClientLabel
  firstTime : Bool
  cnt : Nat
  round : Nat
  tmp : U64
  currStatus : Nat
  clientWroteSemValue : Nat

namespace EmulatedClient

def init : EmulatedClient where
  label := .loop
  firstTime := true
  cnt := 0
  round := 0
  tmp := 0
  currStatus := 0
  clientWroteSemValue := 0

/-- One step; `none` when a semaphore blocks, and after `exit`. -/
def step (p : Setup) (x : Shared) (c : EmulatedClient) : Option (Shared × EmulatedClient) :=
  match c.label with
  | .loop =>
      some (x, { c with label := if c.firstTime then .connect else .lock, firstTime := false })
  | .connect => do
      let value ← semWait x.serverRead
      some ({ x with serverRead := value }, { c with label := .loop })
  | .lock => do
      let value ← semWait x.statusMutex
      some ({ x with statusMutex := value }, { c with label := .check })
  | .check => some (x, { c with label := .unlock, currStatus := x.status })
  | .unlock =>
      some ({ x with statusMutex := x.statusMutex + 1 }, { c with label := .getValue })
  | .getValue =>
      some (x, { c with
        label := if c.currStatus ≠ 3 then .pick else .full
        clientWroteSemValue := x.clientWrote })
  | .pick => some (x, { c with label := .store (if x.nextToWrite = 0 then 0 else 1) })
  | .store sector =>
      if c.cnt ≠ p.nData - 1 then
        some (x.store sector c.cnt ⟨BitVec.ofNat 64 c.cnt, c.tmp, 0xf0f0f0f0⟩,
          { c with label := .loop, cnt := c.cnt + 1, tmp := c.tmp + 1 })
      else
        let tmp := c.tmp + 1
        some (x.store sector c.cnt ⟨BitVec.ofNat 64 c.cnt, tmp, 0xf0f0f0f0⟩,
          { c with label := .closeLock, cnt := 0, tmp := tmp })
  | .closeLock => do
      let value ← semWait x.statusMutex
      some ({ x with statusMutex := value }, { c with label := .closeSwitch })
  | .closeSwitch =>
      match x.status with
      | 1 => some (x, { c with label := .closeStatus 3 })
      | 2 => some (x, { c with label := .closeStatus 3 })
      | 0 => some (x, { c with label := .closeSide })
      | _ => some (x, { c with label := .exited })
  | .closeSide =>
      some (x, { c with label := .closeStatus (if x.nextToWrite = 0 then 1 else 2) })
  | .closeStatus newStatus =>
      some ({ x with status := newStatus }, { c with label := .closeToggle })
  | .closeToggle => some (x, { c with label := .closeToggleWrite x.nextToWrite })
  | .closeToggleWrite side =>
      some ({ x with nextToWrite := side ^^^ 1 }, { c with label := .closePost })
  | .closePost =>
      some ({ x with clientWrote := x.clientWrote + 1 }, { c with label := .closeUnlock })
  | .closeUnlock =>
      some ({ x with statusMutex := x.statusMutex + 1 },
        { c with label := .loop, round := c.round + 1 })
  | .full => do
      let value ← semWait x.serverRead
      some ({ x with serverRead := value }, { c with label := .loop })
  | .exited => none

end EmulatedClient

abbrev Emulation := Config Shared EmulatedClient Server

def EmulatedClientStep (p : Setup) (x : Shared) (c : EmulatedClient) (x' : Shared)
    (c' : EmulatedClient) : Prop :=
  c.step p x = some (x', c')

def Emulation.init (p : Setup) : Emulation := ⟨Shared.init p, EmulatedClient.init, Server.init⟩

/-- The states that `client.c` and the server can reach. -/
def Emulation.Reachable (p : Setup) (s : Emulation) : Prop :=
  Interleaving.Reachable (EmulatedClientStep p) (ServerStep p) (Emulation.init p) s

section Steps

variable {p : Setup} {x x' : Shared}

/-- The cell that the client stores next. The last cell of a sector takes its
number after the increment. -/
def EmulatedClient.nextCell (p : Setup) (c : EmulatedClient) : ShmCell :=
  ⟨BitVec.ofNat 64 c.cnt, if c.cnt ≠ p.nData - 1 then c.tmp else c.tmp + 1, 0xf0f0f0f0⟩

/-- A step stores the next cell and counts it, or does neither. -/
theorem EmulatedClient.step_cases {c c' : EmulatedClient} (hStep : c.step p x = some (x', c')) :
    (x'.stored = x.stored ∧ c'.cnt = c.cnt ∧ c'.tmp = c.tmp) ∨
      ∃ sector, x'.stored = x.stored ++ [(⟨sector, c.cnt⟩, c.nextCell p)] ∧
        c'.cnt = (if c.cnt ≠ p.nData - 1 then c.cnt + 1 else 0) ∧ c'.tmp = c.tmp + 1 := by
  cases hLabel : c.label with
  | loop | check | unlock | getValue | pick | closeSide | closeStatus newStatus | closeToggle
  | closeToggleWrite side | closePost | closeUnlock =>
      simp only [EmulatedClient.step, hLabel, Option.some.injEq, Prod.mk.injEq] at hStep
      obtain ⟨rfl, rfl⟩ := hStep
      exact .inl ⟨rfl, rfl, rfl⟩
  | connect | lock | closeLock | full =>
      simp only [EmulatedClient.step, hLabel, Option.bind_eq_bind, Option.bind_eq_some_iff,
        Option.some.injEq, Prod.mk.injEq] at hStep
      obtain ⟨value, _, rfl, rfl⟩ := hStep
      exact .inl ⟨rfl, rfl, rfl⟩
  | closeSwitch =>
      simp only [EmulatedClient.step, hLabel] at hStep
      split at hStep <;>
        · simp only [Option.some.injEq, Prod.mk.injEq] at hStep
          obtain ⟨rfl, rfl⟩ := hStep
          exact .inl ⟨rfl, rfl, rfl⟩
  | store sector =>
      refine .inr ⟨sector, ?_⟩
      simp only [EmulatedClient.step, hLabel] at hStep
      by_cases hLast : c.cnt = p.nData - 1
      · rw [if_neg (not_not_intro hLast), Option.some.injEq, Prod.mk.injEq] at hStep
        obtain ⟨rfl, rfl⟩ := hStep
        simp [Shared.store, EmulatedClient.nextCell, hLast]
      · rw [if_pos hLast, Option.some.injEq, Prod.mk.injEq] at hStep
        obtain ⟨rfl, rfl⟩ := hStep
        simp [Shared.store, EmulatedClient.nextCell, hLast]
  | exited => simp [EmulatedClient.step, hLabel] at hStep

theorem Server.step_stored {b b' : Server} (hStep : b.step p x = some (x', b')) :
    x'.stored = x.stored := by
  cases hLabel : b.label with
  | loopTest | check | unlock | pick | releaseSide | releaseStatus newStatus | releaseToggle
  | releaseToggleWrite side | releasePost | releaseUnlock =>
      simp only [Server.step, hLabel, Option.some.injEq, Prod.mk.injEq] at hStep
      obtain ⟨rfl, rfl⟩ := hStep
      rfl
  | lock | empty | releaseLock =>
      simp only [Server.step, hLabel, Option.bind_eq_bind, Option.bind_eq_some_iff,
        Option.some.injEq, Prod.mk.injEq] at hStep
      obtain ⟨value, _, rfl, rfl⟩ := hStep
      rfl
  | read sector i | releaseSwitch =>
      simp only [Server.step, hLabel] at hStep
      split at hStep <;>
        · simp only [Option.some.injEq, Prod.mk.injEq] at hStep
          obtain ⟨rfl, rfl⟩ := hStep
          rfl
  | done | exited => simp [Server.step, hLabel] at hStep

end Steps

/-- The `tAddr` values stored, in order. -/
def Shared.numbers (x : Shared) : List U64 := x.stored.map fun entry => entry.2.tAddr

/-- The number that the `k`-th cell gets. -/
def numberOf (nData k : Nat) : Nat := if k % nData = nData - 1 then k + 1 else k

/-- The counters and the cells after so many stores. -/
structure Numbered (p : Setup) (x : Shared) (c : EmulatedClient) : Prop where
  cnt : c.cnt = x.stored.length % p.nData
  tmp : c.tmp = BitVec.ofNat 64 x.stored.length
  index : ∀ k a d, x.stored[k]? = some (a, d) → a.index = k % p.nData
  tAddr : ∀ k a d, x.stored[k]? = some (a, d) → d.tAddr = BitVec.ofNat 64 (numberOf p.nData k)

theorem succ_mod_sector {nData : Nat} (hPos : 0 < nData) (k : Nat) :
    (k + 1) % nData = if k % nData ≠ nData - 1 then k % nData + 1 else 0 := by
  have hLess := Nat.mod_lt k hPos
  rw [← Nat.mod_add_mod]
  by_cases hLast : k % nData = nData - 1
  · rw [if_neg (not_not_intro hLast), hLast, Nat.sub_add_cancel hPos, Nat.mod_self]
  · rw [if_pos hLast]
    exact Nat.mod_eq_of_lt (by omega)

section Numbers

variable {p : Setup} {x x' : Shared} {c c' : EmulatedClient}

theorem Numbered.nextCell (h : Numbered p x c) :
    (c.nextCell p).tAddr = BitVec.ofNat 64 (numberOf p.nData x.stored.length) := by
  rw [EmulatedClient.nextCell, numberOf, ← h.cnt, h.tmp]
  by_cases hLast : c.cnt = p.nData - 1
  · rw [if_pos hLast, if_neg (not_not_intro hLast), BitVec.ofNat_add]
    rfl
  · rw [if_neg hLast, if_pos hLast]

/-- A step without a store. -/
theorem Numbered.unchanged (h : Numbered p x c) (hStored : x'.stored = x.stored)
    (hCnt : c'.cnt = c.cnt) (hTmp : c'.tmp = c.tmp) : Numbered p x' c' where
  cnt := by rw [hCnt, hStored, h.cnt]
  tmp := by rw [hTmp, hStored, h.tmp]
  index := by
    rw [hStored]
    exact h.index
  tAddr := by
    rw [hStored]
    exact h.tAddr

theorem Numbered.step (h : Numbered p x c) (hStep : c.step p x = some (x', c')) :
    Numbered p x' c' := by
  obtain ⟨hStored, hCnt, hTmp⟩ | ⟨sector, hStored, hCnt, hTmp⟩ := EmulatedClient.step_cases hStep
  · exact h.unchanged hStored hCnt hTmp
  · refine ⟨?_, ?_, fun k a d hGet => ?_, fun k a d hGet => ?_⟩
    · rw [hCnt, hStored, List.length_append, List.length_singleton, succ_mod_sector p.nData_pos,
        h.cnt]
    · rw [hTmp, hStored, List.length_append, List.length_singleton, h.tmp, BitVec.ofNat_add]
      rfl
    · rw [hStored] at hGet
      obtain hOld | ⟨rfl, hNew⟩ := getElem?_concat_eq_some hGet
      · exact h.index k a d hOld
      · rw [(Prod.mk.inj hNew).1]
        exact h.cnt
    · rw [hStored] at hGet
      obtain hOld | ⟨rfl, hNew⟩ := getElem?_concat_eq_some hGet
      · exact h.tAddr k a d hOld
      · rw [(Prod.mk.inj hNew).2]
        exact h.nextCell

/-- The number of every cell that was stored. -/
theorem Numbered.getElem?_numbers (h : Numbered p x c) {k : Nat} (hLess : k < x.stored.length) :
    x.numbers[k]? = some (BitVec.ofNat 64 (numberOf p.nData k)) := by
  obtain ⟨a, d, hGet⟩ := Shared.exists_stored hLess
  rw [Shared.numbers, List.getElem?_map, hGet, Option.map_some, h.tAddr k a d hGet]

end Numbers

theorem numbered_of_reachable {p : Setup} {s : Emulation} (hReachable : Emulation.Reachable p s) :
    Numbered p s.shared s.left := by
  refine hReachable.invariant (P := fun s => Numbered p s.shared s.left) ?_
    fun s s' _ h hStep => ?_
  · exact ⟨(Nat.zero_mod _).symm, rfl, by simp [Emulation.init, Shared.init],
      by simp [Emulation.init, Shared.init]⟩
  · cases hStep with
    | left b hLeft => exact h.step hLeft
    | right c hRight => exact h.unchanged (Server.step_stored hRight) rfl rfl

/-- The numbers count up from 0. -/
structure Consecutive (numbers : List U64) : Prop where
  first : ∀ v, numbers[0]? = some v → v = 0
  next : numbers.IsChain fun v w => w = v + 1

theorem consecutive_iff {numbers : List U64} :
    Consecutive numbers ↔ ∀ k v, numbers[k]? = some v → v = BitVec.ofNat 64 k := by
  constructor
  · intro h k
    induction k with
    | zero => exact h.first
    | succ k ih =>
        intro v hGet
        obtain ⟨hLess, rfl⟩ := List.getElem?_eq_some_iff.mp hGet
        rw [List.isChain_iff_getElem.mp h.next k hLess, ih _ (List.getElem?_eq_getElem _),
          BitVec.ofNat_add]
        rfl
  · intro hNumbers
    refine ⟨hNumbers 0, List.isChain_iff_getElem.mpr fun k hLess => ?_⟩
    rw [hNumbers (k + 1) _ (List.getElem?_eq_getElem hLess),
      hNumbers k _ (List.getElem?_eq_getElem _), BitVec.ofNat_add]
    rfl

/-- The client alone has stored some cells of the first sector. -/
structure Counting (p : Setup) (count : Nat) (s : Emulation) : Prop where
  reachable : Emulation.Reachable p s
  label : s.left.label = .loop
  firstTime : s.left.firstTime = false
  cnt : s.left.cnt = count
  status : s.shared.status = 0
  nextToWrite : s.shared.nextToWrite = 0
  statusMutex : s.shared.statusMutex = 1
  stored : s.shared.stored.length = count

section FirstSector

variable {p : Setup} {count : Nat} {s : Emulation}

theorem Emulation.Reachable.client {x x' : Shared} {c c' : EmulatedClient} {b : Server}
    (hReachable : Emulation.Reachable p ⟨x, c, b⟩) (hStep : c.step p x = some (x', c')) :
    Emulation.Reachable p ⟨x', c', b⟩ :=
  Interleaving.Reachable.step hReachable (.left b hStep)

/-- The round up to the store. -/
theorem Counting.reach_store (h : Counting p count s) :
    Emulation.Reachable p ⟨s.shared,
      { s.left with
        label := .store 0
        currStatus := 0
        clientWroteSemValue := s.shared.clientWrote }, s.right⟩ := by
  obtain ⟨⟨cell, status, nextToRead, nextToWrite, statusMutex, clientWrote, serverRead, stored⟩,
    ⟨label, firstTime, cnt, round, tmp, currStatus, value⟩, b⟩ := s
  obtain ⟨hReachable, rfl, rfl, rfl, rfl, rfl, rfl, _⟩ := h
  have hLock := hReachable.client rfl
  have hCheck := hLock.client rfl
  have hUnlock := hCheck.client rfl
  have hGetValue := hUnlock.client rfl
  have hPick := hGetValue.client rfl
  exact hPick.client rfl

theorem counting_cells (count : Nat) (hCount : count < p.nData) : ∃ s, Counting p count s := by
  induction count with
  | zero =>
      have hInit : Emulation.Reachable p ⟨Shared.init p, EmulatedClient.init, Server.init⟩ := .init
      have hConnect := hInit.client rfl
      exact ⟨_, hConnect.client rfl, rfl, rfl, rfl, rfl, rfl, rfl, rfl⟩
  | succ count ih =>
      obtain ⟨s, h⟩ := ih (by omega)
      have hNotLast : s.left.cnt ≠ p.nData - 1 := by
        rw [h.cnt]
        omega
      have hStored := h.reach_store.client (if_pos hNotLast)
      exact ⟨_, hStored, rfl, h.firstTime, congrArg (· + 1) h.cnt, h.status, h.nextToWrite,
        h.statusMutex, by simp [Shared.store, h.stored]⟩

/-- The first sector gets all its cells. -/
theorem first_sector (p : Setup) :
    ∃ s, Emulation.Reachable p s ∧ s.shared.stored.length = p.nData := by
  have hPos := p.nData_pos
  obtain ⟨s, h⟩ := counting_cells (p := p) (p.nData - 1) (by omega)
  have hStored := h.reach_store.client (if_neg (not_not_intro h.cnt))
  refine ⟨_, hStored, ?_⟩
  simp only [Shared.store, List.length_append, List.length_singleton, h.stored]
  omega

end FirstSector

/-- The numbers of `client.c` count up exactly as long as no cell was the last one
of its sector. -/
theorem numbers_consecutive_iff (p : Setup) {s : Emulation}
    (hReachable : Emulation.Reachable p s) :
    Consecutive s.shared.numbers ↔ ∀ entry ∈ s.shared.stored, entry.1.index ≠ p.nData - 1 := by
  have h := numbered_of_reachable hReachable
  rw [consecutive_iff]
  constructor
  · rintro hNumbers ⟨a, d⟩ hMem hLast
    obtain ⟨k, hGet⟩ := List.mem_iff_getElem?.mp hMem
    have hLess := (List.getElem?_eq_some_iff.mp hGet).1
    have hNumber := hNumbers k _ (h.getElem?_numbers hLess)
    rw [numberOf, ← h.index k a d hGet, if_pos hLast, BitVec.ofNat_add] at hNumber
    exact absurd hNumber (by simp)
  · intro hInner k v hNumber
    have hLess : k < s.shared.stored.length := by
      have hBound := (List.getElem?_eq_some_iff.mp hNumber).1
      rwa [Shared.numbers, List.length_map] at hBound
    obtain ⟨a, d, hGet⟩ := Shared.exists_stored hLess
    have hNotLast := hInner _ (List.mem_of_getElem? hGet)
    simp only [h.index k a d hGet] at hNotLast
    rw [h.getElem?_numbers hLess, numberOf, if_neg hNotLast] at hNumber
    exact (Option.some.inj hNumber).symm

theorem numbers_consecutive_iff_first :
    ∃ s, Emulation.Reachable oneIstr s ∧ s.shared.numbers.length = 3 ∧
      Consecutive s.shared.numbers := by
  obtain ⟨s, h⟩ := counting_cells (p := oneIstr) 3 (by decide)
  refine ⟨s, h.reachable, (List.length_map _).trans h.stored,
    (numbers_consecutive_iff oneIstr h.reachable).mpr fun ⟨a, d⟩ hMem => ?_⟩
  obtain ⟨k, hGet⟩ := List.mem_iff_getElem?.mp hMem
  have hLess := (List.getElem?_eq_some_iff.mp hGet).1
  rw [h.stored] at hLess
  have hIndex := (numbered_of_reachable h.reachable).index k a d hGet
  simp only [oneIstr] at hIndex ⊢
  omega

/-- The last two cells of the first sector. -/
theorem number_skipped :
    ∃ s, Emulation.Reachable oneIstr s ∧ s.shared.numbers[0x7fffe]? = some 0x7fffe ∧
      s.shared.numbers[0x7ffff]? = some 0x80000 ∧ ¬ Consecutive s.shared.numbers := by
  obtain ⟨s, hReachable, hLength⟩ := first_sector oneIstr
  have h := numbered_of_reachable hReachable
  have hLength' : s.shared.stored.length = 0x80000 := hLength
  have hBefore := h.getElem?_numbers (by omega : 0x7fffe < s.shared.stored.length)
  have hLast := h.getElem?_numbers (by omega : 0x7ffff < s.shared.stored.length)
  refine ⟨s, hReachable, hBefore, hLast, fun hNumbers => ?_⟩
  exact absurd (consecutive_iff.mp hNumbers 0x7ffff _ hLast) (by decide)

end BranchPrediction.SharedMemory
