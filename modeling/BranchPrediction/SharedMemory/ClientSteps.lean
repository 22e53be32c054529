import BranchPrediction.SharedMemory.Assertions

/-! Every step of the helper keeps the shared state coherent and its own
assertions true, and does to the server no more than `ClientMoves` says. -/
namespace BranchPrediction.SharedMemory

theorem semWait_eq_some {value rest : Nat} : semWait value = some rest ↔ value = rest + 1 := by
  cases value <;> simp [semWait]

theorem xor_one_mod_two (n : Nat) : (n % 2) ^^^ 1 = (n + 1) % 2 := by
  rcases Nat.mod_two_eq_zero_or_one n with h | h
  · rw [h, Nat.add_mod, h]
    rfl
  · rw [h, Nat.add_mod, h]
    rfl

theorem getElem?_concat_eq_some {α : Type*} {l : List α} {last a : α} {k : Nat}
    (hGet : (l ++ [last])[k]? = some a) : l[k]? = some a ∨ k = l.length ∧ a = last := by
  rcases Nat.lt_trichotomy k l.length with hLess | rfl | hMore
  · rw [List.getElem?_append_left hLess] at hGet
    exact .inl hGet
  · rw [List.getElem?_concat_length] at hGet
    exact .inr ⟨rfl, (Option.some.inj hGet).symm⟩
  · rw [List.getElem?_eq_none (by simp; omega)] at hGet
    simp at hGet

section Status

variable {closed released : Nat}

theorem statusOf_self (released : Nat) : statusOf released released = 0 := if_pos rfl

theorem statusOf_two (released : Nat) : statusOf (released + 2) released = 3 := by
  rw [statusOf, if_neg (by omega), if_pos rfl]

theorem statusOf_one (released : Nat) :
    statusOf (released + 1) released = if released % 2 = 0 then 1 else 2 := by
  rw [statusOf, if_neg (by omega), if_neg (by omega)]

/-- The three states of the memory. -/
theorem statusOf_cases (hLow : released ≤ closed) (hHigh : closed ≤ released + 2) :
    closed = released ∧ statusOf closed released = 0 ∨
      closed = released + 1 ∧ (statusOf closed released = 1 ∨ statusOf closed released = 2) ∨
        closed = released + 2 ∧ statusOf closed released = 3 := by
  have hGap : closed = released ∨ closed = released + 1 ∨ closed = released + 2 := by omega
  rcases hGap with rfl | rfl | rfl
  · exact .inl ⟨rfl, statusOf_self _⟩
  · refine .inr (.inl ⟨rfl, ?_⟩)
    rw [statusOf_one]
    split_ifs
    · exact .inl rfl
    · exact .inr rfl
  · exact .inr (.inr ⟨rfl, statusOf_two _⟩)

end Status

section Addresses

variable {nData : Nat}

theorem addressOf_add {cnt : Nat} (hCnt : cnt < nData) (closed : Nat) :
    addressOf nData (closed * nData + cnt) = ⟨closed % 2, cnt⟩ := by
  have hPos : 0 < nData := by omega
  rw [addressOf, Nat.add_comm, Nat.add_mul_div_right _ _ hPos, Nat.div_eq_of_lt hCnt, Nat.zero_add,
    Nat.add_mul_mod_self_right, Nat.mod_eq_of_lt hCnt]

/-- Two stores less than two sectors apart use different cells. -/
theorem addressOf_ne {j k : Nat} (hBefore : j < k) (hNear : k < j + 2 * nData) :
    addressOf nData j ≠ addressOf nData k := by
  intro hSame
  obtain ⟨hSector, hIndex⟩ := CellAddress.mk.inj hSame
  have hJ := Nat.div_add_mod j nData
  have hK := Nat.div_add_mod k nData
  have hLess : j / nData < k / nData := by
    by_contra hNot
    have hMul := Nat.mul_le_mul_left nData (Nat.not_lt.mp hNot)
    omega
  have hTwo : j / nData + 2 ≤ k / nData := by omega
  have hMul := Nat.mul_le_mul_left nData hTwo
  rw [Nat.mul_add] at hMul
  omega

end Addresses

variable {p : Setup} {g : Ledger} {x : Shared} {args : ShmCell}

namespace Coherent

theorem statusMutex_pos (hx : Coherent p g x) {value : Nat}
    (hWait : semWait x.statusMutex = some value) :
    value = 0 ∧ g.owner = none := by
  have hMutex := hx.mutex
  rw [semWait_eq_some.mp hWait] at hMutex
  split_ifs at hMutex with hOwner
  exact ⟨by omega, hOwner⟩

/-- Taking the mutex. -/
theorem acquire (hx : Coherent p g x) (hOwner : g.owner = none) (side : Side) :
    Coherent p { g with owner := some side } { x with statusMutex := 0 } :=
  { hx with
    mutex := rfl
    clientPosted := fun _ => hx.clientPosted (by simp [hOwner])
    serverPosted := fun _ => hx.serverPosted (by simp [hOwner]) }

/-- Giving it back, with all posts made. -/
theorem release (hx : Coherent p g x) {side : Side} (hOwner : g.owner = some side)
    (hClient : g.closed = g.clientPosts) (hServer : g.released = g.serverPosts) :
    Coherent p { g with owner := none } { x with statusMutex := x.statusMutex + 1 } :=
  { hx with
    mutex := by
      have hMutex := hx.mutex
      rw [hOwner, if_neg (by simp)] at hMutex
      simp [hMutex]
    clientPosted := fun _ => hClient
    serverPosted := fun _ => hServer }

/-- A store by a client that has room overwrites a cell that was released. -/
theorem store (hx : Coherent p g x) {cnt : Nat} (hCnt : cnt < p.nData)
    (hStored : x.stored.length = g.closed * p.nData + cnt) (hRoom : g.closed ≤ g.released + 1)
    (c : ShmCell) : Coherent p g (x.store (g.closed % 2) cnt c) := by
  have hHere : addressOf p.nData x.stored.length = ⟨g.closed % 2, cnt⟩ := by
    rw [hStored, addressOf_add hCnt]
  have hSplit (k : Nat) (a : CellAddress) (d : ShmCell)
      (hGet : (x.store (g.closed % 2) cnt c).stored[k]? = some (a, d)) :
      (k < x.stored.length ∧ x.stored[k]? = some (a, d)) ∨
        (k = x.stored.length ∧ a = ⟨g.closed % 2, cnt⟩ ∧ d = c) := by
    obtain hOld | ⟨hLast, hNew⟩ := getElem?_concat_eq_some hGet
    · exact .inl ⟨(List.getElem?_eq_some_iff.mp hOld).1, hOld⟩
    · exact .inr ⟨hLast, Prod.mk.inj hNew⟩
  refine { hx with closed_stored := ?_, address := fun k a d hGet => ?_, contents := fun k a d hGet
    hLive => ?_ }
  · have hOld := hx.closed_stored
    simp only [Shared.store, List.length_append]
    omega
  · obtain ⟨_, hOld⟩ | ⟨rfl, rfl, _⟩ := hSplit k a d hGet
    · exact hx.address k a d hOld
    · exact hHere.symm
  · obtain ⟨hLess, hOld⟩ | ⟨_, rfl, rfl⟩ := hSplit k a d hGet
    · have hMul := Nat.mul_le_mul_right p.nData hRoom
      rw [Nat.add_mul, Nat.one_mul] at hMul
      have hOther : a ≠ ⟨g.closed % 2, cnt⟩ := by
        rw [hx.address k a d hOld, ← hHere]
        exact addressOf_ne hLess (by omega)
      have hKept := hx.contents k a d hOld hLive
      simp only [Shared.store]
      by_cases hSector : a.sector = g.closed % 2
      · have hIndex : a.index ≠ cnt := fun hIndex => hOther (by rw [← hSector, ← hIndex])
        rw [hSector, Function.update_self, Function.update_of_ne hIndex, ← hSector, hKept]
      · rw [Function.update_of_ne hSector, hKept]
    · simp only [Shared.store, Function.update_self]

end Coherent

namespace PrinterAt

variable {c : Printer}

/-- The state that a step of the client leaves. -/
def Leads (p : Setup) (g : Ledger) (x x' : Shared) (c' : Printer) : Prop :=
  ∃ g', Coherent p g' x' ∧ PrinterAt p g' x' c' ∧ ClientMoves g x g' x'

theorem firstTime_eq_false (h : PrinterAt p g x c) (hLabel : c.label ≠ .idle) :
    c.firstTime = false :=
  Bool.eq_false_iff.mpr fun hFirst => hLabel (h.first hFirst).1

/-- The assertions at a known label. -/
theorem facts (h : PrinterAt p g x c) {label : PrinterLabel} (hLabel : c.label = label) :
    (label.holds = true ↔ g.owner = some .client) ∧
      x.nextToWrite = (g.closed + label.toggling.toNat) % 2 ∧
        g.closed = g.clientPosts + label.unposted.toNat ∧
          x.stored.length = (g.closed + label.closing.toNat) * p.nData + c.cnt ∧
            label.Carries g x := by
  subst label
  exact ⟨h.holds, h.nextToWrite, h.posts, h.stored, h.carries⟩

/-- A new label that makes the same promises, with another value and owner of the
mutex. -/
theorem relabel (h : PrinterAt p g x c) (value : Nat) (owner : Option Side) {c' : Printer}
    (hHolds : c'.label.holds = true ↔ owner = some .client) (hCnt : c'.cnt = c.cnt)
    (hFlags : c'.label.flags = c.label.flags)
    (hRoom : c'.HasRoom → g.closed ≤ g.released + 1)
    (hFull : c'.SawFull → x.serverRead = 0 → g.closed = g.serverPosts + 2)
    (hFirst : c'.firstTime = false)
    (hCarries : c'.label.Carries { g with owner := owner } { x with statusMutex := value }) :
    PrinterAt p { g with owner := owner } { x with statusMutex := value } c' where
  holds := hHolds
  nextToWrite := by rw [(Prod.mk.inj hFlags).1]; exact h.nextToWrite
  posts := by rw [(Prod.mk.inj (Prod.mk.inj hFlags).2).1]; exact h.posts
  room := hRoom
  full := hFull
  cnt_lt := by rw [hCnt]; exact h.cnt_lt
  stored := by rw [(Prod.mk.inj (Prod.mk.inj hFlags).2).2, hCnt]; exact h.stored
  first := fun h => by simp [hFirst] at h
  carries := hCarries

theorem leads_refl (hx : Coherent p g x) {c' : Printer} (h : PrinterAt p g x c') :
    Leads p g x x c' :=
  ⟨g, hx, h, ClientMoves.refl g x⟩

theorem leads_lock (hx : Coherent p g x) {value : Nat} (hWait : semWait x.statusMutex = some value)
    {c' : Printer}
    (h : PrinterAt p { g with owner := some .client } { x with statusMutex := 0 } c') :
    Leads p g x { x with statusMutex := value } c' := by
  obtain ⟨rfl, hOwner⟩ := hx.statusMutex_pos hWait
  refine ⟨_, hx.acquire hOwner .client, h, { ClientMoves.refl g x with owner := ?_, locked := ?_ }⟩
  · simp [hOwner]
  · simp [hOwner]

theorem leads_unlock (hx : Coherent p g x) (hOwner : g.owner = some .client) {c' : Printer}
    (hUnposted : c'.label.unposted = false)
    (h : PrinterAt p { g with owner := none } { x with statusMutex := x.statusMutex + 1 } c') :
    Leads p g x { x with statusMutex := x.statusMutex + 1 } c' := by
  have hClient : g.closed = g.clientPosts := by
    have hPosts := h.posts
    rwa [hUnposted, Bool.toNat_false, Nat.add_zero] at hPosts
  have hServer := hx.serverPosted (by simp [hOwner])
  refine ⟨_, hx.release hOwner hClient hServer, h,
    { ClientMoves.refl g x with owner := ?_, locked := ?_ }⟩
  · simp [hOwner]
  · simp [hOwner]

/-- Taking a token of `serverRead_sem` ends a call. -/
theorem leads_wait (hx : Coherent p g x) (h : PrinterAt p g x c)
    (hLabel : c.label = .connect ∨ c.label = .full) (value : Nat) (first : Bool) :
    Leads p g x { x with serverRead := value } (c.finish { x with serverRead := value } first) := by
  refine ⟨g, { hx with }, ?_, { ClientMoves.refl g x with }⟩
  obtain hOld | hOld := hLabel
  all_goals
    obtain ⟨hHolds, hNextToWrite, hPosts, hStored, _⟩ := h.facts hOld
    have hFirst := h.firstTime_eq_false (by simp [hOld])
    exact
      { holds := hHolds
        nextToWrite := hNextToWrite
        posts := hPosts
        room := fun hRoom => hRoom.elim
        full := fun hFull => hFull.elim
        cnt_lt := h.cnt_lt
        stored := hStored
        first := fun h => by simp [Printer.finish, hFirst] at h
        carries := trivial }

/-- The store of a cell, which ends the call or begins to close the sector. -/
theorem leads_store (hx : Coherent p g x) (h : PrinterAt p g x c) {sector : Nat}
    (hLabel : c.label = .store sector) {c' : Printer}
    (hNext : c.cnt ≠ p.nData - 1 ∧ c'.label = .idle ∧ c'.cnt = c.cnt + 1 ∨
      c.cnt = p.nData - 1 ∧ c'.label = .closeLock ∧ c'.cnt = 0)
    (hFirst : c'.firstTime = false) : Leads p g x (x.store sector c.cnt c.args) c' := by
  obtain ⟨hHolds, hNextToWrite, hPosts, hStored, hSector⟩ := h.facts hLabel
  have hRoom := h.room (by simp [Printer.HasRoom, hLabel])
  have hCnt := h.cnt_lt
  obtain rfl : sector = g.closed % 2 := hSector
  have hLength : x.stored.length = g.closed * p.nData + c.cnt := hStored
  refine ⟨g, hx.store hCnt hLength hRoom c.args, ?_,
    { ClientMoves.refl g x with stored := List.prefix_append _ _ }⟩
  obtain ⟨hLast, hNew, hCnt'⟩ | ⟨hLast, hNew, hCnt'⟩ := hNext
  · exact
      { holds := by rw [hNew]; exact hHolds
        nextToWrite := by rw [hNew]; exact hNextToWrite
        posts := by rw [hNew]; exact hPosts
        room := by simp [Printer.HasRoom, hNew]
        full := by simp [Printer.SawFull, hNew]
        cnt_lt := by omega
        stored := by
          simp only [Shared.store, List.length_append, List.length_singleton, hLength, hNew, hCnt',
            PrinterLabel.closing, Bool.toNat_false, Nat.add_zero]
          omega
        first := fun h => by simp [hFirst] at h
        carries := by rw [hNew]; trivial }
  · exact
      { holds := by rw [hNew]; exact hHolds
        nextToWrite := by rw [hNew]; exact hNextToWrite
        posts := by rw [hNew]; exact hPosts
        room := fun _ => hRoom
        full := by simp [Printer.SawFull, hNew]
        cnt_lt := by omega
        stored := by
          simp only [Shared.store, List.length_append, List.length_singleton, hLength, hNew, hCnt',
            PrinterLabel.closing, Bool.toNat_true, Nat.add_mul, Nat.one_mul]
          omega
        first := fun h => by simp [hFirst] at h
        carries := by rw [hNew]; trivial }

/-- The write of `status` closes a sector. -/
theorem leads_closeStatus (hx : Coherent p g x) (h : PrinterAt p g x c) {newStatus : Nat}
    (hLabel : c.label = .closeStatus newStatus) :
    Leads p g x { x with status := newStatus } { c with label := .closeToggle } := by
  obtain ⟨hHolds, hNextToWrite, hPosts, hStored, hStatus⟩ := h.facts hLabel
  have hRoom := h.room (by simp [Printer.HasRoom, hLabel])
  have hFirst := h.firstTime_eq_false (by simp [hLabel])
  have hCnt := h.cnt_lt
  have hReleased := hx.released_le
  obtain rfl : newStatus = statusOf (g.closed + 1) g.released := hStatus
  have hLength : x.stored.length = (g.closed + 1) * p.nData + c.cnt := hStored
  have hOwner : g.owner = some .client := hHolds.mp rfl
  refine ⟨{ g with closed := g.closed + 1 },
    { hx with
      released_le := by simp only; omega
      closed_le := by simp only; omega
      status := rfl
      clientPosted := fun hNot => absurd hOwner hNot
      closed_stored := by simp only; omega }, ?_,
    { ClientMoves.refl g x with
      closed := Nat.le_succ _
      locked := by simp [hOwner] }⟩
  exact
    { holds := hHolds
      nextToWrite := by
        have hOld : x.nextToWrite = g.closed % 2 := hNextToWrite
        simp only [PrinterLabel.toggling, Bool.toNat_true]
        omega
      posts := by
        have hOld : g.closed = g.clientPosts := hPosts
        simp only [PrinterLabel.unposted, Bool.toNat_true]
        omega
      room := fun hRoom => hRoom.elim
      full := fun hFull => hFull.elim
      cnt_lt := hCnt
      stored := hLength
      first := fun h => by simp [hFirst] at h
      carries := trivial }

theorem leads_closeToggleWrite (hx : Coherent p g x) (h : PrinterAt p g x c) {side : Nat}
    (hLabel : c.label = .closeToggleWrite side) :
    Leads p g x { x with nextToWrite := side ^^^ 1 } { c with label := .closePost } := by
  obtain ⟨hHolds, hNextToWrite, hPosts, hStored, hSide⟩ := h.facts hLabel
  have hFirst := h.firstTime_eq_false (by simp [hLabel])
  obtain rfl : side = x.nextToWrite := hSide
  refine ⟨g, { hx with }, ?_, { ClientMoves.refl g x with }⟩
  exact
    { holds := hHolds
      nextToWrite := by
        have hOld : x.nextToWrite = (g.closed + 1) % 2 := hNextToWrite
        simp only [hOld, xor_one_mod_two, PrinterLabel.toggling, Bool.toNat_false]
        omega
      posts := hPosts
      room := fun hRoom => hRoom.elim
      full := fun hFull => hFull.elim
      cnt_lt := h.cnt_lt
      stored := hStored
      first := fun h => by simp [hFirst] at h
      carries := trivial }

theorem leads_closePost (hx : Coherent p g x) (h : PrinterAt p g x c)
    (hLabel : c.label = .closePost) :
    Leads p g x { x with clientWrote := x.clientWrote + 1 } { c with label := .closeUnlock } := by
  obtain ⟨hHolds, hNextToWrite, hPosts, hStored, _⟩ := h.facts hLabel
  have hFirst := h.firstTime_eq_false (by simp [hLabel])
  have hOwner : g.owner = some .client := hHolds.mp rfl
  refine ⟨{ g with clientPosts := g.clientPosts + 1 },
    { hx with clientPosted := fun hNot => absurd hOwner hNot }, ?_,
    { ClientMoves.refl g x with wakes := by simp }⟩
  exact
    { holds := hHolds
      nextToWrite := hNextToWrite
      posts := hPosts
      room := fun hRoom => hRoom.elim
      full := fun hFull => hFull.elim
      cnt_lt := h.cnt_lt
      stored := hStored
      first := fun h => by simp [hFirst] at h
      carries := trivial }

/-- A step that reads the shared state and changes none of it. -/
theorem leads_local (hx : Coherent p g x) (h : PrinterAt p g x c) {c' : Printer}
    (hCnt : c'.cnt = c.cnt) (hHolds : c'.label.holds = c.label.holds)
    (hFlags : c'.label.flags = c.label.flags)
    (hRoom : c'.HasRoom → g.closed ≤ g.released + 1)
    (hFull : c'.SawFull → x.serverRead = 0 → g.closed = g.serverPosts + 2)
    (hFirst : c'.firstTime = false) (hCarries : c'.label.Carries g x) : Leads p g x x c' :=
  leads_refl hx (h.relabel x.statusMutex g.owner (by rw [hHolds, h.holds]) hCnt hFlags hRoom
    hFull hFirst hCarries)

/-- What the read of `status` tells the client: the server, which does not own the
mutex, has posted for every sector that it released. -/
theorem leads_check (hx : Coherent p g x) (h : PrinterAt p g x c) (hLabel : c.label = .check) :
    Leads p g x x { c with label := .unlock, currStatus := x.status } := by
  have hOwner : g.owner = some .client := h.holds.mp (by rw [hLabel]; rfl)
  have hServer := hx.serverPosted (by simp [hOwner])
  have hStatus := hx.status
  obtain ⟨hSame, hZero⟩ | ⟨hOne, hEither⟩ | ⟨hTwo, hThree⟩ :=
    statusOf_cases hx.released_le hx.closed_le
  all_goals
    refine h.leads_local hx rfl (by rw [hLabel]; rfl) (by rw [hLabel]; rfl) ?_ ?_
      (h.firstTime_eq_false (by simp [hLabel])) trivial
  all_goals
    simp only [Printer.HasRoom, Printer.SawFull, hStatus]
    omega

/-- The case of the switch that fits the status; the default is not taken. -/
theorem leads_closeSwitch (hx : Coherent p g x) (h : PrinterAt p g x c)
    (hLabel : c.label = .closeSwitch) {c' : Printer} (hStep : c.step p args x = some (x, c')) :
    Leads p g x x c' := by
  have hRoom := h.room (by simp [Printer.HasRoom, hLabel])
  have hFirst := h.firstTime_eq_false (by simp [hLabel])
  have hStatus := hx.status
  obtain ⟨hSame, hZero⟩ | ⟨hOne, hEither⟩ | ⟨hTwo, _⟩ :=
    statusOf_cases hx.released_le hx.closed_le
  · simp only [Printer.step, hLabel, hStatus, hZero, Option.some.injEq, Prod.mk.injEq,
      true_and] at hStep
    subst c'
    exact h.leads_local hx rfl (by rw [hLabel]; rfl) (by rw [hLabel]; rfl) (fun _ => hRoom)
      (fun hFull => hFull.elim) hFirst hSame
  · have hThree : 3 = statusOf (g.closed + 1) g.released := by
      rw [hOne, statusOf_two]
    have hNext : c' = { c with label := .closeStatus 3 } := by
      rcases hEither with hCase | hCase <;>
        simp only [Printer.step, hLabel, hStatus, hCase, Option.some.injEq, Prod.mk.injEq,
          true_and] at hStep <;>
        exact hStep.symm
    subst c'
    exact h.leads_local hx rfl (by rw [hLabel]; rfl) (by rw [hLabel]; rfl) (fun _ => hRoom)
      (fun hFull => hFull.elim) hFirst hThree
  · omega

/-- In case 0 the sector that was just closed is the one before `nextToWrite`
moves on. -/
theorem leads_closeSide (hx : Coherent p g x) (h : PrinterAt p g x c)
    (hLabel : c.label = .closeSide) :
    Leads p g x x { c with label := .closeStatus (if x.nextToWrite = 0 then 1 else 2) } := by
  obtain ⟨_, hNextToWrite, _, _, hSame⟩ := h.facts hLabel
  have hClosed : g.closed = g.released := hSame
  have hSide : x.nextToWrite = g.released % 2 := by
    rw [hNextToWrite, hClosed]
    rfl
  have hNew : (if x.nextToWrite = 0 then 1 else 2) = statusOf (g.closed + 1) g.released := by
    rw [hClosed, statusOf_one, hSide]
  exact h.leads_local hx rfl (by rw [hLabel]; rfl) (by rw [hLabel]; rfl)
    (fun _ => h.room (by simp [Printer.HasRoom, hLabel])) (fun hFull => hFull.elim)
    (h.firstTime_eq_false (by simp [hLabel])) hNew

/-- Every step of the client. -/
theorem step (hx : Coherent p g x) (h : PrinterAt p g x c) {x' : Shared} {c' : Printer}
    (hStep : c.step p args x = some (x', c')) : Leads p g x x' c' := by
  have hRoom := h.room
  have hFull := h.full
  have hNotFirst : c.label ≠ .idle → c.firstTime = false := h.firstTime_eq_false
  cases hLabel : c.label with
  | idle =>
      simp only [Printer.step, hLabel, Option.some.injEq, Prod.mk.injEq] at hStep
      obtain ⟨rfl, rfl⟩ := hStep
      cases hFirst : c.firstTime with
      | true =>
          exact h.leads_local hx rfl (by rw [hLabel]; rfl) (by rw [hLabel]; rfl)
            (fun hRoom => hRoom.elim) (fun hFull => hFull.elim) rfl (h.first hFirst).2
      | false =>
          exact h.leads_local hx rfl (by rw [hLabel]; rfl) (by rw [hLabel]; rfl)
            (fun hRoom => hRoom.elim) (fun hFull => hFull.elim) rfl trivial
  | connect =>
      simp only [Printer.step, hLabel, Option.bind_eq_bind, Option.bind_eq_some_iff,
        Option.some.injEq, Prod.mk.injEq] at hStep
      obtain ⟨value, _, rfl, rfl⟩ := hStep
      exact h.leads_wait hx (.inl hLabel) value true
  | lock =>
      simp only [Printer.step, hLabel, Option.bind_eq_bind, Option.bind_eq_some_iff,
        Option.some.injEq, Prod.mk.injEq] at hStep
      obtain ⟨value, hWait, rfl, rfl⟩ := hStep
      exact leads_lock hx hWait (h.relabel 0 _ (by simp [PrinterLabel.holds]) rfl
        (by rw [hLabel]; rfl) (fun hRoom => hRoom.elim)
        (fun hFull => hFull.elim) (hNotFirst (by simp [hLabel])) trivial)
  | check =>
      simp only [Printer.step, hLabel, Option.some.injEq, Prod.mk.injEq] at hStep
      obtain ⟨rfl, rfl⟩ := hStep
      exact h.leads_check hx hLabel
  | unlock =>
      simp only [Printer.step, hLabel, Option.some.injEq, Prod.mk.injEq] at hStep
      obtain ⟨rfl, rfl⟩ := hStep
      have hOwner : g.owner = some .client := h.holds.mp (by rw [hLabel]; rfl)
      simp only [Printer.HasRoom, Printer.SawFull, hLabel] at hRoom hFull
      by_cases hThree : c.currStatus = 3
      · rw [if_neg (not_not_intro hThree)]
        exact leads_unlock hx hOwner rfl (h.relabel _ none (by simp [PrinterLabel.holds]) rfl
          (by rw [hLabel]; rfl)
          (fun hRoom => hRoom.elim) (fun _ => hFull hThree) (hNotFirst (by simp [hLabel])) trivial)
      · rw [if_pos hThree]
        exact leads_unlock hx hOwner rfl (h.relabel _ none (by simp [PrinterLabel.holds]) rfl
          (by rw [hLabel]; rfl)
          (fun _ => hRoom hThree) (fun hFull => hFull.elim) (hNotFirst (by simp [hLabel])) trivial)
  | pick =>
      simp only [Printer.step, hLabel, Option.some.injEq, Prod.mk.injEq] at hStep
      obtain ⟨rfl, rfl⟩ := hStep
      have hSector : (if x.nextToWrite = 0 then 0 else 1) = g.closed % 2 := by
        have hNextToWrite := h.nextToWrite
        rw [hLabel] at hNextToWrite
        simp only [PrinterLabel.toggling, Bool.toNat_false] at hNextToWrite
        split_ifs <;> omega
      simp only [Printer.HasRoom, hLabel] at hRoom
      exact h.leads_local hx rfl (by rw [hLabel]; rfl) (by rw [hLabel]; rfl) hRoom
        (fun hFull => hFull.elim) (hNotFirst (by simp [hLabel])) hSector
  | store sector =>
      simp only [Printer.step, hLabel] at hStep
      by_cases hLast : c.cnt = p.nData - 1
      · rw [if_neg (not_not_intro hLast), Option.some.injEq, Prod.mk.injEq] at hStep
        obtain ⟨rfl, rfl⟩ := hStep
        exact h.leads_store hx hLabel (.inr ⟨hLast, rfl, rfl⟩) (hNotFirst (by simp [hLabel]))
      · rw [if_pos hLast, Option.some.injEq, Prod.mk.injEq] at hStep
        obtain ⟨rfl, rfl⟩ := hStep
        exact h.leads_store hx hLabel (.inl ⟨hLast, rfl, rfl⟩) (hNotFirst (by simp [hLabel]))
  | closeLock =>
      simp only [Printer.step, hLabel, Option.bind_eq_bind, Option.bind_eq_some_iff,
        Option.some.injEq, Prod.mk.injEq] at hStep
      obtain ⟨value, hWait, rfl, rfl⟩ := hStep
      simp only [Printer.HasRoom, hLabel] at hRoom
      exact leads_lock hx hWait (h.relabel 0 _ (by simp [PrinterLabel.holds]) rfl
        (by rw [hLabel]; rfl) hRoom
        (fun hFull => hFull.elim) (hNotFirst (by simp [hLabel])) trivial)
  | closeSwitch =>
      have hSame : x' = x := by
        simp only [Printer.step, hLabel] at hStep
        split at hStep <;>
          · simp only [Option.some.injEq, Prod.mk.injEq] at hStep
            exact hStep.1.symm
      subst x'
      exact h.leads_closeSwitch hx hLabel hStep
  | closeSide =>
      simp only [Printer.step, hLabel, Option.some.injEq, Prod.mk.injEq] at hStep
      obtain ⟨rfl, rfl⟩ := hStep
      exact h.leads_closeSide hx hLabel
  | closeStatus newStatus =>
      simp only [Printer.step, hLabel, Option.some.injEq, Prod.mk.injEq] at hStep
      obtain ⟨rfl, rfl⟩ := hStep
      exact h.leads_closeStatus hx hLabel
  | closeToggle =>
      simp only [Printer.step, hLabel, Option.some.injEq, Prod.mk.injEq] at hStep
      obtain ⟨rfl, rfl⟩ := hStep
      exact h.leads_local hx rfl (by rw [hLabel]; rfl) (by rw [hLabel]; rfl)
        (fun hRoom => hRoom.elim) (fun hFull => hFull.elim) (hNotFirst (by simp [hLabel])) rfl
  | closeToggleWrite side =>
      simp only [Printer.step, hLabel, Option.some.injEq, Prod.mk.injEq] at hStep
      obtain ⟨rfl, rfl⟩ := hStep
      exact h.leads_closeToggleWrite hx hLabel
  | closePost =>
      simp only [Printer.step, hLabel, Option.some.injEq, Prod.mk.injEq] at hStep
      obtain ⟨rfl, rfl⟩ := hStep
      exact h.leads_closePost hx hLabel
  | closeUnlock =>
      simp only [Printer.step, hLabel, Option.some.injEq, Prod.mk.injEq] at hStep
      obtain ⟨rfl, rfl⟩ := hStep
      have hOwner : g.owner = some .client := h.holds.mp (by rw [hLabel]; rfl)
      exact leads_unlock hx hOwner rfl
        (h.relabel _ none (by simp [Printer.finish, PrinterLabel.holds])
        rfl (by rw [hLabel]; rfl)
        (fun hRoom => hRoom.elim) (fun hFull => hFull.elim) (hNotFirst (by simp [hLabel])) trivial)
  | full =>
      simp only [Printer.step, hLabel, Option.bind_eq_bind, Option.bind_eq_some_iff,
        Option.some.injEq, Prod.mk.injEq] at hStep
      obtain ⟨value, _, rfl, rfl⟩ := hStep
      exact h.leads_wait hx (.inr hLabel) value false
  | exited => simp [Printer.step, hLabel] at hStep

end PrinterAt

end BranchPrediction.SharedMemory
