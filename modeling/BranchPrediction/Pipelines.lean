import BranchPrediction.SharedMemory.Statistics
import BranchPrediction.TraceFile.Programs
import BranchPrediction.Translator.GuestRun

/-! The two ways from the emulated guest to the statistics: through `test.txt`, and
through the shared memory. -/
namespace BranchPrediction

open TraceFile

section Agreement

open SharedMemory

/-- A call of the file helper as a cell of the shared memory. -/
def TraceFile.Triple.cell (t : Triple) : ShmCell := { pc := t.pc, tAddr := t.addr, tNt := t.tNt }

theorem recordsOf_map_cell (p : Setup) (triples : List Triple) :
    recordsOf p (triples.map Triple.cell) = records p.rand triples := by
  apply List.ext_getElem?
  intro i
  rw [recordsOf, records, List.getElem?_mapIdx, List.getElem?_mapIdx, List.getElem?_map]
  cases triples[i]? <;> rfl

/-- The server counts what `predictor.c` counts, if the branches that the server
was asked for are the first ones of the trace and all of them were flushed. -/
theorem pipelines_agree (p : Setup) (s : System) (hReachable : Reachable p s)
    (hDone : s.right.label = .done) (calls : List TraceFile.Call)
    (hOpens : ∀ c ∈ calls, c.fopens = true) (hBlocks : calls.length / 42 < 2 ^ 31 - 1)
    (hSame : s.left.delivered.take p.desiredIstr.toNat =
      ((calls.map Call.args).map Triple.cell).take p.desiredIstr.toNat)
    (hEnough : p.desiredIstr.toNat ≤ 42 * (calls.length / 42)) :
    ∃ helper, runCalls calls = .ok helper ∧ ∀ buffer,
      predictorMain p.desiredIstr p.rand helper.testTxt buffer = some s.right.session := by
  obtain ⟨helper, hRun, hFile⟩ := acquireAll_runCalls hOpens hBlocks
  obtain ⟨g, _, _, hServer⟩ := consistent_of_reachable hReachable
  have hPrefix : s.right.fed <+: s.left.delivered := by
    rw [← delivered_of_reachable hReachable]
    exact hServer.fed
  have hFed : s.right.fed = s.left.delivered.take p.desiredIstr.toNat := by
    rw [← length_fed_at_done hReachable hDone]
    exact List.prefix_iff_eq_take.mp hPrefix
  let triples := calls.map Call.args
  have hRecords : recordsOf p s.right.fed =
      records p.rand (triples.take p.desiredIstr.toNat) := by
    rw [hFed, hSame, ← List.map_take, recordsOf_map_cell]
  have hLimit (n : Nat) (hn : p.desiredIstr.toNat ≤ n) :
      Tage.mainLoop p.desiredIstr Tage.Session.init (records p.rand (triples.take n)) =
        ((records p.rand triples).take p.desiredIstr.toNat).foldl Tage.Session.consume
          Tage.Session.init := by
    have hStart : (p.desiredIstr - (Tage.Session.init.iCount : Nat)).toNat = p.desiredIstr.toNat := by
      simp [Tage.Session.init]
    rw [Tage.mainLoop_eq, hStart, records_take, List.take_take, Nat.min_eq_left hn]
  refine ⟨helper, hRun, fun buffer => ?_⟩
  rw [predictorMain_eq, hFile, hServer.session, hRecords]
  exact congrArg some ((hLimit _ hEnough).trans (hLimit _ (Nat.le_refl _)).symm)

/-- One branch through the shared memory, and a trace of 42 such branches. -/
theorem pipelines_agree_finished :
    ∃ helper, runCalls (List.replicate 42 ⟨⟨4, 8, 1⟩, true⟩) = .ok helper ∧
      predictorMain 1 (fun _ => Tage.leastRand) helper.testTxt (Vector.replicate size 0) =
        some finished.right.session := by
  have hReachable : Reachable oneCell finished := Reachable.play .init (Option.some_get _).symm
  obtain ⟨helper, hRun, hMain⟩ := pipelines_agree oneCell finished hReachable (by decide)
    (List.replicate 42 ⟨⟨4, 8, 1⟩, true⟩) (fun c hc => by rw [List.eq_of_mem_replicate hc])
    (by decide) (by decide) (by decide)
  exact ⟨helper, hRun, hMain _⟩

end Agreement

section Guest

open Translator

/-- A call of `printer` by the translated code, while files can be opened. -/
def Translator.PrinterCall.toFile (c : PrinterCall) : TraceFile.Call :=
  { args := { pc := c.pc, addr := c.addr, tNt := c.tNt }, fopens := true }

/-- From the guest to the statistics: however QEMU cuts the guest code into blocks,
`predictor.c` counts what the predictor gives on the trace that the guest has,
instruction by instruction, up to the last complete block of the file. -/
theorem guest_statistics {q : BlockQemu} {guest : Guest} {start finish cpu : Cpu}
    {printed trace : List PrinterCall} {steps : Nat} (hOthers : OtherInsns q.toQemu guest)
    (run : BlocksRun q guest start finish printed steps)
    (hGuest : guest.run steps start = some (cpu, trace))
    (hBlocks : trace.length / 42 < 2 ^ 31 - 1) :
    ∃ helper, runCalls (printed.map PrinterCall.toFile) = .ok helper ∧ ∀ limit rand buffer,
      predictorMain limit rand helper.testTxt buffer =
        some (Tage.mainLoop limit Tage.Session.init (records rand
          ((trace.take (42 * (trace.length / 42))).map fun c => c.toFile.args))) := by
  obtain ⟨rfl, rfl⟩ := Prod.mk.inj (Option.some.inj (hGuest.symm.trans (run.guest_run hOthers)))
  have hOpens : ∀ c ∈ trace.map PrinterCall.toFile, c.fopens = true := by
    intro c hc
    obtain ⟨d, _, rfl⟩ := List.mem_map.mp hc
    rfl
  obtain ⟨helper, hRun, hFile⟩ := acquireAll_runCalls hOpens (by rwa [List.length_map])
  refine ⟨helper, hRun, fun limit rand buffer => ?_⟩
  rw [predictorMain_eq, hFile, List.length_map, List.map_map, ← List.map_take]
  rfl

/-- A branch to itself. -/
def loopGuest : Guest := { code := fun _ => 0x14000000, other := moveImmediate }

/-- The loop fills the first block. -/
theorem guest_statistics_loop :
    ∃ helper s, runCalls (List.replicate 42 ⟨⟨0x1004, 0x1000, 1⟩, true⟩) = .ok helper ∧
      predictorMain 50 (fun _ => Tage.leastRand) helper.testTxt (Vector.replicate size 0) = some s ∧
        s.iCount = 42 := by
  have hOthers : OtherInsns sampleBlockQemu.toQemu loopGuest := otherInsns_moveImmediate _ _ _
  have hGuest : loopGuest.run 42 sampleStart =
      some (sampleStart, List.replicate 42 ⟨0x1004, 0x1000, 1⟩) := rfl
  obtain ⟨helper, hRun, hMain⟩ :=
    guest_statistics hOthers (BlocksRun.of_guest_run hOthers hGuest) hGuest (by decide)
  exact ⟨helper, _, hRun, hMain 50 (fun _ => Tage.leastRand) _, rfl⟩

end Guest

end BranchPrediction
