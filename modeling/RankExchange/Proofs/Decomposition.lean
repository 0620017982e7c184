import RankExchange.Proofs.LeavingTogether
import RankExchange.Proofs.RingScripts

/-!
# Cutting a ring

Into how many strips a ring of cells is cut makes no difference to its heat: on
any number of ranks, under any schedule and with either delivery, all ranks get
through their runs, and their cells put together are those of a single rank with
the whole ring.
-/

namespace RankExchange

namespace Ring

open Program

/-- What a rank does with the outcome of its work. -/
def finish (endpoint : Endpoint) : Except Fault (Except Breakdown Report) → Program Report
  | .error fault => breakOff endpoint { breakdown := some (.fault fault) }
  | .ok (.error breakdown) => breakOff endpoint { breakdown := some breakdown }
  | .ok (.ok report) => conclude endpoint report

variable {arith : Arithmetic} {ranks rank : Nat}

theorem opens_rankProgram (arith : Arithmetic) (settings : Settings) (ranks rank : Nat) :
    Opens ⟨rank, ranks⟩
      ((simulate arith settings (endpoint ranks rank) ⟨rank, ranks⟩).run.attempt.bind
        (finish (endpoint ranks rank)))
      (rankProgram arith settings) := by
  apply Opens.init
  apply Opens.identify
  apply Opens.log
  apply Opens.ready

theorem gathers_finish (report : Report) :
    (finish (endpoint ranks rank) (.ok (.ok report))).Gathers report := by
  apply Gathers.log
  apply Gathers.barrier
  apply Departs.finalize
  apply Departs.log
  apply Departs.leave
  apply Departs.done

theorem departs_finish (breakdown : Breakdown) :
    (finish (endpoint ranks rank) (.ok (.error breakdown))).Departs
      { breakdown := some breakdown } := by
  apply Departs.log
  apply Departs.finalize
  apply Departs.log
  apply Departs.leave
  apply Departs.done

theorem world_eq_starting (arith : Arithmetic) (settings : Settings) :
    Ring.world arith settings =
      World.starting (group settings.delivery settings.ranks)
        (fun _ => rankProgram arith settings) := by
  unfold Ring.world World.starting
  rw [size_group, List.map_const', List.length_range]
  rfl

theorem granted_group {delivery : Delivery} :
    ∀ grant ∈ (group delivery ranks).members.map Member.grant, grant = .multiple := by
  intro grant hgrant
  obtain ⟨member, hmember, rfl⟩ := List.mem_map.1 hgrant
  obtain ⟨rank, hmember⟩ := List.getElem?_of_mem hmember
  obtain ⟨_, hgranted, rfl⟩ := Group.exists_grant_of_getElem? hmember
  exact List.eq_of_mem_replicate (List.mem_of_getElem? hgranted)

/-- Under every schedule all ranks come to their ends, and none of them breaks
down. -/
structure Completes (world : World Report) : Prop where
  finishes : ∀ last, world.Reaches last → last.Finishes
  unbroken : ∀ last, world.Reaches last → ∀ rank outcome, last.result? rank = some outcome →
    ∃ report, outcome = .ok report ∧ report.breakdown = none

/-- A rank that breaks down in its work breaks the run. -/
theorem not_completes_of_breakdown {settings : Settings} {rank : Nat} {breakdown : Breakdown}
    (hrank : rank < settings.ranks)
    (h : (simulate arith settings (endpoint settings.ranks rank) ⟨rank, settings.ranks⟩).run =
      .done (.ok (.error breakdown))) : ¬ Completes (Ring.world arith settings) := by
  intro hcompletes
  have hopens := opens_rankProgram arith settings settings.ranks rank
  have hactor : (Ring.world arith settings).actors[rank]? =
      some { program := rankProgram arith settings } := by
    unfold Ring.world
    rw [List.getElem?_replicate, if_pos hrank]
  have hmember : (Ring.world arith settings).group.members[rank]? = some {} := by
    change ((List.replicate settings.ranks Threading.multiple).map _)[rank]? = _
    rw [List.getElem?_map, List.getElem?_replicate, if_pos hrank]
    rfl
  have hsize : (Ring.world arith settings).group.size = settings.ranks := size_group
  rw [h, ← hsize] at hopens
  obtain ⟨opened, older, hopened, hactor'⟩ :=
    World.exists_reaches_of_opens hopens hmember rfl rfl hactor
  have hfreed : Actor.Freed opened.group.epoch { breakdown := some breakdown }
      { program := finish (endpoint settings.ranks rank) (.ok (.error breakdown)),
        trail := older } :=
    .departs rfl (departs_finish breakdown)
  obtain ⟨last, hlast, hresult⟩ := World.exists_reaches_of_freed hfreed hactor'
  obtain ⟨report, hreport, hnone⟩ := hcompletes.unbroken last (hopened.trans hlast) rank _ hresult
  cases hreport
  cases hnone

def cells (world : World Report) : List Cell :=
  (world.actors.filterMap (fun actor => actor.result?.bind Except.toOption)).flatMap Report.cells

section Runs

variable (arith : Arithmetic) (settings : Settings) (hpos : 0 < settings.ranks)
  (hwidth : 0 < settings.cells)
  (hroom : Memory.admits (Word.bytes (settings.ranks * settings.cells + 2)) = true)

include hpos hwidth hroom

theorem exists_beforeBarrier : ∃ used cores position, (Ring.world arith settings).BeforeBarrier used
    (fun rank => .ok (reportAt arith settings.ranks settings.cells settings.steps rank))
    (fun rank => finish (endpoint settings.ranks rank))
    (reportAt arith settings.ranks settings.cells settings.steps) cores position := by
  have hbytes : 8 * (settings.ranks * settings.cells + 2) ≤ 0x7fffffffffffffff :=
    Memory.admits_iff.1 hroom
  have hranks : settings.ranks < Word.half := by
    have hle : settings.ranks ≤ settings.ranks * settings.cells :=
      Nat.le_mul_of_pos_right _ hwidth
    unfold Word.half
    omega
  have hopens : ∀ rank, rank < (group settings.delivery settings.ranks).size →
      Opens ⟨rank, (group settings.delivery settings.ranks).size⟩
        ((simulate arith settings (endpoint settings.ranks rank)
          ⟨rank, settings.ranks⟩).run.attempt.bind (finish (endpoint settings.ranks rank)))
        (rankProgram arith settings) := by
    intro rank _
    rw [size_group]
    exact opens_rankProgram arith settings settings.ranks rank
  rw [world_eq_starting]
  refine ⟨_, _, _, World.beforeBarrier_starting
    (inStep_simulate settings hpos hwidth hroom hranks) hopens granted_group rfl ?_⟩
  rw [size_group]
  exact hpos

theorem result_world {last : World Report} (hreaches : (Ring.world arith settings).Reaches last)
    {rank : Nat} {outcome : Except Fault Report} (hresult : last.result? rank = some outcome) :
    outcome = .ok (reportAt arith settings.ranks settings.cells settings.steps rank) := by
  obtain ⟨_, _, _, hbefore⟩ := exists_beforeBarrier arith settings hpos hwidth hroom
  exact hbefore.result (fun _ => gathers_finish _) hreaches hresult

theorem completes_world : Completes (Ring.world arith settings) where
  finishes := by
    intro last hreaches
    obtain ⟨_, _, _, hbefore⟩ := exists_beforeBarrier arith settings hpos hwidth hroom
    exact hbefore.finishes (fun _ => gathers_finish _) hreaches
  unbroken := fun _ hreaches _ _ hresult =>
    ⟨_, result_world arith settings hpos hwidth hroom hreaches hresult, rfl⟩

/-- In the end the reports of all ranks make up the row of the whole ring. -/
theorem cells_of_isDone {last : World Report}
    (hreaches : (Ring.world arith settings).Reaches last) (hdone : last.isDone = true) :
    cells last =
      row arith (settings.ranks * settings.cells) settings.steps 0
        (settings.ranks * settings.cells) := by
  have hlength : last.actors.length = settings.ranks := by
    rw [hreaches.length_actors]
    exact List.length_replicate
  have hresults : last.actors.map Actor.result? = (List.range settings.ranks).map (fun rank =>
      some (.ok (reportAt arith settings.ranks settings.cells settings.steps rank))) := by
    apply List.ext_getElem
    · rw [List.length_map, List.length_map, List.length_range, hlength]
    · intro rank hrank _
      rw [List.length_map] at hrank
      have hended : last.actors[rank].result?.isSome = true :=
        List.all_eq_true.1 hdone _ (List.getElem_mem hrank)
      obtain ⟨outcome, houtcome⟩ := Option.isSome_iff_exists.1 hended
      have hresult : last.result? rank = some outcome := by
        unfold World.result?
        rw [List.getElem?_eq_getElem hrank]
        exact houtcome
      rw [List.getElem_map, houtcome,
        result_world arith settings hpos hwidth hroom hreaches hresult]
      simp
  have hreports : last.actors.filterMap (fun actor => actor.result?.bind Except.toOption) =
      (last.actors.map Actor.result?).filterMap (fun result => result.bind Except.toOption) := by
    rw [List.filterMap_map]
    rfl
  have hkept : ((List.range settings.ranks).map (fun rank =>
      some (.ok (reportAt arith settings.ranks settings.cells settings.steps rank)))).filterMap
        (fun result : Option (Except Fault Report) => result.bind Except.toOption) =
      (List.range settings.ranks).map
        (reportAt arith settings.ranks settings.cells settings.steps) := by
    rw [List.filterMap_map]
    exact congrFun List.filterMap_eq_map _
  unfold cells
  rw [hreports, hresults, hkept, List.flatMap_map, ← flatMap_row]
  rfl

end Runs

/-- A single rank gets through its run exactly if there is room for the whole ring. -/
theorem completes_alone_iff (arith : Arithmetic) {length : Nat} (steps : Nat)
    (delivery : Delivery) (hpos : 0 < length) (hcount : length + 2 < Word.count) :
    Completes (Ring.world arith ⟨1, length, steps, delivery⟩) ↔
      Memory.admits (Word.bytes (length + 2)) = true := by
  constructor
  · intro hcompletes
    apply Classical.byContradiction
    intro hroom
    have hneighbors : neighbors 0 1 = .ok ⟨before 1 0, after 1 0, peers 1 0⟩ :=
      neighbors_eq Nat.one_pos (by decide)
    have hinitial : Strip.initial arith 0 1 length = .error .noRoom :=
      initial_of_noRoom hcount (Bool.eq_false_iff.2 hroom)
    have hrun : (simulate arith ⟨1, length, steps, delivery⟩ (endpoint 1 0) ⟨0, 1⟩).run =
        .done (.ok (.error (.arithmetic .noRoom))) := by
      unfold simulate
      rw [hneighbors, hinitial]
      rfl
    exact not_completes_of_breakdown Nat.one_pos hrun hcompletes
  · intro hroom
    have hroom' : Memory.admits (Word.bytes (1 * length + 2)) = true := by
      rw [Nat.one_mul]
      exact hroom
    exact completes_world arith _ Nat.one_pos hpos hroom'

/-- Into how many strips the ring is cut, and how messages are delivered, makes no
difference to the cells. -/
theorem cells_of_decomposition (arith : Arithmetic) (ranks width steps : Nat)
    (delivery delivery' : Delivery) (hpos : 0 < ranks) (hwidth : 0 < width)
    (hroom : Memory.admits (Word.bytes (ranks * width + 2)) = true) :
    Completes (Ring.world arith ⟨ranks, width, steps, delivery⟩) ∧
      Completes (Ring.world arith ⟨1, ranks * width, steps, delivery'⟩) ∧
      ∀ parts whole,
        (Ring.world arith ⟨ranks, width, steps, delivery⟩).Reaches parts →
        (Ring.world arith ⟨1, ranks * width, steps, delivery'⟩).Reaches whole →
        parts.isDone = true → whole.isDone = true →
        cells parts = cells whole ∧ (cells whole).length = ranks * width := by
  have hlength : 0 < ranks * width := Nat.mul_pos hpos hwidth
  have hone : 1 * (ranks * width) = ranks * width := Nat.one_mul _
  have hroom' : Memory.admits (Word.bytes (1 * (ranks * width) + 2)) = true := by
    rw [hone]
    exact hroom
  refine ⟨completes_world arith _ hpos hwidth hroom,
    completes_world arith _ Nat.one_pos hlength hroom', ?_⟩
  intro parts whole hparts hwhole hdone hdone'
  have hcells : cells parts = row arith (ranks * width) steps 0 (ranks * width) :=
    cells_of_isDone arith _ hpos hwidth hroom hparts hdone
  have hcells' : cells whole = row arith (1 * (ranks * width)) steps 0 (1 * (ranks * width)) :=
    cells_of_isDone arith _ Nat.one_pos hlength hroom' hwhole hdone'
  rw [hcells, hcells', hone]
  refine ⟨rfl, ?_⟩
  rw [row, List.length_map, List.length_range']

/-- Three strips of two cells each, and the ring that they are cut from. -/
theorem cells_of_thirds :
    let parts := (Ring.world .machine ⟨3, 2, 4, .rendezvous⟩).run
    let whole := (Ring.world .machine ⟨1, 6, 4, .buffered⟩).run
    parts.isDone = true ∧ whole.isDone = true ∧ cells parts = cells whole ∧
      (cells whole).length = 6 := by
  obtain ⟨hparts, hwhole, hcells⟩ := cells_of_decomposition .machine 3 2 4 .rendezvous
    .buffered (by decide) (by decide) (by decide)
  have hdone := (hparts.finishes _ (World.reaches_run _)).isDone (World.firstStep_run _)
  have hdone' := (hwhole.finishes _ (World.reaches_run _)).isDone (World.firstStep_run _)
  exact ⟨hdone, hdone', hcells _ _ (World.reaches_run _) (World.reaches_run _) hdone hdone'⟩

/-- That the length of a ring is a word is not enough.  Of 2 ^ 63 ranks the last has
no successor in signed words, and for 2 ^ 60 cells no single rank has room. -/
theorem not_completes_of_longRings :
    (Word.half * 1 + 2 < Word.count ∧
      ¬ Completes (Ring.world .machine ⟨Word.half, 1, 0, .buffered⟩)) ∧
    (1 * 2 ^ 60 + 2 < Word.count ∧
      ¬ Completes (Ring.world .machine ⟨1, 2 ^ 60, 0, .buffered⟩)) := by
  have hlast : (simulate .machine ⟨Word.half, 1, 0, .buffered⟩
      (endpoint Word.half (Word.half - 1)) ⟨Word.half - 1, Word.half⟩).run =
        .done (.ok (.error (.arithmetic .sumOverflow))) := by
    unfold simulate
    rw [neighbors_last]
    rfl
  have hwhole : ¬ Completes (Ring.world .machine ⟨1, 2 ^ 60, 0, .buffered⟩) := by
    rw [completes_alone_iff .machine 0 .buffered (by decide) (by decide)]
    decide
  exact ⟨⟨by decide, not_completes_of_breakdown (by decide) hlast⟩, by decide, hwhole⟩

end Ring

end RankExchange
