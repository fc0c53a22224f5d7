import MsmKernel.Walt.Demand

/-! The sample history of a task as a ring: what is read from the write index backwards is what was
recorded, the latest first; and everything `update_history` stores. -/
namespace MsmKernel.Walt
open List
variable {Cpu : Type} {c : Call} {t : Wts Cpu} {d : TaskDemand}

def latest (hist : Fin 5 → Nat) (cidx : Fin 5) : List Nat :=
  [hist (cidx + 4), hist (cidx + 3), hist (cidx + 2), hist (cidx + 1), hist cidx]

theorem latest_push (hist : Fin 5 → Nat) (cidx : Fin 5) (v : Nat) :
    latest (Function.update hist cidx v) (cidx + 1) = (v :: latest hist cidx).take 5 := by
  have hindex : ∀ i : Fin 5, i + 1 + 4 = i ∧ i + 1 + 3 = i + 4 ∧ i + 1 + 2 = i + 3 ∧
      i + 1 + 1 = i + 2 ∧ i + 4 ≠ i ∧ i + 3 ≠ i ∧ i + 2 ≠ i ∧ i + 1 ≠ i := by decide
  obtain ⟨h4, h3, h2, h1, hne⟩ := hindex cidx
  simp [latest, h4, h3, h2, h1, hne]

theorem mem_latest (hist : Fin 5 → Nat) (cidx i : Fin 5) : hist i ∈ latest hist cidx := by
  have hcover : ∀ i j : Fin 5, i = j + 4 ∨ i = j + 3 ∨ i = j + 2 ∨ i = j + 1 ∨ i = j := by decide
  rcases hcover i cidx with h | h | h | h | h <;> simp [latest, h]

@[simp] theorem length_latest (hist : Fin 5 → Nat) (cidx : Fin 5) : (latest hist cidx).length = 5 :=
  rfl

section Push
variable (runtime runtimeScaled : Nat)

theorem latest_pushHistory (n : Nat) (d : TaskDemand) :
    latest (pushHistory runtime runtimeScaled n d).sumHistory
        (pushHistory runtime runtimeScaled n d).cidx =
      (List.replicate n runtime ++ latest d.sumHistory d.cidx).take 5 ∧
    latest (pushHistory runtime runtimeScaled n d).sumHistoryUtil
        (pushHistory runtime runtimeScaled n d).cidx =
      (List.replicate n runtimeScaled ++ latest d.sumHistoryUtil d.cidx).take 5 := by
  induction n generalizing d with
  | zero => exact ⟨rfl, rfl⟩
  | succ n ih =>
    have hlist : ∀ v (l : List Nat), (List.replicate n v ++ (v :: l).take 5).take 5 =
        (List.replicate (n + 1) v ++ l).take 5 := by
      intro v l
      rw [replicate_succ', append_assoc, singleton_append, take_append, take_append, take_take]
      congr 2
      omega
    obtain ⟨hsum, hutil⟩ := ih { d with
      sumHistory := Function.update d.sumHistory d.cidx runtime
      sumHistoryUtil := Function.update d.sumHistoryUtil d.cidx runtimeScaled
      cidx := d.cidx + 1 }
    simp only [latest_push, hlist] at hsum hutil
    exact ⟨hsum, hutil⟩

theorem pushHistory_all {n : Nat} (hn : 5 ≤ n) (d : TaskDemand) :
    (pushHistory runtime runtimeScaled n d).sumHistory = fun _ => runtime := by
  funext i
  have hmem := mem_latest (pushHistory runtime runtimeScaled n d).sumHistory
    (pushHistory runtime runtimeScaled n d).cidx i
  rw [(latest_pushHistory runtime runtimeScaled n d).1,
    take_append_of_le_length (by rw [length_replicate]; exact hn), take_replicate] at hmem
  exact eq_of_mem_replicate hmem

theorem pushHistory_eq (n : Nat) (d : TaskDemand) :
    ∃ hist util cidx, pushHistory runtime runtimeScaled n d =
      { d with sumHistory := hist, sumHistoryUtil := util, cidx := cidx } := by
  induction n generalizing d with
  | zero => exact ⟨_, _, _, rfl⟩
  | succ n ih =>
    obtain ⟨hist, util, cidx, heq⟩ := ih { d with
      sumHistory := Function.update d.sumHistory d.cidx runtime
      sumHistoryUtil := Function.update d.sumHistoryUtil d.cidx runtimeScaled
      cidx := d.cidx + 1 }
    exact ⟨hist, util, cidx, heq⟩

end Push

section Store

theorem fixupWaltSchedStatsCommon_task (demandScaled pred : Nat) (x : WaltSchedStats × TaskDemand) :
    ∃ giant, (fixupWaltSchedStatsCommon c demandScaled pred x).2 = { x.2 with giant } := by
  unfold fixupWaltSchedStatsCommon fixupNrGiant
  dsimp only
  split_ifs <;> exact ⟨_, rfl⟩

theorem storeDemand_task (newTask : Bool) (runtimeScaled avg : Nat)
    (y : Nat × WaltSchedStats × TaskDemand) :
    ∃ giant, (storeDemand c newTask runtimeScaled avg y).2 =
      { bucketIncrease (busyToBucket runtimeScaled) y.2.2 with
        demand := y.1
        demandScaled := u16 (scaleTimeToUtil c.schedRavgWindow y.1)
        colocDemand := avg
        predDemandScaled := getPredBusy newTask (busyToBucket runtimeScaled) runtimeScaled y.2.2
        giant := giant } := by
  unfold storeDemand predictAndUpdateBuckets
  dsimp only
  split
  · obtain ⟨giant, heq⟩ := fixupWaltSchedStatsCommon_task (c := c)
      (u16 (scaleTimeToUtil c.schedRavgWindow y.1))
      (getPredBusy newTask (busyToBucket runtimeScaled) runtimeScaled y.2.2)
      (y.2.1, bucketIncrease (busyToBucket runtimeScaled) y.2.2)
    exact ⟨giant, by rw [heq]⟩
  · exact ⟨y.2.2.giant, rfl⟩

section
variable (c : Call) (runtime : Nat) (samples : Int)

def recordedHistory (d : TaskDemand) : TaskDemand :=
  pushHistory runtime (u16 (scaleTimeToUtil c.schedRavgWindow runtime)) samples.toNat d

def recordedAvg (d : TaskDemand) : Nat :=
  u32 (historySum (recordedHistory c runtime samples d) / RAVG_HIST_SIZE)

def recordedDemand (d : TaskDemand) : Nat :=
  policyDemand c.statsPolicy runtime (recordedAvg c runtime samples d)
    (recordedHistory c runtime samples d)

end

theorem updateHistory_task {runtime : Nat} {samples : Int} (hruntime : runtime ≠ 0)
    (hidle : t.idle = false) (hsamples : samples ≠ 0) (x : WaltSchedStats × TaskDemand) :
    ∃ demand pred giant trailblazer highUtilHistory,
      (demand = recordedDemand c runtime samples x.2 ∨
        t.grp = true ∧ demand = scaleUtilToTime c.schedRavgWindow 1024) ∧
      (updateHistory c t runtime samples x).2 =
        { bucketIncrease (busyToBucket (u16 (scaleTimeToUtil c.schedRavgWindow runtime)))
            (recordedHistory c runtime samples x.2) with
          sum := 0
          demand := demand
          demandScaled := u16 (scaleTimeToUtil c.schedRavgWindow demand)
          colocDemand := recordedAvg c runtime samples x.2
          predDemandScaled := pred
          giant := giant
          trailblazer := trailblazer
          highUtilHistory := highUtilHistory } := by
  have hactive : ¬ (runtime = 0 ∨ t.idle = true ∨ samples = 0) := by simp [hruntime, hidle, hsamples]
  rw [updateHistory, if_neg hactive]
  split
  · rename_i hgrp
    have hgrp : t.grp = true := by
      rw [Bool.and_eq_true] at hgrp
      exact hgrp.2
    let y := updateTrailblazerAccounting c t.markStart runtime
      (u16 (scaleTimeToUtil c.schedRavgWindow runtime)) (recordedDemand c runtime samples x.2)
      (x.1, { recordedHistory c runtime samples x.2 with sum := 0 })
    obtain ⟨trailblazer, highUtilHistory, htask⟩ : ∃ trailblazer highUtilHistory, y.2.2 =
        { recordedHistory c runtime samples x.2 with
          sum := 0, trailblazer := trailblazer, highUtilHistory := highUtilHistory } := ⟨_, _, rfl⟩
    obtain ⟨giant, heq⟩ := storeDemand_task (c := c) (isNewTask t)
      (u16 (scaleTimeToUtil c.schedRavgWindow runtime)) (recordedAvg c runtime samples x.2) y
    rw [htask] at heq
    refine ⟨y.1, _, giant, trailblazer, highUtilHistory, ?_, heq⟩
    exact (ite_eq_or_eq _ _ _).symm.imp_right fun h => ⟨hgrp, h⟩
  · obtain ⟨giant, heq⟩ := storeDemand_task (c := c) (isNewTask t)
      (u16 (scaleTimeToUtil c.schedRavgWindow runtime)) (recordedAvg c runtime samples x.2)
      (recordedDemand c runtime samples x.2, x.1,
        { recordedHistory c runtime samples x.2 with sum := 0 })
    exact ⟨_, _, giant, _, _, .inl rfl, heq⟩

theorem updateHistory_inactive {runtime : Nat} {samples : Int}
    (h : runtime = 0 ∨ t.idle = true ∨ samples = 0) (x : WaltSchedStats × TaskDemand) :
    updateHistory c t runtime samples x = x := by
  rw [updateHistory, if_pos h]

end Store

def plainTick (wallclock : Nat) : Call where
  taskExecScale := 1024
  loadBoost := false
  boostedTaskLoad := 0
  waitingOnIo := false
  runnable := true
  statsPolicy := .maxRecentAvg
  pipelineInProgress := false
  trailblazerFeature := false
  rqClock := wallclock
  giantCapacity := 1024
  primeCapacity := 1024
  event := .taskUpdate
  wallclock := wallclock
  irqtime := 0
  schedRavgWindow := DEFAULT_SCHED_RAVG_WINDOW
  isCurr := true
  currIsIdle := false
  queued := true
  fair := true

def freshTask : WaltSchedStats × TaskDemand :=
  (⟨0, 0, 0, 0, 0, 0, false⟩, (initNewTaskLoad false : Wts Unit).demand)

end MsmKernel.Walt
