import MsmKernel.Walt.History

/-! The predicted demand. `get_pred_busy` is to use the latest sample of the bucket; it uses the one
that stands first in the array. -/
namespace MsmKernel.Walt
open List Option
variable {Cpu : Type} {d : TaskDemand} {x : WaltSchedStats × TaskDemand}

structure HistoryCall (Cpu : Type) where
  call : Call
  task : Wts Cpu
  runtime : Nat
  samples : Int

def HistoryCall.update (h : HistoryCall Cpu) (x : WaltSchedStats × TaskDemand) :
    WaltSchedStats × TaskDemand := updateHistory h.call h.task h.runtime h.samples x

def HistoryCall.recorded (h : HistoryCall Cpu) : List Nat :=
  if h.runtime = 0 ∨ h.task.idle ∨ h.samples = 0 then []
  else List.replicate h.samples.toNat (u16 (scaleTimeToUtil h.call.schedRavgWindow h.runtime))

def historyRun (x : WaltSchedStats × TaskDemand) : List (HistoryCall Cpu) → WaltSchedStats × TaskDemand
  | [] => x
  | h :: hs => historyRun (h.update x) hs

def recordedSamples (old : List Nat) : List (HistoryCall Cpu) → List Nat
  | [] => old
  | h :: hs => recordedSamples (h.recorded ++ old) hs

def lowestBucket (counts : Fin 16 → Nat) (start : Nat) : Option (Fin 16) :=
  (List.finRange 16).find? fun i => start ≤ i.val ∧ counts i ≠ 0

def bucketMin (i : Fin 16) : Nat := if i.val < 2 then 0 else i.val * 64

def bucketMax (i : Fin 16) : Nat := (if i.val < 2 then 1 else i.val) * 64 + 64

def inBucket (i : Fin 16) (sample : Nat) : Bool := bucketMin i ≤ sample ∧ sample < bucketMax i

/-- What the prediction is to be, from the counts of the buckets and the samples, the latest first. -/
def predictedBusy (newTask : Bool) (counts : Fin 16 → Nat) (samples : List Nat) (runtimeScaled : Nat) :
    Nat :=
  if newTask then runtimeScaled
  else
    match lowestBucket counts (busyToBucket runtimeScaled) with
    | none => runtimeScaled
    | some i =>
      match samples.find? (inBucket i) with
      | some sample => max runtimeScaled sample
      | none => if runtimeScaled < bucketMin i then (bucketMin i + bucketMax i) / 2 else runtimeScaled

/-- In the bucket of the prediction the first sample of the array is the latest one, or neither is above
the runtime. -/
def FirstIsLatest (newTask : Bool) (d : TaskDemand) (runtimeScaled : Nat) : Prop :=
  newTask = false → ∀ i, lowestBucket d.busyBuckets (busyToBucket runtimeScaled) = some i →
    ∀ first last, (List.ofFn d.sumHistoryUtil).find? (inBucket i) = some first →
      (latest d.sumHistoryUtil d.cidx).find? (inBucket i) = some last →
      first = last ∨ first ≤ runtimeScaled ∧ last ≤ runtimeScaled

def MaskOk (d : TaskDemand) : Prop := ∀ i, d.bucketBitmask i = true ↔ d.busyBuckets i ≠ 0

theorem maskOk_bucketIncrease (h : MaskOk d) (idx : Nat) : MaskOk (bucketIncrease idx d) := by
  intro i
  have hi := h i
  simp only [bucketIncrease]
  split_ifs with hidx hcount
  · rw [hi]
    omega
  · simp
  all_goals simp [U8_MAX]

theorem maskOk_pushHistory (h : MaskOk d) (runtime runtimeScaled n : Nat) :
    MaskOk (pushHistory runtime runtimeScaled n d) := by
  obtain ⟨hist, util, cidx, heq⟩ := pushHistory_eq runtime runtimeScaled n d
  rw [heq]
  exact h

theorem recorded_update (h : HistoryCall Cpu) (x : WaltSchedStats × TaskDemand) :
    (MaskOk x.2 → MaskOk (h.update x).2) ∧
      latest (h.update x).2.sumHistoryUtil (h.update x).2.cidx =
        (h.recorded ++ latest x.2.sumHistoryUtil x.2.cidx).take 5 := by
  unfold HistoryCall.update HistoryCall.recorded
  split
  · rename_i hinactive
    rw [updateHistory_inactive hinactive]
    exact ⟨id, rfl⟩
  · rename_i hactive
    simp only [not_or, Bool.not_eq_true] at hactive
    obtain ⟨demand, pred, giant, trailblazer, highUtilHistory, -, heq⟩ :=
      updateHistory_task (c := h.call) hactive.1 hactive.2.1 hactive.2.2 x
    rw [heq]
    refine ⟨fun hmask => ?_, ?_⟩
    · exact maskOk_bucketIncrease (maskOk_pushHistory hmask _ _ _) _
    · exact (latest_pushHistory _ _ _ x.2).2

theorem historyRun_spec (hs : List (HistoryCall Cpu)) (hmask : MaskOk x.2) {old : List Nat}
    (hold : latest x.2.sumHistoryUtil x.2.cidx = old.take 5) : MaskOk (historyRun x hs).2 ∧
      latest (historyRun x hs).2.sumHistoryUtil (historyRun x hs).2.cidx =
        (recordedSamples old hs).take 5 := by
  induction hs generalizing x old with
  | nil => exact ⟨hmask, hold⟩
  | cons h hs ih =>
    obtain ⟨hmask', hlatest⟩ := recorded_update h x
    refine ih (hmask' hmask) ?_
    rw [hlatest, hold, take_append, take_append, take_take]
    congr 2
    omega

theorem getPredBusy_eq (hmask : MaskOk d) (newTask : Bool) (runtimeScaled : Nat) :
    getPredBusy newTask (busyToBucket runtimeScaled) runtimeScaled d =
      predictedBusy newTask d.busyBuckets (List.ofFn d.sumHistoryUtil) runtimeScaled := by
  have hbucket : ((List.finRange 16).find? fun i =>
      busyToBucket runtimeScaled ≤ i.val ∧ d.bucketBitmask i = true) =
      lowestBucket d.busyBuckets (busyToBucket runtimeScaled) := by
    simp only [lowestBucket, hmask _]
  simp only [getPredBusy, predictedBusy, hbucket]
  split
  · rfl
  · cases lowestBucket d.busyBuckets (busyToBucket runtimeScaled) with
    | none => rfl
    | some i =>
      have hmin : (if i.val < 2 then 0 else (if i.val < 2 then 1 else i.val) * 64) = bucketMin i := by
        unfold bucketMin
        split_ifs <;> rfl
      have hmax : ((if i.val < 2 then 1 else i.val) + 1) * 64 = bucketMax i := by
        unfold bucketMax
        omega
      have hfind : (List.ofFn d.sumHistoryUtil).find? (inBucket i) =
          ((List.finRange 5).find? fun j =>
            bucketMin i ≤ d.sumHistoryUtil j ∧ d.sumHistoryUtil j < bucketMax i).map
              d.sumHistoryUtil := by
        rw [ofFn_eq_map, List.find?_map]
        rfl
      simp only [hmin, hmax, hfind]
      cases hfirst : (List.finRange 5).find? fun j =>
          bucketMin i ≤ d.sumHistoryUtil j ∧ d.sumHistoryUtil j < bucketMax i with
      | some j =>
        have hin : bucketMin i ≤ d.sumHistoryUtil j := by
          have hj := List.find?_some hfirst
          simp only [decide_eq_true_eq] at hj
          exact hj.1
        simp only [map_some, if_neg (Nat.not_lt.mpr hin)]
      | none =>
        simp only [map_none]
        split
        · have hle : runtimeScaled ≤ (bucketMin i + bucketMax i) / 2 := by
            have hlt : bucketMin i < bucketMax i := by
              unfold bucketMin bucketMax
              split_ifs <;> omega
            omega
          exact max_eq_right hle
        · exact max_self _

theorem le_predictedBusy (newTask : Bool) (counts : Fin 16 → Nat) (samples : List Nat)
    (runtimeScaled : Nat) : runtimeScaled ≤ predictedBusy newTask counts samples runtimeScaled := by
  unfold predictedBusy
  split
  · exact le_rfl
  · split
    · exact le_rfl
    · rename_i i _
      split
      · exact le_max_left _ _
      · have hlt : bucketMin i < bucketMax i := by
          unfold bucketMin bucketMax
          split_ifs <;> omega
        split_ifs <;> omega

theorem mem_latest_iff (hist : Fin 5 → Nat) (cidx : Fin 5) (v : Nat) :
    v ∈ latest hist cidx ↔ v ∈ List.ofFn hist := by
  rw [mem_ofFn]
  constructor
  · intro hv
    simp only [latest, mem_cons, not_mem_nil, or_false] at hv
    rcases hv with rfl | rfl | rfl | rfl | rfl <;> exact ⟨_, rfl⟩
  · rintro ⟨i, rfl⟩
    exact mem_latest hist cidx i

/-- Two orders of the same samples give the same prediction exactly if the first ones in the bucket
are equal or not above the runtime. -/
theorem predictedBusy_eq_iff {counts : Fin 16 → Nat} {l m : List Nat} (hmem : ∀ v, v ∈ m ↔ v ∈ l)
    (newTask : Bool) (runtimeScaled : Nat) :
    predictedBusy newTask counts l runtimeScaled = predictedBusy newTask counts m runtimeScaled ↔
      (newTask = false → ∀ i, lowestBucket counts (busyToBucket runtimeScaled) = some i →
        ∀ first last, l.find? (inBucket i) = some first → m.find? (inBucket i) = some last →
          first = last ∨ first ≤ runtimeScaled ∧ last ≤ runtimeScaled) := by
  unfold predictedBusy
  cases newTask with
  | true => simp
  | false =>
    cases lowestBucket counts (busyToBucket runtimeScaled) with
    | none => simp
    | some i =>
      simp only [Bool.false_eq_true, if_false, forall_const, some.injEq, forall_eq']
      cases hfirst : l.find? (inBucket i) with
      | none =>
        have hlast : m.find? (inBucket i) = none := by
          rw [List.find?_eq_none] at hfirst ⊢
          exact fun v hv => hfirst v ((hmem v).mp hv)
        simp [hlast]
      | some first =>
        cases hlast : m.find? (inBucket i) with
        | none =>
          rw [List.find?_eq_none] at hlast
          exact absurd (List.find?_some hfirst)
            (hlast first ((hmem first).mpr (mem_of_find?_eq_some hfirst)))
        | some last =>
          simp only [some.injEq]
          constructor
          · rintro heq _ _ rfl rfl
            omega
          · intro h
            have hsame := h first last rfl rfl
            omega

/-- Whatever was recorded before, the prediction is never below the runtime, and it is the one for the
latest sample exactly if `FirstIsLatest`. -/
theorem pred_busy_of_latest {hs : List (HistoryCall Cpu)}
    (hfresh : ∀ i, x.2.busyBuckets i = 0 ∧ x.2.bucketBitmask i = false) (newTask : Bool)
    (runtimeScaled : Nat) :
    let d := (historyRun x hs).2
    let pred := getPredBusy newTask (busyToBucket runtimeScaled) runtimeScaled d
    runtimeScaled ≤ pred ∧
      (pred = predictedBusy newTask d.busyBuckets
          ((recordedSamples (latest x.2.sumHistoryUtil x.2.cidx) hs).take 5) runtimeScaled ↔
        FirstIsLatest newTask d runtimeScaled) := by
  have hmask : MaskOk x.2 := fun i => by simp [hfresh i]
  have hold : latest x.2.sumHistoryUtil x.2.cidx = (latest x.2.sumHistoryUtil x.2.cidx).take 5 := rfl
  obtain ⟨hok, hlatest⟩ := historyRun_spec hs hmask hold
  dsimp only
  rw [getPredBusy_eq hok, ← hlatest]
  exact ⟨le_predictedBusy _ _ _ _, predictedBusy_eq_iff (mem_latest_iff _ _) newTask runtimeScaled⟩

def recordUtils (utils : List Nat) : List (HistoryCall Unit) :=
  utils.map fun util => ⟨plainTick 0, initNewTaskLoad false, util * 15625, 1⟩

/-- After 500, 300 and 200 the prediction for 400 is the one sample of its bucket. -/
theorem pred_busy_single_sample :
    getPredBusy false (busyToBucket 400) 400 (historyRun freshTask (recordUtils [500, 300, 200])).2 =
      predictedBusy false (historyRun freshTask (recordUtils [500, 300, 200])).2.busyBuckets
        ((recordedSamples (latest freshTask.2.sumHistoryUtil freshTask.2.cidx)
          (recordUtils [500, 300, 200])).take 5) 400 := by
  refine (pred_busy_of_latest (fun _ => ⟨rfl, rfl⟩) false 400).2.2 ?_
  intro _ i hi first last hfirst hlast
  have hbucket : lowestBucket (historyRun freshTask (recordUtils [500, 300, 200])).2.busyBuckets
      (busyToBucket 400) = some 7 := by decide +kernel
  obtain rfl := some.inj (hbucket.symm.trans hi)
  have hboth : (List.ofFn (historyRun freshTask (recordUtils [500, 300, 200])).2.sumHistoryUtil).find?
      (inBucket 7) = (latest (historyRun freshTask (recordUtils [500, 300, 200])).2.sumHistoryUtil
        (historyRun freshTask (recordUtils [500, 300, 200])).2.cidx).find? (inBucket 7) := by
    decide +kernel
  exact .inl (some.inj (hfirst.symm.trans (hboth.trans hlast)))

/-- After 500 and 510 the prediction for 100 is 500, not the latest sample of the bucket. -/
theorem pred_busy_misses_latest :
    getPredBusy false (busyToBucket 100) 100 (historyRun freshTask (recordUtils [500, 510])).2 = 500 ∧
      predictedBusy false (historyRun freshTask (recordUtils [500, 510])).2.busyBuckets
        ((recordedSamples (latest freshTask.2.sumHistoryUtil freshTask.2.cidx)
          (recordUtils [500, 510])).take 5) 100 = 510 := by
  decide +kernel

end MsmKernel.Walt
