import MsmKernel.Walt.Frame
import MsmKernel.Walt.History

/-! One update over several windows records the same demand as an update at each window boundary. -/
namespace MsmKernel.Walt
variable {Cpu : Type} {c : Call} {t : Wts Cpu} {d e y z : TaskDemand} {S : Nat}

def lastBoundaries (windowStart window : Nat) : Nat → List Nat
  | 0 => []
  | k + 1 => (windowStart - k * window) :: lastBoundaries windowStart window k

def boundariesAfter (markStart windowStart window : Nat) : List Nat :=
  lastBoundaries windowStart window ((windowStart - markStart + (window - 1)) / window)

def updateAtBoundaries (c : Call) (windowStart : Nat) (t : Wts Cpu) (markStart : Nat) :
    List Nat → WaltSchedStats × TaskDemand → WaltSchedStats × TaskDemand
  | [], x => updateTaskDemand c windowStart { t with markStart } x
  | b :: bs, x =>
    updateAtBoundaries c windowStart t b bs
      (updateTaskDemand { c with wallclock := b } b { t with markStart } x)

def SameRecorded (d e : TaskDemand) : Prop :=
  d.sum = e.sum ∧ d.demand = e.demand ∧ d.demandScaled = e.demandScaled ∧
    d.colocDemand = e.colocDemand ∧ d.sumHistory = e.sumHistory

structure Stored (c : Call) (runtime : Nat) (e d : TaskDemand) : Prop where
  sum : d.sum = 0
  sumHistory : d.sumHistory = e.sumHistory
  cidx : d.cidx = e.cidx
  colocDemand : d.colocDemand = u32 (historySum e / RAVG_HIST_SIZE)
  demand : d.demand = policyDemand c.statsPolicy runtime (u32 (historySum e / RAVG_HIST_SIZE)) e
  demandScaled : d.demandScaled = u16 (scaleTimeToUtil c.schedRavgWindow d.demand)

theorem historySum_congr (h : d.sumHistory = e.sumHistory) : historySum d = historySum e := by
  rw [historySum, h, historySum]

theorem policyDemand_congr (h : d.sumHistory = e.sumHistory) (policy : StatsPolicy) (runtime avg : Nat) :
    policyDemand policy runtime avg d = policyDemand policy runtime avg e := by
  cases policy <;> simp [policyDemand, historyMax, h]

variable {e' : TaskDemand} {b k m : Nat}

theorem Stored.congr (h : Stored c S e d) (hhist : e'.sumHistory = e.sumHistory)
    (hcidx : e'.cidx = e.cidx) : Stored c S e' d where
  sum := h.sum
  sumHistory := h.sumHistory.trans hhist.symm
  cidx := h.cidx.trans hcidx.symm
  colocDemand := by rw [h.colocDemand, historySum_congr hhist]
  demand := by rw [h.demand, historySum_congr hhist, policyDemand_congr hhist]
  demandScaled := h.demandScaled

theorem Stored.sameRecorded {c' : Call} (h : Stored c S e d) (h' : Stored c' S e' y)
    (hpolicy : c'.statsPolicy = c.statsPolicy) (hW : c'.schedRavgWindow = c.schedRavgWindow)
    (hhist : e'.sumHistory = e.sumHistory) : SameRecorded d y := by
  have hdemand : d.demand = y.demand := by
    rw [h.demand, h'.demand, hpolicy, historySum_congr hhist, policyDemand_congr hhist]
  refine ⟨h.sum.trans h'.sum.symm, hdemand, ?_, ?_, ?_⟩
  · rw [h.demandScaled, h'.demandScaled, hW, hdemand]
  · rw [h.colocDemand, h'.colocDemand, historySum_congr hhist]
  · rw [h.sumHistory, h'.sumHistory, hhist]

theorem stored_updateHistory {runtime : Nat} {samples : Int} (hruntime : runtime ≠ 0)
    (hidle : t.idle = false) (hgrp : t.grp = false) (hsamples : samples ≠ 0)
    (x : WaltSchedStats × TaskDemand) :
    Stored c runtime (recordedHistory c runtime samples x.2) (updateHistory c t runtime samples x).2 := by
  obtain ⟨demand, pred, giant, trailblazer, highUtilHistory, hdemand, heq⟩ :=
    updateHistory_task (c := c) hruntime hidle hsamples x
  have hdemand : demand = recordedDemand c runtime samples x.2 := by
    rcases hdemand with h | ⟨h, -⟩
    · exact h
    · rw [hgrp] at h
      exact absurd h (by simp)
  rw [heq, hdemand]
  exact ⟨rfl, rfl, rfl, rfl, rfl, rfl⟩

theorem pushHistory_congr (runtime runtimeScaled : Nat) (k : Nat) (hhist : d.sumHistory = e.sumHistory)
    (hcidx : d.cidx = e.cidx) :
    (pushHistory runtime runtimeScaled k d).sumHistory =
        (pushHistory runtime runtimeScaled k e).sumHistory ∧
      (pushHistory runtime runtimeScaled k d).cidx = (pushHistory runtime runtimeScaled k e).cidx := by
  induction k generalizing d e with
  | zero => exact ⟨hhist, hcidx⟩
  | succ k ih =>
    refine ih ?_ ?_
    · rw [hhist, hcidx]
    · rw [hcidx]

theorem Stored.at (h : Stored { c with wallclock := b } S e d) : Stored c S e d :=
  ⟨h.sum, h.sumHistory, h.cidx, h.colocDemand, h.demand, h.demandScaled⟩

def Pushed (c : Call) (S k : Nat) (y z : TaskDemand) : Prop :=
  if S = 0 ∨ k = 0 then z = y else Stored c S (recordedHistory c S k y) z

theorem Pushed.zero (S : Nat) (y : TaskDemand) : Pushed c S 0 y y := by
  simp [Pushed]

theorem Pushed.sum_eq_zero (h : Pushed c S k y z) (hy : y.sum = 0) : z.sum = 0 := by
  unfold Pushed at h
  split at h
  · rw [h, hy]
  · exact h.sum

theorem Pushed.succ (h : Pushed c S 1 y z) (h' : Pushed c S k z d) : Pushed c S (k + 1) y d := by
  by_cases hS : S = 0
  · simp only [Pushed, hS, true_or, if_true] at h h' ⊢
    rw [h', h]
  · simp only [Pushed, hS, false_or, if_false, Nat.succ_ne_zero] at h h' ⊢
    split at h'
    · rename_i hk
      rw [h', hk]
      exact h
    · obtain ⟨hhist, hcidx⟩ := pushHistory_congr S (u16 (scaleTimeToUtil c.schedRavgWindow S)) k
        h.sumHistory h.cidx
      exact h'.congr hhist.symm hcidx.symm

theorem Pushed.add {j : Nat} (h : Pushed c S j y z) (hj : j ≤ 1) (h' : Pushed c S k z d) :
    Pushed c S (j + k) y d := by
  obtain rfl | rfl : j = 0 ∨ j = 1 := by omega
  · simp only [Pushed, or_true, if_true] at h
    rw [Nat.zero_add, ← h]
    exact h'
  · rw [Nat.add_comm]
    exact h.succ h'

theorem pushed_updateHistory (hidle : t.idle = false) (hgrp : t.grp = false)
    (stats : WaltSchedStats) (y : TaskDemand) :
    Pushed c S k y (updateHistory { c with wallclock := b } t S k (stats, y)).2 := by
  unfold Pushed
  split
  · rename_i hnone
    rw [updateHistory_inactive]
    exact hnone.imp_right fun hk => .inr (by simp [hk])
  · rename_i hsome
    rw [not_or] at hsome
    exact (stored_updateHistory hsome.1 hidle hgrp (by simpa using hsome.2) (stats, y)).at

/-- With more than five windows only the last five are in the history, so it does not matter that only
five are recorded at once. -/
theorem Pushed.sameRecorded {y' z' : TaskDemand} (h : Pushed c S k y z)
    (h' : Pushed c S (min k 5) y' z') (hy : SameRecorded y y') (hcidx : y.cidx = y'.cidx) :
    SameRecorded z z' := by
  by_cases hnone : S = 0 ∨ k = 0
  · have hnone' : S = 0 ∨ min k 5 = 0 := hnone.imp_right fun hk => by rw [hk]; rfl
    rw [Pushed, if_pos hnone] at h
    rw [Pushed, if_pos hnone'] at h'
    rw [h, h']
    exact hy
  · have hnone' : ¬ (S = 0 ∨ min k 5 = 0) := by omega
    rw [Pushed, if_neg hnone] at h
    rw [Pushed, if_neg hnone'] at h'
    refine h.sameRecorded h' rfl rfl ?_
    simp only [recordedHistory, Int.toNat_natCast]
    by_cases hk : k ≤ 5
    · rw [Nat.min_eq_left hk]
      exact (pushHistory_congr S _ k hy.2.2.2.2 hcidx).1.symm
    · rw [Nat.min_eq_right (by omega), pushHistory_all S _ le_rfl, pushHistory_all S _ (by omega)]

theorem addToTaskDemand_zero (grp : Bool) (hd : d.sum = 0) : addToTaskDemand c grp 0 d = d := by
  have hsum : u32 (d.sum + scaleExecTime c grp 0) = 0 := by rw [hd, scaleExecTime_zero]; rfl
  simp only [addToTaskDemand, hsum, Nat.not_lt_zero, if_false, gt_iff_lt]
  rw [← hd]

theorem SameRecorded.addToTaskDemand (h : SameRecorded d e) (grp : Bool) (delta : Nat) :
    SameRecorded (addToTaskDemand c grp delta d) (addToTaskDemand c grp delta e) := by
  obtain ⟨hsum, hdemand, hscaled, hcoloc, hhist⟩ := h
  refine ⟨?_, hdemand, hscaled, hcoloc, hhist⟩
  simp only [Walt.addToTaskDemand, hsum]

section Update
variable {x : WaltSchedStats × TaskDemand} {ws n : Nat}

def closeWindow (c : Call) (t : Wts Cpu) (delta : Nat) (x : WaltSchedStats × TaskDemand) :
    WaltSchedStats × TaskDemand :=
  updateHistory c t (addToTaskDemand c t.grp delta x.2).sum 1 (x.1, addToTaskDemand c t.grp delta x.2)

def scaledWindow (c : Call) (grp : Bool) : Nat := u32 (scaleExecTime c grp c.schedRavgWindow)

theorem addWindows_neg {window : Nat} (hle : n * window ≤ ws) (hlt : ws < 2 ^ 64) :
    addWindows ws (-(n : Int)) window = ws - n * window := by
  have hcast : (ws : Int) + -(n : Int) * (window : Int) = ((ws - n * window : Nat) : Int) := by
    rw [Nat.cast_sub hle]
    push_cast
    rw [Int.neg_mul, ← Int.sub_eq_add_neg]
  rw [addWindows, hcast]
  have hmod : ((ws - n * window : Nat) : Int) % 2 ^ 64 = ((ws - n * window : Nat) : Int) :=
    Int.emod_eq_of_lt (Int.natCast_nonneg _) (by omega)
  rw [hmod, Int.toNat_natCast]

theorem updateTaskDemand_windows (hbusy : accountBusyForTaskDemand c t.idle = true)
    (hms : t.markStart < ws) (hn : (ws - t.markStart) / c.schedRavgWindow = n) (hsmall : n < 2 ^ 31)
    (hlt : ws < 2 ^ 64) :
    updateTaskDemand c ws t x =
      let x := closeWindow c t (ws - n * c.schedRavgWindow - t.markStart) x
      let x := updateHistory c t (scaledWindow c t.grp) (min n 5 : Nat) x
      (x.1, addToTaskDemand c t.grp (elapsed c.wallclock ws) x.2) := by
  have hle : n * c.schedRavgWindow ≤ ws - t.markStart := hn ▸ Nat.div_mul_le_self _ _
  have hfirst : addWindows ws (-(n : Int)) c.schedRavgWindow = ws - n * c.schedRavgWindow :=
    addWindows_neg (by omega) hlt
  have hdelta : elapsed (ws - n * c.schedRavgWindow) t.markStart =
      ws - n * c.schedRavgWindow - t.markStart := elapsed_eq (by omega) (by omega)
  have hcount : min (n : Int) (RAVG_HIST_SIZE : Int) = ((min n 5 : Nat) : Int) := by
    simp [RAVG_HIST_SIZE]
  simp only [updateTaskDemand, hbusy, if_true, hms, hn, int32_eq hsmall, hfirst, hdelta, hcount]
  by_cases hzero : n = 0
  · have hnone : ∀ x, updateHistory c t (scaledWindow c t.grp) ((min n 5 : Nat) : Int) x = x :=
      fun x => updateHistory_inactive (.inr (.inr (by simp [hzero]))) x
    simp only [hzero, Nat.cast_zero, ne_eq, not_true_eq_false, if_false] at hnone ⊢
    rw [hnone]
    rfl
  · have hne : (n : Int) ≠ 0 := by exact_mod_cast hzero
    rw [if_pos hne]
    rfl

theorem closeWindow_zero {x : WaltSchedStats × TaskDemand} (hx : x.2.sum = 0) :
    closeWindow { c with wallclock := b } { t with markStart := m } 0 x = x := by
  rw [closeWindow, addToTaskDemand_zero _ hx, updateHistory_inactive (.inl hx)]

variable (hbusy : accountBusyForTaskDemand c t.idle = true) (hgrp : t.grp = false)
include hbusy hgrp

omit hgrp in
theorem idle_eq_false : t.idle = false := by
  cases hidle : t.idle with
  | false => rfl
  | true => simp [accountBusyForTaskDemand, hidle] at hbusy

theorem closeWindow_spec (b m delta : Nat) (x : WaltSchedStats × TaskDemand) :
    let y := (closeWindow { c with wallclock := b } { t with markStart := m } delta x).2
    let z := (closeWindow c t delta x).2
    y.sum = 0 ∧ SameRecorded y z ∧ y.cidx = z.cidx := by
  have hidle := idle_eq_false hbusy
  dsimp only [closeWindow]
  have hadd : addToTaskDemand { c with wallclock := b } t.grp delta x.2 =
      addToTaskDemand c t.grp delta x.2 := rfl
  rw [hadd]
  by_cases hsum : (addToTaskDemand c t.grp delta x.2).sum = 0
  · rw [updateHistory_inactive (.inl hsum), updateHistory_inactive (.inl hsum)]
    exact ⟨hsum, ⟨rfl, rfl, rfl, rfl, rfl⟩, rfl⟩
  · have hsplit := (stored_updateHistory (c := { c with wallclock := b })
      (t := { t with markStart := m }) hsum hidle hgrp Int.one_ne_zero
      (x.1, addToTaskDemand c t.grp delta x.2)).at
    have hwhole := stored_updateHistory (c := c) (t := t) hsum hidle hgrp Int.one_ne_zero
      (x.1, addToTaskDemand c t.grp delta x.2)
    exact ⟨hsplit.sum, hsplit.sameRecorded hwhole rfl rfl rfl, hsplit.cidx.trans hwhole.cidx.symm⟩

theorem update_at_boundary {n : Nat} (hm : m < b) (hn : (b - m) / c.schedRavgWindow = n)
    (hsmall : n ≤ 1) (hlt : b < 2 ^ 64) (x : WaltSchedStats × TaskDemand) :
    let y := closeWindow { c with wallclock := b } { t with markStart := m }
      (b - n * c.schedRavgWindow - m) x
    Pushed c (scaledWindow c false) n y.2
      (updateTaskDemand { c with wallclock := b } b { t with markStart := m } x).2 := by
  have hsum := (closeWindow_spec hbusy hgrp b m (b - n * c.schedRavgWindow - m) x).1
  have hwindows := updateTaskDemand_windows (c := { c with wallclock := b })
    (t := { t with markStart := m }) (x := x) hbusy hm hn (by omega) hlt
  have hend : elapsed b b = 0 := by rw [elapsed_eq le_rfl hlt, Nat.sub_self]
  have hcount : min n 5 = n := by omega
  have hscaled : scaledWindow { c with wallclock := b } t.grp = scaledWindow c false := by
    rw [hgrp]
    rfl
  dsimp only at hsum hwindows ⊢
  rw [hwindows, hend, hcount, hscaled]
  generalize closeWindow { c with wallclock := b } { t with markStart := m }
    (b - n * c.schedRavgWindow - m) x = y at hsum ⊢
  have hpushed : Pushed c (scaledWindow c false) n y.2 (updateHistory { c with wallclock := b }
      { t with markStart := m } (scaledWindow c false) n (y.1, y.2)).2 :=
    pushed_updateHistory (t := { t with markStart := m }) (idle_eq_false hbusy) hgrp y.1 y.2
  rw [addToTaskDemand_zero _ (hpushed.sum_eq_zero hsum)]
  exact hpushed

theorem updateAtBoundaries_spec (hW : 0 < c.schedRavgWindow) (hk : k * c.schedRavgWindow ≤ ws)
    (hlt : ws < 2 ^ 64) (hx : x.2.sum = 0) :
    ∃ z, Pushed c (scaledWindow c false) k x.2 z ∧
      (updateAtBoundaries c ws t (ws - k * c.schedRavgWindow) (lastBoundaries ws c.schedRavgWindow k)
        x).2 = addToTaskDemand c false (elapsed c.wallclock ws) z := by
  induction k generalizing x with
  | zero =>
    refine ⟨x.2, Pushed.zero _ _, ?_⟩
    simp [lastBoundaries, updateAtBoundaries, updateTaskDemand, hbusy, hgrp]
  | succ k ih =>
    obtain ⟨b, hb⟩ : ∃ b, b = ws - k * c.schedRavgWindow := ⟨_, rfl⟩
    have hmul : (k + 1) * c.schedRavgWindow = k * c.schedRavgWindow + c.schedRavgWindow :=
      Nat.succ_mul _ _
    have hmark : b - (ws - (k + 1) * c.schedRavgWindow) = c.schedRavgWindow := by omega
    have hstep := update_at_boundary hbusy hgrp (b := b) (m := ws - (k + 1) * c.schedRavgWindow)
      (n := 1) (by omega) (by rw [hmark]; exact Nat.div_self hW) le_rfl (by omega) x
    have hzero : b - 1 * c.schedRavgWindow - (ws - (k + 1) * c.schedRavgWindow) = 0 := by omega
    rw [hzero, closeWindow_zero hx] at hstep
    obtain ⟨z, hz, heq⟩ := ih (by omega) (hstep.sum_eq_zero hx)
    refine ⟨z, hstep.succ hz, ?_⟩
    rw [lastBoundaries, updateAtBoundaries, ← hb]
    rw [← hb] at heq
    exact heq

omit hbusy hgrp in
theorem first_boundary {W ms n : Nat} (hW : 0 < W) (hms : ms < ws) (hn : (ws - ms) / W = n) :
    ∃ j k, j ≤ 1 ∧ j + k = n ∧ (ws - ms + (W - 1)) / W = k + 1 ∧ (ws - k * W - ms) / W = j ∧
      k * W ≤ ws ∧ ms < ws - k * W ∧ ws - k * W - j * W - ms = ws - n * W - ms := by
  have hsum := Nat.div_add_mod' (ws - ms) W
  have hmod := Nat.mod_lt (ws - ms) hW
  rw [hn] at hsum
  by_cases hon : (ws - ms) % W = 0
  · -- the mark is on a boundary
    obtain ⟨k, rfl⟩ : ∃ k, n = k + 1 := ⟨n - 1, by
      have hne : n ≠ 0 := fun h => by simp [h, hon] at hsum; omega
      omega⟩
    have hmul : (k + 1) * W = k * W + W := Nat.succ_mul k W
    have hcount : ws - ms + (W - 1) = (W - 1) + (k + 1) * W := by omega
    have hpart : ws - k * W - ms = W := by omega
    refine ⟨1, k, le_rfl, Nat.add_comm 1 k, ?_, ?_, by omega, by omega, by omega⟩
    · rw [hcount, Nat.add_mul_div_right _ _ hW, Nat.div_eq_of_lt (by omega), Nat.zero_add]
    · rw [hpart, Nat.div_self hW]
  · have hcount : ws - ms + (W - 1) = ((ws - ms) % W - 1) + (n + 1) * W := by
      rw [Nat.succ_mul]
      omega
    refine ⟨0, n, Nat.zero_le 1, Nat.zero_add n, ?_, ?_, by omega, by omega, by omega⟩
    · rw [hcount, Nat.add_mul_div_right _ _ hW, Nat.div_eq_of_lt (by omega), Nat.zero_add]
    · exact Nat.div_eq_of_lt (by omega)

theorem updateAtBoundaries_pushed {n : Nat} (hW : 0 < c.schedRavgWindow) (hlt : ws < 2 ^ 64)
    (hms : t.markStart < ws) (hn : (ws - t.markStart) / c.schedRavgWindow = n)
    (x : WaltSchedStats × TaskDemand) :
    let closed := (closeWindow c t (ws - n * c.schedRavgWindow - t.markStart) x).2
    ∃ y z, SameRecorded y closed ∧ y.cidx = closed.cidx ∧ Pushed c (scaledWindow c false) n y z ∧
      (updateAtBoundaries c ws t t.markStart (boundariesAfter t.markStart ws c.schedRavgWindow) x).2 =
        addToTaskDemand c false (elapsed c.wallclock ws) z := by
  obtain ⟨j, k, hj, hjk, hcount, hparts, hk, hfirst, hdelta⟩ := first_boundary hW hms hn
  have hstep := update_at_boundary hbusy hgrp hfirst hparts hj (by omega) x
  obtain ⟨hsum, hsame, hcidx⟩ := closeWindow_spec hbusy hgrp (ws - k * c.schedRavgWindow) t.markStart
    (ws - n * c.schedRavgWindow - t.markStart) x
  rw [hdelta] at hstep
  obtain ⟨z, hz, heq⟩ := updateAtBoundaries_spec hbusy hgrp hW hk hlt (hstep.sum_eq_zero hsum)
  refine ⟨_, z, hsame, hcidx, hjk ▸ hstep.add hj hz, ?_⟩
  rw [boundariesAfter, hcount, lastBoundaries, updateAtBoundaries, heq]

end Update

/-- One update over any number of windows below 2^31 records what the updates at the boundaries and at
the end do. -/
theorem demand_split_at_boundaries {ws : Nat} (hbusy : accountBusyForTaskDemand c t.idle = true)
    (hgrp : t.grp = false) (hW : 0 < c.schedRavgWindow) (hlt : ws < 2 ^ 64)
    (hsmall : (ws - t.markStart) / c.schedRavgWindow < 2 ^ 31) (x : WaltSchedStats × TaskDemand) :
    SameRecorded (updateAtBoundaries c ws t t.markStart
        (boundariesAfter t.markStart ws c.schedRavgWindow) x).2
      (updateTaskDemand c ws t x).2 := by
  by_cases hms : t.markStart < ws
  · obtain ⟨n, hn⟩ : ∃ n, (ws - t.markStart) / c.schedRavgWindow = n := ⟨_, rfl⟩
    obtain ⟨y, z, hsame, hcidx, hpushed, heq⟩ := updateAtBoundaries_pushed hbusy hgrp hW hlt hms hn x
    have hwhole := updateTaskDemand_windows (x := x) hbusy hms hn (by omega) hlt
    rw [heq, hwhole, hgrp]
    refine SameRecorded.addToTaskDemand ?_ false _
    exact hpushed.sameRecorded
      (pushed_updateHistory (b := c.wallclock) (idle_eq_false hbusy) hgrp _ _) hsame hcidx
  · have hnone : (ws - t.markStart + (c.schedRavgWindow - 1)) / c.schedRavgWindow = 0 :=
      Nat.div_eq_of_lt (by omega)
    rw [boundariesAfter, hnone]
    exact ⟨rfl, rfl, rfl, rfl, rfl⟩

theorem updateAtBoundaries_full {ws : Nat} (hbusy : accountBusyForTaskDemand c t.idle = true)
    (hgrp : t.grp = false) (hW : 0 < c.schedRavgWindow) (hlt : ws < 2 ^ 64)
    (hmany : 5 ≤ (ws - t.markStart) / c.schedRavgWindow) (hS : scaledWindow c false ≠ 0)
    (x : WaltSchedStats × TaskDemand) :
    (updateAtBoundaries c ws t t.markStart (boundariesAfter t.markStart ws c.schedRavgWindow)
      x).2.sumHistory = fun _ => scaledWindow c false := by
  obtain ⟨n, hn⟩ : ∃ n, (ws - t.markStart) / c.schedRavgWindow = n := ⟨_, rfl⟩
  have hms : t.markStart < ws := by
    by_contra hle
    rw [Nat.sub_eq_zero_of_le (by omega), Nat.zero_div] at hmany
    omega
  obtain ⟨y, z, -, -, hpushed, heq⟩ := updateAtBoundaries_pushed hbusy hgrp hW hlt hms hn x
  rw [Pushed, if_neg (by omega)] at hpushed
  rw [heq]
  refine hpushed.sumHistory.trans (pushHistory_all _ _ ?_ y)
  omega

def markedAtFirst : Wts Unit := { initNewTaskLoad false with markStart := 16000000 }

theorem demand_split_three_windows :
    SameRecorded
      (updateAtBoundaries (plainTick 70000000) 64000000 markedAtFirst markedAtFirst.markStart
        (boundariesAfter markedAtFirst.markStart 64000000 (plainTick 70000000).schedRavgWindow)
        freshTask).2
      (updateTaskDemand (plainTick 70000000) 64000000 markedAtFirst freshTask).2 :=
  demand_split_at_boundaries (by decide) rfl (by decide) (by decide) (by decide) freshTask

def farTick : Call := plainTick 68719476752000000

/-- Over 2^32 windows the count of whole windows is 0: none is recorded. -/
theorem demand_split_wraps :
    ¬ SameRecorded
      (updateAtBoundaries farTick farTick.wallclock markedAtFirst markedAtFirst.markStart
        (boundariesAfter markedAtFirst.markStart farTick.wallclock farTick.schedRavgWindow) freshTask).2
      (updateTaskDemand farTick farTick.wallclock markedAtFirst freshTask).2 := by
  intro hsame
  have hnone : (updateTaskDemand farTick farTick.wallclock markedAtFirst freshTask).2.sumHistory 0 = 0 := by
    decide +kernel
  rw [← hsame.2.2.2.2, updateAtBoundaries_full (by decide) rfl (by decide) (by decide) (by decide)
    (by decide)] at hnone
  exact absurd hnone (by decide)

end MsmKernel.Walt
