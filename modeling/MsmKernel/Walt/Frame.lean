import MsmKernel.Walt.Hooks

/-! What an update can change: the window a CPU advances to, and the fields of the runqueue and
of the task that the accounting leaves alone. -/
set_option linter.unusedSectionVars false

namespace MsmKernel.Walt
variable {Task Cpu : Type} [DecidableEq Task] [DecidableEq Cpu]

def Wrq.advance (q : Wrq) (window wallclock k : Nat) : Wrq :=
  if k = 0 then { q with latestClock := wallclock }
  else
    { q with
      latestClock := wallclock
      windowStart := q.windowStart + k * window
      prevWindowSize := window
      sums := q.sums.rollover (decide (k > 1))
      grpTime := q.grpTime.rollover (decide (k > 1))
      topTasks := rolloverTopTasks (decide (k > 1)) q.topTasks }

theorem int32_eq {n : Nat} (h : n < 2 ^ 31) : int32 n = n := by
  have hlo : (-((2 ^ 32 : Nat) / 2 : Int)) ≤ n := by norm_num
  have hhi : (n : Int) < (((2 ^ 32 : Nat) : Int) + 1) / 2 := by
    omega
  exact Int.bmod_eq_of_le hlo hhi

theorem addWindows_eq {ws k window : Nat} (h : ws + k * window < 2 ^ 64) :
    addWindows ws (k : Int) window = ws + k * window := by
  have hcast : ((ws : Int) + (k : Int) * (window : Int)) = ((ws + k * window : Nat) : Int) := by
    rfl
  rw [addWindows, hcast]
  have hmod : ((ws + k * window : Nat) : Int) % 2 ^ 64 = ((ws + k * window : Nat) : Int) :=
    Int.emod_eq_of_lt (Int.natCast_nonneg _) (by exact_mod_cast h)
  rw [hmod, Int.toNat_natCast]

theorem updateWindowStart_spec {window wallclock : Nat} {q q' : Wrq} (hwindow : 0 < window)
    (hsoon : wallclock < q.windowStart + 2 ^ 31 * window)
    (h : updateWindowStart window wallclock q = some q') :
    ∃ k, q' = q.advance window wallclock k ∧ q.latestClock ≤ wallclock ∧
      q.windowStart + k * window ≤ wallclock ∧
      wallclock < q.windowStart + k * window + window ∧ wallclock < 2 ^ 64 := by
  simp only [updateWindowStart] at h
  split_ifs at h with hpanic hlt
  · obtain rfl := Option.some.inj h
    exact ⟨0, by simp [Wrq.advance], by omega, by omega, by omega, by omega⟩
  · simp only [not_or, Nat.not_lt, Nat.not_le] at hpanic
    obtain ⟨hlatest, hws, -, hu64⟩ := hpanic
    obtain ⟨k, hkdef⟩ : ∃ k, k = (wallclock - q.windowStart) / window := ⟨_, rfl⟩
    have hk : k < 2 ^ 31 := by
      rw [hkdef]
      exact (Nat.div_lt_iff_lt_mul hwindow).2 (by omega)
    have hkpos : k ≠ 0 := by
      rw [hkdef]
      exact (Nat.div_pos (by omega) hwindow).ne'
    have hlo : k * window ≤ wallclock - q.windowStart := by
      rw [hkdef]
      exact Nat.div_mul_le_self _ _
    have hhi : wallclock - q.windowStart < k * window + window := by
      rw [hkdef]
      exact Nat.lt_div_mul_add hwindow
    have hint : int32 ((wallclock - q.windowStart) / window) = (k : Int) := by
      rw [← hkdef]
      exact int32_eq hk
    have hend : q.windowStart + k * window ≤ wallclock := by omega
    have hadd : addWindows q.windowStart (k : Int) window = q.windowStart + k * window :=
      addWindows_eq (Nat.lt_of_le_of_lt hend hu64)
    have hfull : decide ((k : Int) > 1) = decide (k > 1) := decide_eq_decide.2 (by omega)
    obtain rfl := Option.some.inj h
    refine ⟨k, ?_, hlatest, hend, by omega, hu64⟩
    rw [Wrq.advance, if_neg hkpos]
    simp only [rolloverCpuWindow, hint, hadd, hfull]

/-- A store that keeps a value read from the entry keeps it everywhere. -/
theorem apply_update {ι α β : Type} [DecidableEq ι] {f : ι → α} {i : ι} {x : α} (g : α → β)
    (h : g x = g (f i)) (j : ι) : g (Function.update f i x j) = g (f j) := by
  by_cases hj : j = i
  · rw [hj, Function.update_self, h]
  · rw [Function.update_of_ne hj]

structure SameTask (t t' : Wts Cpu) : Prop where
  idle : t'.idle = t.idle
  markStart : t'.markStart = t.markStart
  windowStart : t'.windowStart = t.windowStart
  currWindow : t'.currWindow = t.currWindow
  prevWindow : t'.prevWindow = t.prevWindow
  activeTime : t'.activeTime = t.activeTime

structure SameRqWindow (q q' : Wrq) : Prop where
  windowStart : q'.windowStart = q.windowStart
  prevWindowSize : q'.prevWindowSize = q.prevWindowSize
  latestClock : q'.latestClock = q.latestClock

section Accounting
variable (c : Call) (cpu : Cpu) (q : Wrq) (t : Wts Cpu)

theorem addCurr_eq (grp newTask : Bool) (delta : Nat) :
    ∃ sums grpTime, q.addCurr grp newTask delta = { q with sums, grpTime } := by
  cases grp <;> exact ⟨_, _, rfl⟩

theorem addPrev_addCurr_eq (grp grp' newTask newTask' : Bool) (delta delta' : Nat) :
    ∃ sums grpTime, (q.addPrev grp newTask delta).addCurr grp' newTask' delta' =
      { q with sums, grpTime } := by
  cases grp <;> cases grp' <;> exact ⟨_, _, rfl⟩

theorem accountBusyTime_rq :
    ∃ sums grpTime, (accountBusyTime c cpu q t).1 = { q with sums, grpTime } := by
  simp only [accountBusyTime]
  split_ifs
  · exact ⟨_, _, rfl⟩
  · exact addCurr_eq ..
  · exact addPrev_addCurr_eq ..
  · simp only [accountIrqtime]
    split_ifs
    · exact addCurr_eq ..
    · exact addPrev_addCurr_eq ..

theorem updateCpuBusyTime_rq : ∃ sums grpTime topTasks,
    (updateCpuBusyTime c cpu q t).1 = { q with sums, grpTime, topTasks } := by
  obtain ⟨sums, grpTime, h⟩ := accountBusyTime_rq c cpu q t
  simp only [updateCpuBusyTime]
  split_ifs
  · exact ⟨_, _, _, h⟩
  · rw [h]
    exact ⟨_, _, _, rfl⟩

theorem updateCpuBusyTime_snd : (updateCpuBusyTime c cpu q t).2 = (accountBusyTime c cpu q t).2 := by
  simp only [updateCpuBusyTime]
  split_ifs <;> rfl

theorem updateTaskAndRq_keeps : SameRqWindow q (updateTaskAndRq c cpu q t).1 ∧
    (updateTaskAndRq c cpu q t).1.loadSubs = q.loadSubs := by
  simp only [updateTaskAndRq]
  split_ifs
  · exact ⟨⟨rfl, rfl, rfl⟩, rfl⟩
  · simp only [accountTask]
    generalize updateTaskDemand c q.windowStart (firstWindow q t) (q.stats, _) = x
    obtain ⟨sums, grpTime, topTasks, h⟩ := updateCpuBusyTime_rq c cpu { q with stats := x.1 }
      { firstWindow q t with demand := x.2 }
    rw [h]
    exact ⟨⟨rfl, rfl, rfl⟩, rfl⟩

theorem rolledTask_eq : ∃ windowStart currWindow prevWindow currWindowCpu prevWindowCpu activeTime,
    rolledTask q t = { t with
      windowStart, currWindow, prevWindow, currWindowCpu, prevWindowCpu, activeTime } := by
  simp only [rolledTask]
  split_ifs <;> exact ⟨_, _, _, _, _, _, rfl⟩

theorem accountBusyTime_wts :
    ∃ windowStart currWindow prevWindow currWindowCpu prevWindowCpu activeTime,
      (accountBusyTime c cpu q t).2 = { t with
        windowStart, currWindow, prevWindow, currWindowCpu, prevWindowCpu, activeTime } := by
  obtain ⟨ws, curr, prev, currCpu, prevCpu, active, h⟩ := rolledTask_eq q t
  simp only [accountBusyTime, h]
  split_ifs
  · exact ⟨_, _, _, _, _, _, rfl⟩
  · simp only [accountInWindow]
    split_ifs <;> exact ⟨_, _, _, _, _, _, rfl⟩
  · simp only [accountAcrossWindows]
    split_ifs <;> exact ⟨_, _, _, _, _, _, rfl⟩
  · exact ⟨_, _, _, _, _, _, rfl⟩

end Accounting

/- What is left of a state without the fields that the legs of a migration or of a transfer and the
load subtractions write. -/
def Wrq.fixed (q : Wrq) : Wrq :=
  { initRq 0 0 with
    windowStart := q.windowStart
    prevWindowSize := q.prevWindowSize
    latestClock := q.latestClock
    stats := q.stats }

def Wts.fixed (t : Wts Cpu) : Wts Cpu :=
  { t with
    currWindowCpu := fun _ => 0
    prevWindowCpu := fun _ => 0
    grp := false
    enqueueAfterMigration := .none }

def State.fixed (s : State Task Cpu) : State Task Cpu :=
  { s with
    rq := fun cpu => (s.rq cpu).fixed
    wts := fun p => (s.wts p).fixed
    busyTimeBug := false }

section Legs
variable (topo : Topology Cpu) (p : Task) (cpu : Cpu) (newTask : Bool) (curr prev : Nat)
  (s : State Task Cpu)

theorem fixed_setRq {s : State Task Cpu} {c : Cpu} {q : Wrq} (h : q.fixed = (s.rq c).fixed) :
    (s.setRq c q).fixed = s.fixed := by
  simp only [State.fixed, State.setRq, apply_update Wrq.fixed h]

theorem fixed_setWts {s : State Task Cpu} {p : Task} {r : Wts Cpu}
    (h : r.fixed = (s.wts p).fixed) : (s.setWts p r).fixed = s.fixed := by
  simp only [State.fixed, State.setWts, apply_update Wts.fixed h]

theorem fixed_subSums : (s.subSums cpu newTask curr prev).fixed = s.fixed :=
  fixed_setRq (s := s) (c := cpu) rfl

theorem fixed_subGrpTime : (s.subGrpTime cpu newTask curr prev).fixed = s.fixed :=
  fixed_setRq (s := s) (c := cpu) rfl

theorem fixed_mapTopTasks (f : TopTasks → TopTasks) : (mapTopTasks cpu f s).fixed = s.fixed :=
  fixed_setRq rfl

theorem fixed_accountLoadSubtractions : (accountLoadSubtractions cpu s).fixed = s.fixed :=
  fixed_setRq (s := s) (c := cpu) rfl

theorem fixed_updateClusterLoadSubtractions (ws : Nat) :
    (updateClusterLoadSubtractions topo p cpu ws newTask s).fixed = s.fixed := by
  simp only [State.fixed, updateClusterLoadSubtractions, State.mk.injEq, true_and, and_true]
  refine ⟨funext fun i => ?_, funext (apply_update Wts.fixed rfl)⟩
  split_ifs <;> rfl

theorem fixed_subtractFromSource : (subtractFromSource topo p s).fixed = s.fixed := by
  refine (fixed_mapTopTasks ..).trans ?_
  split_ifs
  · exact fixed_subGrpTime ..
  · exact (fixed_updateClusterLoadSubtractions ..).trans
      ((fixed_setWts (by rfl)).trans (fixed_subSums ..))
  · rfl

theorem fixed_addToDestination : (addToDestination p s).fixed = s.fixed := by
  refine (fixed_mapTopTasks ..).trans ?_
  split_ifs
  · exact fixed_setRq (by rfl)
  · exact (fixed_setRq (by rfl)).trans (fixed_setWts (by rfl))
  · rfl

theorem fixed_transferToGroup : (transferToGroup topo p newTask s).fixed = s.fixed :=
  (fixed_setWts (by rfl)).trans ((fixed_setRq (by rfl)).trans
    ((fixed_updateClusterLoadSubtractions ..).trans (fixed_subSums ..)))

theorem fixed_transferToRq : (transferToRq p newTask s).fixed = s.fixed :=
  (fixed_setWts (by rfl)).trans ((fixed_setRq (by rfl)).trans (fixed_subGrpTime ..))

end Legs
end MsmKernel.Walt
