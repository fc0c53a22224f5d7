import MsmKernel.Walt.ReserveAccounting

/-! The legs of migrations and group transfers keep the reserves: what a leg takes out of a pool, or
defers, is what the task held there, and what it puts in covers what the task holds afterwards. -/
set_option linter.unusedSectionVars false

namespace MsmKernel.Walt
open Run Windows RunnableSums State
variable {Task Cpu : Type} [DecidableEq Task] [DecidableEq Cpu]

section Pools
variable (topo : Topology Cpu) (s : State Task Cpu) (p : Task) (c cpu : Cpu)
  (newTask : Bool)

def handOver (q : Wrq) (r : Wts Cpu) (ls : Fin 2 → LoadSubtractions) : Fin 2 → LoadSubtractions :=
  deferSubtraction (q.windowStart - q.prevWindowSize) (r.prevWindowCpu cpu) newTask
    (deferSubtraction q.windowStart (r.currWindowCpu cpu) newTask ls)

end Pools

section HandOver
variable {cpu : Cpu} {newTask : Bool} {q : Wrq} {r : Wts Cpu} {ls : Fin 2 → LoadSubtractions}

theorem subsAt_handOver (start : Nat) (new : Bool) :
    subsAt (handOver cpu newTask q r ls) start new ≤ subsAt ls start new + only new newTask
      ((if q.windowStart = start then r.cpuTime cpu .curr else 0) +
        if q.windowStart - q.prevWindowSize = start then r.cpuTime cpu .prev else 0) := by
  have hcurr := subsAt_deferSubtraction ls q.windowStart (r.currWindowCpu cpu) start new newTask
  have hprev := subsAt_deferSubtraction
    (deferSubtraction q.windowStart (r.currWindowCpu cpu) newTask ls)
    (q.windowStart - q.prevWindowSize) (r.prevWindowCpu cpu) start new newTask
  have hif (P : Prop) [Decidable P] (x : Nat) :
      only new newTask (if P then x else 0) = if P then only new newTask x else 0 := by
    split_ifs
    · rfl
    · exact only_zero new newTask
  rw [only_add, hif, hif]
  exact hprev.trans (by rw [← Nat.add_assoc]; exact Nat.add_le_add_right hcurr _)

theorem reached_handOver {start : Nat} (h : Reached ls start)
    (hcurr : start < q.windowStart → r.cpuTime cpu .curr = 0)
    (hprev : start < q.windowStart - q.prevWindowSize → r.cpuTime cpu .prev = 0) :
    Reached (handOver cpu newTask q r ls) start :=
  (h.deferSubtraction hcurr).deferSubtraction hprev

end HandOver

def inPool (g : Bool) (amount : Tracked → Nat) (grp : Bool) : Tracked → Nat :=
  if grp = g then amount else fun _ => 0

def nothing (_ : Bool) (_ : Tracked) : Nat := 0

/- What a leg takes out of the pools of one CPU and puts into them; a busy time check can only fire
when it takes more than a pool has. -/
structure Leg (s t : State Task Cpu) (c : Cpu) (newTask : Bool) (take put : Bool → Tracked → Nat) :
    Prop where
  pool : ∀ cpu grp new w, ((t.rq cpu).pool grp).get new w =
    ((s.rq cpu).pool grp).get new w - (if cpu = c then only new newTask (take grp w) else 0) +
      if cpu = c then only new newTask (put grp w) else 0
  bug : (∀ grp new w, only new newTask (take grp w) ≤ ((s.rq c).pool grp).get new w) →
    t.busyTimeBug = s.busyTimeBug

section Leg
variable {topo : Topology Cpu} {s t u : State Task Cpu} {p : Task} {c : Cpu} {newTask : Bool}
  {take put : Bool → Tracked → Nat}

structure KeepsPools (s t : State Task Cpu) : Prop where
  pool : ∀ cpu grp, (t.rq cpu).pool grp = (s.rq cpu).pool grp
  bug : t.busyTimeBug = s.busyTimeBug

theorem keepsPools_of_rq (hrq : t.rq = s.rq) (hbug : t.busyTimeBug = s.busyTimeBug) :
    KeepsPools s t :=
  ⟨fun cpu grp => by rw [hrq], hbug⟩

theorem keepsPools_setWts (p : Task) (r : Wts Cpu) (s : State Task Cpu) :
    KeepsPools s (s.setWts p r) := keepsPools_of_rq rfl rfl

theorem keepsPools_mapTopTasks (c : Cpu) (f : TopTasks → TopTasks) (s : State Task Cpu) :
    KeepsPools s (mapTopTasks c f s) := by
  refine ⟨fun cpu grp => ?_, rfl⟩
  by_cases hc : cpu = c
  · subst hc
    simp [mapTopTasks, setRq, Wrq.pool]
  · simp [mapTopTasks, setRq, hc]

theorem keepsPools_updateClusterLoadSubtractions (topo : Topology Cpu) (p : Task) (c : Cpu)
    (ws : Nat) (newTask : Bool) (s : State Task Cpu) :
    KeepsPools s (updateClusterLoadSubtractions topo p c ws newTask s) := by
  refine ⟨fun cpu grp => ?_, rfl⟩
  simp only [updateClusterLoadSubtractions]
  split_ifs <;> rfl

theorem KeepsPools.trans (h : KeepsPools s t) (h' : KeepsPools t u) : KeepsPools s u :=
  ⟨fun cpu grp => (h'.pool cpu grp).trans (h.pool cpu grp), h'.bug.trans h.bug⟩

theorem Leg.keeps (h : Leg s t c newTask take put) (h' : KeepsPools t u) :
    Leg s u c newTask take put := by
  refine ⟨fun cpu grp new w => ?_, fun hcovered => h'.bug.trans (h.bug hcovered)⟩
  rw [h'.pool]
  exact h.pool cpu grp new w

theorem Leg.after (h : Leg t u c newTask take put) (h' : KeepsPools s t) :
    Leg s u c newTask take put := by
  refine ⟨fun cpu grp new w => ?_, fun hcovered => (h.bug fun grp new w => ?_).trans h'.bug⟩
  · rw [← h'.pool]
    exact h.pool cpu grp new w
  · rw [h'.pool]
    exact hcovered grp new w

theorem KeepsPools.leg (h : KeepsPools s t) (c : Cpu) (newTask : Bool) :
    Leg s t c newTask nothing nothing := by
  refine ⟨fun cpu grp new w => ?_, fun _ => h.bug⟩
  rw [h.pool]
  simp [nothing, only_zero]

theorem leg_subSums (s : State Task Cpu) (c : Cpu) (newTask : Bool) (curr prev : Nat) :
    Leg s (s.subSums c newTask curr prev) c newTask (inPool false (pair curr prev)) nothing := by
  refine ⟨fun cpu grp new w => ?_, fun hcovered => ?_⟩
  · by_cases hc : cpu = c
    · subst hc
      cases grp <;> simp [subSums, setRq, Wrq.pool, get_sub, inPool, nothing, only_zero]
    · simp [subSums, setRq, hc]
  · have hshort := (s.rq c).sums.isShort_eq_false newTask fun new w => hcovered false new w
    simp only [subSums, setRq, hshort, Bool.or_false]

theorem leg_subGrpTime (s : State Task Cpu) (c : Cpu) (newTask : Bool) (curr prev : Nat) :
    Leg s (s.subGrpTime c newTask curr prev) c newTask (inPool true (pair curr prev)) nothing := by
  refine ⟨fun cpu grp new w => ?_, fun hcovered => ?_⟩
  · by_cases hc : cpu = c
    · subst hc
      cases grp <;> simp [subGrpTime, setRq, Wrq.pool, get_sub, inPool, nothing, only_zero]
    · simp [subGrpTime, setRq, hc]
  · have hshort := (s.rq c).grpTime.isShort_eq_false newTask fun new w => hcovered true new w
    simp only [subGrpTime, setRq, hshort, Bool.or_false]

theorem Leg.addSums (h : Leg s t c newTask take nothing) (curr prev : Nat) :
    Leg s (t.addSums c newTask curr prev) c newTask take (inPool false (pair curr prev)) := by
  refine ⟨fun cpu grp new w => ?_, h.bug⟩
  have hpool := h.pool cpu grp new w
  by_cases hc : cpu = c
  · subst hc
    cases grp <;> simp_all [State.addSums, setRq, Wrq.pool, get_add, inPool, nothing, only_zero]
  · simpa [State.addSums, setRq, hc] using hpool

theorem Leg.addGrpTime (h : Leg s t c newTask take nothing) (curr prev : Nat) :
    Leg s (t.addGrpTime c newTask curr prev) c newTask take (inPool true (pair curr prev)) := by
  refine ⟨fun cpu grp new w => ?_, h.bug⟩
  have hpool := h.pool cpu grp new w
  by_cases hc : cpu = c
  · subst hc
    cases grp <;> simp_all [State.addGrpTime, setRq, Wrq.pool, get_add, inPool, nothing, only_zero]
  · simpa [State.addGrpTime, setRq, hc] using hpool

theorem leg_subtractFromSource_grp (topo : Topology Cpu) (hgrp : (s.wts p).grp = true) :
    Leg s (subtractFromSource topo p s) (s.taskCpu p) (isNewTask (s.wts p))
      (inPool true (s.wts p).time) nothing := by
  simp only [subtractFromSource, hgrp, if_true]
  exact (leg_subGrpTime s _ _ _ _).keeps (keepsPools_mapTopTasks ..)

theorem leg_subtractFromSource_inter (topo : Topology Cpu) (hgrp : (s.wts p).grp = false)
    (hflag : (s.wts p).enqueueAfterMigration = .interCluster) :
    Leg s (subtractFromSource topo p s) (s.taskCpu p) (isNewTask (s.wts p))
      (inPool false ((s.wts p).cpuTime (s.taskCpu p))) nothing := by
  simp only [subtractFromSource, hgrp, hflag, Bool.false_eq_true, if_false, if_true,
    migrateInterClusterSubtraction]
  exact (((leg_subSums s _ _ _ _).keeps (keepsPools_setWts ..)).keeps
    (keepsPools_updateClusterLoadSubtractions ..)).keeps (keepsPools_mapTopTasks ..)

theorem leg_addToDestination_grp (hgrp : (s.wts p).grp = true) :
    Leg s (addToDestination p s) (s.taskCpu p) (isNewTask (s.wts p)) nothing
      (inPool true (s.wts p).time) := by
  simp only [addToDestination, hgrp, if_true]
  have hsame : KeepsPools s s := keepsPools_of_rq rfl rfl
  exact ((hsame.leg _ _).addGrpTime _ _).keeps (keepsPools_mapTopTasks ..)

theorem leg_addToDestination_inter (hgrp : (s.wts p).grp = false)
    (hflag : (s.wts p).enqueueAfterMigration = .interCluster) :
    Leg s (addToDestination p s) (s.taskCpu p) (isNewTask (s.wts p)) nothing
      (inPool false (s.wts p).time) := by
  simp only [addToDestination, hgrp, hflag, Bool.false_eq_true, if_false, if_true,
    migrateInterClusterAddition]
  exact (((keepsPools_setWts p _ s).leg _ _).addSums _ _).keeps (keepsPools_mapTopTasks ..)

theorem leg_transferToGroup (topo : Topology Cpu) (p : Task) (newTask : Bool)
    (s : State Task Cpu) :
    Leg s (transferToGroup topo p newTask s) (s.taskCpu p) newTask
      (inPool false ((s.wts p).cpuTime (s.taskCpu p))) (inPool true (s.wts p).time) := by
  exact (((leg_subSums s (s.taskCpu p) newTask _ _).keeps
    (keepsPools_updateClusterLoadSubtractions ..)).addGrpTime _ _).keeps (keepsPools_setWts ..)

theorem leg_transferToRq (p : Task) (newTask : Bool) (s : State Task Cpu) :
    Leg s (transferToRq p newTask s) (s.taskCpu p) newTask (inPool true (s.wts p).time)
      (inPool false (s.wts p).time) := by
  exact ((leg_subGrpTime s (s.taskCpu p) newTask _ _).addSums _ _).keeps (keepsPools_setWts ..)

end Leg

section Subs
variable (topo : Topology Cpu) (p : Task) (newTask : Bool) (s : State Task Cpu) (cpu : Cpu)

theorem mapTopTasks_loadSubs (c : Cpu) (f : TopTasks → TopTasks) :
    ((mapTopTasks c f s).rq cpu).loadSubs = (s.rq cpu).loadSubs :=
  apply_update Wrq.loadSubs (by rfl) cpu

theorem loadSubs_handOver {u : State Task Cpu} {c : Cpu}
    (hrq : SameRqWindow (s.rq c) (u.rq c)) (hsubs : (u.rq cpu).loadSubs = (s.rq cpu).loadSubs)
    (hwts : ∀ i, i ≠ c → (u.wts p).currWindowCpu i = (s.wts p).currWindowCpu i ∧
      (u.wts p).prevWindowCpu i = (s.wts p).prevWindowCpu i) :
    ((updateClusterLoadSubtractions topo p c (u.rq c).windowStart newTask u).rq cpu).loadSubs =
      if IsSibling topo c cpu then
        handOver cpu newTask (s.rq c) (s.wts p) (s.rq cpu).loadSubs
      else (s.rq cpu).loadSubs := by
  change (if IsSibling topo c cpu then _ else _ : Wrq).loadSubs = _
  split_ifs with hsib
  · obtain ⟨hcurr, hprev⟩ := hwts cpu hsib.2
    simp only [handOver, hrq.windowStart, hrq.prevWindowSize, hsubs, hcurr, hprev]
  · exact hsubs

theorem subSums_sameRqWindow (c : Cpu) (curr prev : Nat) :
    SameRqWindow (s.rq c) ((s.subSums c newTask curr prev).rq c) :=
  (SameWindows.of_fixed (fixed_subSums c newTask curr prev s)).rq c

theorem subtractFromSource_loadSubs : ((subtractFromSource topo p s).rq cpu).loadSubs =
    if (s.wts p).grp = false ∧ (s.wts p).enqueueAfterMigration = .interCluster ∧
        IsSibling topo (s.taskCpu p) cpu then
      handOver cpu (isNewTask (s.wts p)) (s.rq (s.taskCpu p)) (s.wts p) (s.rq cpu).loadSubs
    else (s.rq cpu).loadSubs := by
  by_cases hgrp : (s.wts p).grp = true
  · simp only [subtractFromSource, hgrp, if_true, Bool.true_eq_false, false_and, if_false,
      mapTopTasks_loadSubs]
    exact apply_update Wrq.loadSubs (by rfl) cpu
  · rw [Bool.not_eq_true] at hgrp
    by_cases hflag : (s.wts p).enqueueAfterMigration = .interCluster
    · simp only [subtractFromSource, hgrp, hflag, Bool.false_eq_true, if_false, if_true,
        migrateInterClusterSubtraction, mapTopTasks_loadSubs, true_and]
      refine loadSubs_handOver topo p _ s cpu (subSums_sameRqWindow ..) (apply_update Wrq.loadSubs (by rfl) cpu)
        fun i hi => ?_
      simp [setWts, hi]
    · simp only [subtractFromSource, hgrp, hflag, Bool.false_eq_true, if_false,
        mapTopTasks_loadSubs, false_and, and_false]

theorem transferToGroup_loadSubs : ((transferToGroup topo p newTask s).rq cpu).loadSubs =
    if IsSibling topo (s.taskCpu p) cpu then
      handOver cpu newTask (s.rq (s.taskCpu p)) (s.wts p) (s.rq cpu).loadSubs
    else (s.rq cpu).loadSubs := by
  refine (apply_update Wrq.loadSubs (by rfl) cpu).trans ?_
  exact loadSubs_handOver topo p newTask s cpu (subSums_sameRqWindow ..) (apply_update Wrq.loadSubs (by rfl) cpu)
    fun _ _ => ⟨rfl, rfl⟩

theorem transferToRq_loadSubs :
    ((transferToRq p newTask s).rq cpu).loadSubs = (s.rq cpu).loadSubs :=
  (apply_update Wrq.loadSubs (by rfl) cpu).trans (apply_update Wrq.loadSubs (by rfl) cpu)

theorem addToDestination_loadSubs :
    ((addToDestination p s).rq cpu).loadSubs = (s.rq cpu).loadSubs := by
  simp only [addToDestination, mapTopTasks_loadSubs]
  split_ifs
  · exact apply_update Wrq.loadSubs (by rfl) cpu
  · exact apply_update Wrq.loadSubs (by rfl) cpu
  · rfl

end Subs
end MsmKernel.Walt
