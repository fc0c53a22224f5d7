import MsmKernel.Walt.ReserveLegs

/-! Each act keeps the reserves and fires no busy time check: migrations and group transfers as legs
of a task that is in the window of its CPU, the deferred subtractions because they are covered. -/
set_option linter.unusedSectionVars false

namespace MsmKernel.Walt
open Run Windows Function Wts
variable {Task Cpu : Type} [DecidableEq Task] [DecidableEq Cpu]

variable {cpu : Cpu} {newTask : Bool} {r : Wts Cpu} {wallclock : Nat}

section Legs
variable [Fintype Task] {topo : Topology Cpu} {s t : State Task Cpu} {p : Task}

/- What a leg leaves of a task on a CPU: nothing changes in the deferred subtractions, or all that
the task holds there is handed over to them. -/
def SubsFollow (s t : State Task Cpu) (p : Task) (cpu : Cpu) : Prop :=
  (t.rq cpu).loadSubs = (s.rq cpu).loadSubs ∨
    (cpu ≠ s.taskCpu p ∧ held s cpu false p = (s.wts p).cpuTime cpu ∧
      held t cpu false p = (fun _ => 0) ∧
      (t.rq cpu).loadSubs = handOver cpu (isNewTask (s.wts p)) (s.rq (s.taskCpu p)) (s.wts p)
        (s.rq cpu).loadSubs)

theorem Grid.started_of_fresh (hgrid : Grid s)
    (hfresh : (s.rq (s.taskCpu p)).windowStart ≤ (s.wts p).markStart) :
    (s.wts p).markStart ≠ 0 := by
  have := hgrid.agreed.start_pos (s.taskCpu p)
  omega

section
variable (hs : Reserved s) (hgrid : Grid s)
  (hws : (s.wts p).windowStart = (s.rq (s.taskCpu p)).windowStart)
include hs hgrid hws

theorem Reserved.deferred_handOver (hrq : SameRqWindow (s.rq cpu) (t.rq cpu))
    (hheld : held s cpu false p = (s.wts p).cpuTime cpu)
    (hsubs : (t.rq cpu).loadSubs = handOver cpu (isNewTask (s.wts p)) (s.rq (s.taskCpu p)) (s.wts p) (s.rq cpu).loadSubs)
    (new : Bool) (w : Tracked) :
    deferred (t.rq cpu) false new w ≤ deferred (s.rq cpu) false new w + due s cpu false new w p := by
  simp only [deferred, Bool.false_eq_true, if_false, hsubs, hrq.windowStart, hrq.prevWindowSize]
  rw [due, hws, hheld]
  refine (subsAt_handOver _ new).trans (Nat.add_le_add_left (only_le new _ ?_) _)
  exact entered_le_portion (hgrid.sameGrid cpu (s.taskCpu p)) (hgrid.agreed.start_pos cpu)
    (hgrid.agreed.start_pos (s.taskCpu p)) (hs.prev_pos cpu) (hs.prev_pos (s.taskCpu p)) w

theorem Reserved.reached_handOver (hheld : held s cpu false p = (s.wts p).cpuTime cpu) :
    Reached (handOver cpu newTask (s.rq (s.taskCpu p)) (s.wts p) (s.rq cpu).loadSubs)
      (s.rq cpu).windowStart := by
  have hahead := hs.notAhead cpu false p
  rw [hheld, hws] at hahead
  refine Walt.reached_handOver (hs.reached cpu) hahead.curr fun hlt => hahead.prev ?_
  have hprev := ((hgrid.sameGrid cpu (s.taskCpu p)).later (by omega)).1
  omega

end

/-- A leg of a task that is in the window of its CPU keeps the reserves and fires no check, if it
takes no more than the task holds and leaves the task no more than it puts in. -/
theorem Reserved.of_leg {take put : Bool → Tracked → Nat} (hs : Reserved s) (hgrid : Grid s)
    (hfresh : (s.rq (s.taskCpu p)).windowStart ≤ (s.wts p).markStart)
    (hontime : (s.wts p).windowStart ≤ (s.rq (s.taskCpu p)).windowStart)
    (hsame : SameWindows s t) (hwts : t.wts = update s.wts p r)
    (hcpus : ∀ p', p' ≠ p → t.taskCpu p' = s.taskCpu p')
    (hleg : Leg s t (s.taskCpu p) (isNewTask (s.wts p)) take put)
    (htake : ∀ grp w, take grp w ≤ held s (s.taskCpu p) grp p w)
    (hhere : ∀ grp w, held t (s.taskCpu p) grp p w + take grp w ≤ held s (s.taskCpu p) grp p w + put grp w)
    (helse : ∀ cpu, cpu ≠ s.taskCpu p → ∀ grp w, held t cpu grp p w ≤ held s cpu grp p w)
    (hsubs : ∀ cpu, SubsFollow s t p cpu) : Reserved t ∧ t.busyTimeBug = s.busyTimeBug := by
  have hws := hgrid.window_eq hfresh hontime
  have hothers p' (hp : p' ≠ p) : t.wts p' = s.wts p' ∧ t.taskCpu p' = s.taskCpu p' :=
    ⟨by rw [hwts, update_of_ne hp], hcpus p' hp⟩
  have hnew : isNewTask (t.wts p) = isNewTask (s.wts p) := by
    rw [isNewTask, isNewTask, (hsame.wts p).activeTime]
  have hdue cpu grp new w : due t cpu grp new w p = only new (isNewTask (s.wts p))
      (portion s.schedRavgWindow (s.rq cpu).windowStart (s.rq cpu).prevWindowSize
        (s.wts p).windowStart (held t cpu grp p) w) := by
    rw [due, hnew, hsame.schedRavgWindow, (hsame.rq cpu).windowStart,
      (hsame.rq cpu).prevWindowSize, (hsame.wts p).windowStart]
  have hkeep {cpu} (h : (t.rq cpu).loadSubs = (s.rq cpu).loadSubs) (grp new w) :
      deferred (t.rq cpu) grp new w = deferred (s.rq cpu) grp new w := by
    simp only [deferred, h, (hsame.rq cpu).windowStart, (hsame.rq cpu).prevWindowSize]
  refine ⟨hs.of_task hsame.schedRavgWindow hsame.rq hothers (fun cpu grp new w => ?_)
    (fun cpu grp => ?_) (fun cpu => ?_) (fun hzero => ?_), hleg.bug fun grp new w => ?_⟩
  · have hpool := hleg.pool cpu grp new w
    by_cases hcpu : cpu = s.taskCpu p
    · have hfollow : (t.rq cpu).loadSubs = (s.rq cpu).loadSubs :=
        (hsubs cpu).resolve_right fun h => h.1 hcpu
      rw [hkeep hfollow, hdue, hpool, due]
      have hle := only_le new (isNewTask (s.wts p)) (hhere grp w)
      rw [only_add, only_add] at hle
      rw [hcpu, portion_of_eq hws, portion_of_eq hws, if_pos rfl, if_pos rfl]
      omega
    · have hle : due t cpu grp new w p ≤ due s cpu grp new w p := by
        rw [hdue, due]
        exact only_le new _ (portion_mono (helse cpu hcpu grp) w)
      rw [if_neg hcpu, if_neg hcpu] at hpool
      rcases hsubs cpu with hfollow | ⟨-, hheld, hnone, hfollow⟩
      · rw [hkeep hfollow]
        omega
      · cases grp with
        | true =>
          simp only [deferred, if_true]
          omega
        | false =>
          have hdefer := hs.deferred_handOver hgrid hws (hsame.rq cpu) hheld hfollow new w
          have hzero : due t cpu false new w p = 0 := by
            rw [hdue, hnone, portion_zero, only_zero]
          omega
  · rw [(hsame.wts p).windowStart]
    by_cases hcpu : cpu = s.taskCpu p
    · exact notAhead_of_le (by rw [hws, hcpu])
    · exact (hs.notAhead cpu grp p).mono (helse cpu hcpu grp)
  · rcases hsubs cpu with hfollow | ⟨-, hheld, -, hfollow⟩
    · rw [hfollow]
      exact hs.reached cpu
    · rw [hfollow]
      exact hs.reached_handOver hgrid hws hheld
  · rw [(hsame.wts p).markStart] at hzero
    exact absurd hzero (hgrid.started_of_fresh hfresh)
  · have hle := hs.due_le (s.taskCpu p) grp new w p
    rw [due, portion_of_eq hws] at hle
    exact (only_le new _ (htake grp w)).trans hle

theorem Reserved.of_keeps (hs : Reserved s) (hsame : SameWindows s t) (hkeeps : KeepsPools s t)
    (hsubs : ∀ cpu, (t.rq cpu).loadSubs = (s.rq cpu).loadSubs)
    (hheld : ∀ cpu grp p, held t cpu grp p = held s cpu grp p)
    (htime : ∀ p cpu, (t.wts p).cpuTime cpu = (s.wts p).cpuTime cpu) :
    Reserved t ∧ t.busyTimeBug = s.busyTimeBug := by
  refine ⟨hs.of_pools hsame hheld htime (fun cpu grp new w => ?_) (fun cpu => ?_), hkeeps.bug⟩
  · simp only [deferred, hsubs, hkeeps.pool, (hsame.rq cpu).windowStart,
      (hsame.rq cpu).prevWindowSize, le_refl]
  · rw [hsubs]
    exact hs.reached cpu

section
variable (hidle : (s.wts p).idle = false) (hgrp : (s.wts p).grp = true)
include hidle hgrp

theorem held_of_grp (cpu : Cpu) (grp : Bool) : held s cpu grp p = inPool true
      (if (s.wts p).enqueueAfterMigration = .none ∧ s.taskCpu p = cpu then (s.wts p).time
        else fun _ => 0) grp := by
  cases grp <;> simp [held, inPool, hidle, hgrp]

theorem held_of_pending (hflag : (s.wts p).enqueueAfterMigration ≠ .none) (cpu : Cpu) (grp : Bool) :
    held s cpu grp p = fun _ => 0 := by
  rw [held_of_grp hidle hgrp, if_neg fun h => hflag h.1]
  cases grp <;> rfl

theorem held_of_grp_here (hflag : (s.wts p).enqueueAfterMigration = .none) (grp : Bool) :
    held s (s.taskCpu p) grp p = inPool true (s.wts p).time grp := by
  rw [held_of_grp hidle hgrp, if_pos ⟨hflag, rfl⟩]

end

theorem held_of_ungrouped (hidle : (s.wts p).idle = false) (hgrp : (s.wts p).grp = false)
    (cpu : Cpu) (grp : Bool) : held s cpu grp p = inPool false ((s.wts p).cpuTime cpu) grp := by
  cases grp <;> simp [held, inPool, hidle, hgrp]

end Legs

section Depart
variable {topo : Topology Cpu} {s : State Task Cpu} {p : Task} {newCpu : Cpu}

theorem depart_settled (topo : Topology Cpu) (newCpu : Cpu)
    (hflag : (s.wts p).enqueueAfterMigration = .none) :
    ∃ u, KeepsPools s u ∧ u.rq = s.rq ∧ u.taskCpu = s.taskCpu ∧
      u.wts p = { s.wts p with
        enqueueAfterMigration := pendingMigration topo (s.taskCpu p) newCpu } ∧
      KeepsPools (subtractFromSource topo p u) (depart topo p newCpu s) ∧
      (depart topo p newCpu s).rq = (subtractFromSource topo p u).rq := by
  refine ⟨setEnqueueAfterMigration p (pendingMigration topo (s.taskCpu p) newCpu) s,
    keepsPools_setWts .., rfl, rfl, update_self .., ?_⟩
  have hdepart : depart topo p newCpu s =
      { subtractFromSource topo p (setEnqueueAfterMigration p
          (pendingMigration topo (s.taskCpu p) newCpu) s) with
        taskCpu := update (subtractFromSource topo p (setEnqueueAfterMigration p
          (pendingMigration topo (s.taskCpu p) newCpu) s)).taskCpu p newCpu } := by
    simp only [depart, hflag, ne_eq, not_true, if_false]
  rw [hdepart]
  exact ⟨keepsPools_of_rq rfl rfl, rfl⟩

section
variable (hflag : (s.wts p).enqueueAfterMigration = .none)
include hflag

theorem leg_depart_grp (hgrp : (s.wts p).grp = true) :
    Leg s (depart topo p newCpu s) (s.taskCpu p) (isNewTask (s.wts p))
      (inPool true (s.wts p).time) nothing := by
  obtain ⟨u, hpre, -, hcpu, hwts, hpost, -⟩ := depart_settled topo newCpu hflag
  have hleg := leg_subtractFromSource_grp topo (s := u) (p := p) (by rw [hwts]; exact hgrp)
  rw [hwts, hcpu] at hleg
  exact (hleg.keeps hpost).after hpre

theorem leg_depart_inter (hgrp : (s.wts p).grp = false)
    (hinter : pendingMigration topo (s.taskCpu p) newCpu = .interCluster) :
    Leg s (depart topo p newCpu s) (s.taskCpu p) (isNewTask (s.wts p))
      (inPool false ((s.wts p).cpuTime (s.taskCpu p))) nothing := by
  obtain ⟨u, hpre, -, hcpu, hwts, hpost, -⟩ := depart_settled topo newCpu hflag
  have hleg := leg_subtractFromSource_inter topo (s := u) (p := p) (by rw [hwts]; exact hgrp)
    (by rw [hwts]; exact hinter)
  rw [hwts, hcpu] at hleg
  exact (hleg.keeps hpost).after hpre

theorem depart_loadSubs (cpu : Cpu) : ((depart topo p newCpu s).rq cpu).loadSubs =
      if (s.wts p).grp = false ∧ pendingMigration topo (s.taskCpu p) newCpu = .interCluster ∧
          IsSibling topo (s.taskCpu p) cpu then
        handOver cpu (isNewTask (s.wts p)) (s.rq (s.taskCpu p)) (s.wts p) (s.rq cpu).loadSubs
      else (s.rq cpu).loadSubs := by
  obtain ⟨u, -, hrq, hcpu, hwts, -, hpost⟩ := depart_settled topo newCpu hflag
  rw [hpost, subtractFromSource_loadSubs, hwts, hcpu, hrq]
  rfl

end

theorem keepsPools_depart (h : (s.wts p).enqueueAfterMigration ≠ .none ∨ (s.wts p).grp = false ∧
      pendingMigration topo (s.taskCpu p) newCpu ≠ .interCluster) :
    KeepsPools s (depart topo p newCpu s) ∧
      ∀ cpu, ((depart topo p newCpu s).rq cpu).loadSubs = (s.rq cpu).loadSubs := by
  by_cases hflag : (s.wts p).enqueueAfterMigration = .none
  · obtain ⟨hgrp, hinter⟩ := h.resolve_left (not_not.2 hflag)
    refine ⟨?_, fun cpu => ?_⟩
    · obtain ⟨u, hpre, -, -, hwts, hpost, -⟩ := depart_settled topo newCpu hflag
      have hmid : KeepsPools u (subtractFromSource topo p u) := by
        simp only [subtractFromSource, hwts, hgrp, hinter, Bool.false_eq_true, if_false]
        exact keepsPools_mapTopTasks ..
      exact (hpre.trans hmid).trans hpost
    · rw [depart_loadSubs hflag, if_neg fun h => hinter h.2.1]
  · have hdepart : depart topo p newCpu s =
        { setEnqueueAfterMigration p (pendingMigration topo (s.taskCpu p) newCpu) s with
          taskCpu := update s.taskCpu p newCpu } := by
      simp only [depart, ne_eq, hflag, not_false_eq_true, if_true]
      rfl
    rw [hdepart]
    exact ⟨keepsPools_of_rq rfl rfl, fun _ => rfl⟩

end Depart

section Acts
variable [Fintype Task] {topo : Topology Cpu} {s t : State Task Cpu} {p : Task}

theorem Reserved.of_record (hs : Reserved s) (hsame : SameWindows s t) (hkeeps : KeepsPools s t)
    (hsubs : ∀ cpu, (t.rq cpu).loadSubs = (s.rq cpu).loadSubs)
    (hwts : t.wts = update s.wts p r) (hcpu : ∀ p', p' ≠ p → t.taskCpu p' = s.taskCpu p')
    (hheld : ∀ cpu grp, held t cpu grp p = held s cpu grp p)
    (htime : ∀ cpu, r.cpuTime cpu = (s.wts p).cpuTime cpu) :
    Reserved t ∧ t.busyTimeBug = s.busyTimeBug := by
  refine hs.of_keeps hsame hkeeps hsubs (fun cpu grp p' => ?_) fun p' cpu => ?_
  all_goals by_cases hp : p' = p
  · rw [hp, hheld]
  · exact held_congr (by rw [hwts, update_of_ne hp]) (hcpu p' hp) cpu grp
  · rw [hp, hwts, update_self]
    exact htime cpu
  · rw [hwts, update_of_ne hp]

section
variable (hs : Reserved s) (hgrid : Grid s) (hidle : (s.wts p).idle = false)
  (hfresh : (s.rq (s.taskCpu p)).windowStart ≤ (s.wts p).markStart)
include hs hgrid hidle hfresh

theorem Reserved.depart (newCpu : Cpu) : Reserved (depart topo p newCpu s) ∧
      (depart topo p newCpu s).busyTimeBug = s.busyTimeBug := by
  have hact : act topo s (.depart p newCpu) = some (Walt.depart topo p newCpu s) := rfl
  have hsame := sameWindows_act hact trivial
  have hpending := pendingMigration_ne_none topo (s.taskCpu p) newCpu
  have hwts := depart_wts topo p s newCpu
  have hflags := departed_flags topo (s.taskCpu p) (pendingMigration topo (s.taskCpu p) newCpu)
    (s.wts p)
  have hcpu p' (hp : p' ≠ p) : (Walt.depart topo p newCpu s).taskCpu p' = s.taskCpu p' := by
    rw [(depart_core topo p newCpu s).2.1, update_of_ne hp]
  have hp : (Walt.depart topo p newCpu s).wts p = (s.wts p).departed topo (s.taskCpu p)
      (pendingMigration topo (s.taskCpu p) newCpu) := by rw [hwts, update_self]
  have hidle' : ((Walt.depart topo p newCpu s).wts p).idle = false := by
    rw [hp, hflags.1, hidle]
  have hgrp' : ((Walt.depart topo p newCpu s).wts p).grp = (s.wts p).grp := by rw [hp, hflags.2.1]
  have hflag' : ((Walt.depart topo p newCpu s).wts p).enqueueAfterMigration ≠ .none := by
    rwa [hp, hflags.2.2]
  have hstarted := hgrid.started_of_fresh hfresh
  by_cases hstay : (s.wts p).enqueueAfterMigration ≠ .none ∨ (s.wts p).grp = false ∧
      pendingMigration topo (s.taskCpu p) newCpu ≠ .interCluster
  · obtain ⟨hkeeps, hsubs⟩ := keepsPools_depart hstay
    have hrecord : (s.wts p).departed topo (s.taskCpu p)
          (pendingMigration topo (s.taskCpu p) newCpu) =
        { s.wts p with
          enqueueAfterMigration := pendingMigration topo (s.taskCpu p) newCpu } := by
      refine if_neg fun h => ?_
      rcases hstay with hflag | hinter
      · exact hflag h.1
      · exact hinter.2 h.2.2
    refine hs.of_record hsame hkeeps hsubs hwts hcpu (fun cpu grp => ?_) fun cpu => ?_
    · cases hgrp : (s.wts p).grp with
      | true =>
        have hflag := hstay.resolve_right fun h => by simp [h.1] at hgrp
        rw [held_of_pending hidle hgrp hflag, held_of_pending hidle' (hgrp'.trans hgrp) hflag']
      | false =>
        rw [held_of_ungrouped hidle hgrp, held_of_ungrouped hidle' (hgrp'.trans hgrp), hp, hrecord]
        rfl
    · rw [hrecord]
      rfl
  · simp only [ne_eq, not_or, not_not, not_and] at hstay
    obtain ⟨hflag, hinter⟩ := hstay
    have hontime := hgrid.here p hstarted hflag
    cases hgrp : (s.wts p).grp with
    | true =>
      refine hs.of_leg hgrid hfresh hontime hsame hwts hcpu
        (leg_depart_grp hflag hgrp) (fun grp w => ?_) (fun grp w => ?_) (fun cpu hc grp w => ?_)
        fun cpu => .inl ?_
      · rw [held_of_grp_here hidle hgrp hflag]
      · rw [held_of_grp_here hidle hgrp hflag, held_of_pending hidle' (hgrp'.trans hgrp) hflag']
        simp only [nothing, Nat.zero_add, Nat.add_zero, le_refl]
      · rw [held_of_pending hidle' (hgrp'.trans hgrp) hflag']
        exact Nat.zero_le _
      · rw [depart_loadSubs hflag, if_neg fun h => by simp [h.1] at hgrp]
    | false =>
      have hmove := hinter hgrp
      have htime cpu : ((Walt.depart topo p newCpu s).wts p).cpuTime cpu =
          if sameFreqDomain topo (s.taskCpu p) cpu then fun _ => 0
          else (s.wts p).cpuTime cpu := by
        rw [hp, departed, if_pos ⟨hflag, hgrp, hmove⟩]
        funext w
        cases w <;> simp only [cpuTime, pair] <;> split_ifs <;> rfl
      refine hs.of_leg hgrid hfresh hontime hsame hwts hcpu
        (leg_depart_inter hflag hgrp hmove) (fun grp w => ?_) (fun grp w => ?_)
        (fun cpu hc grp w => ?_) fun cpu => ?_
      · rw [held_of_ungrouped hidle hgrp]
      · have hself : sameFreqDomain topo (s.taskCpu p) (s.taskCpu p) := rfl
        rw [held_of_ungrouped hidle hgrp, held_of_ungrouped hidle' (hgrp'.trans hgrp), htime,
          if_pos hself]
        cases grp <;> simp [inPool, nothing]
      · rw [held_of_ungrouped hidle hgrp, held_of_ungrouped hidle' (hgrp'.trans hgrp), htime]
        split_ifs
        · cases grp <;> simp [inPool]
        · exact le_rfl
      · by_cases hsib : IsSibling topo (s.taskCpu p) cpu
        · refine .inr ⟨hsib.2, ?_, ?_, ?_⟩
          · rw [held_of_ungrouped hidle hgrp]
            rfl
          · rw [held_of_ungrouped hidle' (hgrp'.trans hgrp), htime, if_pos hsib.1]
            rfl
          · rw [depart_loadSubs hflag, if_pos ⟨hgrp, hmove, hsib⟩]
        · exact .inl (by rw [depart_loadSubs hflag, if_neg fun h => hsib h.2.2])

theorem Reserved.arrive (hflag : (s.wts p).enqueueAfterMigration ≠ .none)
    (hontime : (s.wts p).windowStart ≤ (s.rq (s.taskCpu p)).windowStart) :
    Reserved (arrive p s) ∧ (arrive p s).busyTimeBug = s.busyTimeBug := by
  have hsame : SameWindows s (Walt.arrive p s) := .of_fixed (fixed_arrive p s)
  have hwts := arrive_wts p s
  have hp : (Walt.arrive p s).wts p = (s.wts p).arrived (s.taskCpu p) := by
    rw [hwts, update_self]
  obtain ⟨hflags, hgrps, hnone⟩ := arrived_flags (s.taskCpu p) (s.wts p)
  have hcpus := (arrive_core p s).2.1
  have hcpu p' (_ : p' ≠ p) : (Walt.arrive p s).taskCpu p' = s.taskCpu p' := by rw [hcpus]
  have hidle' : ((Walt.arrive p s).wts p).idle = false := by rw [hp, hflags, hidle]
  have hgrp' : ((Walt.arrive p s).wts p).grp = (s.wts p).grp := by rw [hp, hgrps]
  have hflag' : ((Walt.arrive p s).wts p).enqueueAfterMigration = .none := by rw [hp, hnone]
  have hkeeps : KeepsPools (addToDestination p s) (Walt.arrive p s) := keepsPools_setWts ..
  have hsubs cpu : SubsFollow s (Walt.arrive p s) p cpu :=
    .inl (addToDestination_loadSubs p s cpu)
  cases hgrp : (s.wts p).grp with
  | true =>
    have hrecord : (s.wts p).arrived (s.taskCpu p) =
        { s.wts p with enqueueAfterMigration := .none } :=
      if_neg fun h => by simp [h.1] at hgrp
    have htime : ((Walt.arrive p s).wts p).time = (s.wts p).time := by
      rw [hp, hrecord]
      rfl
    refine hs.of_leg hgrid hfresh hontime hsame hwts hcpu
      ((leg_addToDestination_grp hgrp).keeps hkeeps) (fun grp w => Nat.zero_le _) (fun grp w => ?_)
      (fun cpu hc grp w => ?_) hsubs
    · have hhere := held_of_grp_here hidle' (hgrp'.trans hgrp) hflag' grp
      rw [hcpus, htime] at hhere
      rw [hhere, held_of_pending hidle hgrp hflag]
      simp only [nothing, Nat.zero_add, Nat.add_zero, le_refl]
    · rw [held_of_grp hidle' (hgrp'.trans hgrp), hcpus, if_neg fun h => hc h.2.symm]
      cases grp <;> exact Nat.zero_le _
  | false =>
    by_cases hinter : (s.wts p).enqueueAfterMigration = .interCluster
    · have htime cpu : ((Walt.arrive p s).wts p).cpuTime cpu =
          if cpu = s.taskCpu p then (s.wts p).time else (s.wts p).cpuTime cpu := by
        rw [hp, arrived, if_pos ⟨hgrp, hinter⟩]
        funext w
        by_cases hc : cpu = s.taskCpu p
        · subst hc
          cases w <;> simp [cpuTime, time, pair]
        · cases w <;> simp [cpuTime, pair, hc]
      refine hs.of_leg hgrid hfresh hontime hsame hwts hcpu
        ((leg_addToDestination_inter hgrp hinter).keeps hkeeps) (fun grp w => Nat.zero_le _)
        (fun grp w => ?_) (fun cpu hc grp w => ?_) hsubs
      · rw [held_of_ungrouped hidle' (hgrp'.trans hgrp), htime, if_pos rfl]
        exact Nat.le_add_left _ _
      · rw [held_of_ungrouped hidle' (hgrp'.trans hgrp), held_of_ungrouped hidle hgrp, htime,
          if_neg hc]
    · have hrecord : (s.wts p).arrived (s.taskCpu p) =
          { s.wts p with enqueueAfterMigration := .none } := if_neg fun h => hinter h.2
      have hmid : KeepsPools s (addToDestination p s) := by
        simp only [addToDestination, hgrp, hinter, Bool.false_eq_true, if_false]
        exact keepsPools_mapTopTasks ..
      refine hs.of_record hsame (hmid.trans hkeeps) (addToDestination_loadSubs p s) hwts hcpu
        (fun cpu grp => ?_) fun cpu => by rw [hrecord]; rfl
      rw [held_of_ungrouped hidle' (hgrp'.trans hgrp), held_of_ungrouped hidle hgrp, hp, hrecord]
      rfl

theorem Reserved.joinGroup (hgrp : (s.wts p).grp = false)
    (hflag : (s.wts p).enqueueAfterMigration = .none)
    (hnew : newTask = isNewTask (s.wts p)) : Reserved (transferToGroup topo p newTask s) ∧
      (transferToGroup topo p newTask s).busyTimeBug = s.busyTimeBug := by
  have hsame := SameWindows.of_fixed (fixed_transferToGroup topo p newTask s)
  have hwts := joinGroup_wts topo p newTask s
  have hp : (transferToGroup topo p newTask s).wts p = (s.wts p).joined topo (s.taskCpu p) := by
    rw [hwts, update_self]
  have hcpus : (transferToGroup topo p newTask s).taskCpu = s.taskCpu := rfl
  have hheld' cpu grp : held (transferToGroup topo p newTask s) cpu grp p =
      inPool true (if s.taskCpu p = cpu then (s.wts p).time else fun _ => 0) grp := by
    rw [held_of_grp (by rw [hp]; exact hidle) (by rw [hp]; rfl), hp, hcpus]
    have hnone : ((s.wts p).joined topo (s.taskCpu p)).enqueueAfterMigration = .none := hflag
    simp only [hnone, true_and]
    rfl
  have hleg := leg_transferToGroup topo p newTask s
  have hsubs := transferToGroup_loadSubs topo p newTask s
  rw [hnew] at hleg hsubs hsame hwts hheld' ⊢
  have hontime := hgrid.here p (hgrid.started_of_fresh hfresh) hflag
  refine hs.of_leg hgrid hfresh hontime hsame hwts (fun _ _ => rfl) hleg (fun grp w => ?_) (fun grp w => ?_)
    (fun cpu hc grp w => ?_) fun cpu => ?_
  · rw [held_of_ungrouped hidle hgrp]
  · rw [hheld', if_pos rfl, held_of_ungrouped hidle hgrp, Nat.add_comm]
  · rw [hheld', if_neg (Ne.symm hc)]
    cases grp <;> exact Nat.zero_le _
  · by_cases hsib : IsSibling topo (s.taskCpu p) cpu
    · refine .inr ⟨hsib.2, ?_, ?_, ?_⟩
      · rw [held_of_ungrouped hidle hgrp]
        rfl
      · rw [hheld']
        rfl
      · rw [hsubs, if_pos hsib]
    · exact .inl (by rw [hsubs, if_neg hsib])

theorem Reserved.leaveGroup (hgrp : (s.wts p).grp = true)
    (hflag : (s.wts p).enqueueAfterMigration = .none)
    (hnew : newTask = isNewTask (s.wts p)) : Reserved (transferToRq p newTask s) ∧
      (transferToRq p newTask s).busyTimeBug = s.busyTimeBug := by
  have hsame := SameWindows.of_fixed (fixed_transferToRq p newTask s)
  have hwts := leaveGroup_wts p newTask s
  have hp : (transferToRq p newTask s).wts p = (s.wts p).left (s.taskCpu p) := by
    rw [hwts, update_self]
  have hheld' cpu grp : held (transferToRq p newTask s) cpu grp p =
      inPool false (if cpu = s.taskCpu p then (s.wts p).time else fun _ => 0) grp := by
    rw [held_of_ungrouped (by rw [hp]; exact hidle) (by rw [hp]; rfl), hp]
    refine congrFun (congrArg (inPool false) (funext fun w => ?_)) grp
    by_cases hc : cpu = s.taskCpu p
    · subst hc
      cases w <;> simp [left, cpuTime, time, pair]
    · cases w <;> simp [left, cpuTime, pair, hc]
  have hleg := leg_transferToRq p newTask s
  have hsubs := transferToRq_loadSubs p newTask s
  rw [hnew] at hleg hsubs hsame hwts hheld' ⊢
  have hontime := hgrid.here p (hgrid.started_of_fresh hfresh) hflag
  refine hs.of_leg hgrid hfresh hontime hsame hwts (fun _ _ => rfl) hleg (fun grp w => ?_) (fun grp w => ?_)
    (fun cpu hc grp w => ?_) fun cpu => .inl (hsubs cpu)
  · rw [held_of_grp_here hidle hgrp hflag]
  · rw [hheld', if_pos rfl, held_of_grp_here hidle hgrp hflag, Nat.add_comm]
  · rw [hheld', if_neg hc]
    cases grp <;> exact Nat.zero_le _

end

variable (hs : Reserved s)
include hs

/-- The deferred subtractions are covered, so both entries come off without a check firing. -/
theorem Reserved.accountLoadSubtractions (hgrid : Grid s) (c : Cpu) :
    Reserved (accountLoadSubtractions c s) ∧
      (accountLoadSubtractions c s).busyTimeBug = s.busyTimeBug := by
  obtain ⟨ws, hws⟩ : ∃ ws, ws = (s.rq c).windowStart := ⟨_, rfl⟩
  obtain ⟨prevWs, hprevWs⟩ : ∃ prevWs, prevWs = ws - (s.rq c).prevWindowSize := ⟨_, rfl⟩
  have hne : prevWs ≠ ws := by
    have := hgrid.agreed.start_pos c
    have := hs.prev_pos c
    omega
  have hstart w : trackedStart ws (s.rq c).prevWindowSize w = pair ws prevWs w := by
    cases w
    · rfl
    · rw [hprevWs]
      rfl
  have hdeferred new w : deferred (s.rq c) false new w =
      ((s.rq c).loadSubs 0).at (pair ws prevWs w) new +
        ((s.rq c).loadSubs 1).at (pair ws prevWs w) new := by
    rw [deferred, if_neg (by decide), ← hws, hstart, subsAt]
  have hcovered new w : ((s.rq c).loadSubs 0).at (pair ws prevWs w) new +
      ((s.rq c).loadSubs 1).at (pair ws prevWs w) new ≤ (s.rq c).sums.get new w := by
    rw [← hdeferred]
    exact (Nat.le_add_left _ _).trans (hs.covered c false new w)
  have hsums := get_accountLoadSubtraction hne (s.rq c).sums ((s.rq c).loadSubs 0)
  have hzero (start : Nat) (new : Bool) :
      subsAt (fun i => ⟨((s.rq c).loadSubs i).windowStart, 0, 0⟩) start new = 0 := by
    cases new <;> simp [subsAt, LoadSubtractions.at, LoadSubtractions.amount]
  have hself : (Walt.accountLoadSubtractions c s).rq c =
      { s.rq c with
        sums := accountLoadSubtraction ws prevWs ((s.rq c).loadSubs 1)
          (accountLoadSubtraction ws prevWs ((s.rq c).loadSubs 0) (s.rq c).sums)
        loadSubs := fun i => ⟨((s.rq c).loadSubs i).windowStart, 0, 0⟩ } := by
    rw [hprevWs, hws]
    exact update_self ..
  have hother cpu (hc : cpu ≠ c) : (Walt.accountLoadSubtractions c s).rq cpu = s.rq cpu :=
    update_of_ne hc ..
  refine ⟨hs.of_pools (.of_fixed (fixed_accountLoadSubtractions c s)) (fun _ _ _ => rfl)
    (fun _ _ => rfl) (fun cpu grp new w => ?_) (fun cpu => ?_), ?_⟩
  · by_cases hc : cpu = c
    · rw [hc, hself]
      cases grp with
      | true => exact Nat.le_refl _
      | false =>
        rw [hdeferred, deferred, if_neg (by decide), hzero]
        simp only [Wrq.pool, Bool.false_eq_true, if_false, get_accountLoadSubtraction hne]
        omega
    · rw [hother cpu hc]
  · by_cases hc : cpu = c
    · rw [hc, hself]
      exact fun start new _ => hzero start new
    · rw [hother cpu hc]
      exact hs.reached cpu
  · have hfirst := isSubtractionShort_eq_false hne (s.rq c).sums ((s.rq c).loadSubs 0)
      fun new w => (Nat.le_add_right _ _).trans (hcovered new w)
    have hsecond := isSubtractionShort_eq_false hne (s.rq c).sums ((s.rq c).loadSubs 1)
      fun new w => (Nat.le_add_left _ _).trans (hcovered new w)
    have hthird := isSubtractionShort_eq_false hne
      (accountLoadSubtraction ws prevWs ((s.rq c).loadSubs 0) (s.rq c).sums)
      ((s.rq c).loadSubs 1) fun new w => by
        have := hcovered new w
        rw [hsums]
        omega
    simp only [Walt.accountLoadSubtractions, ← hws, ← hprevWs, hfirst, hsecond, hthird,
      Bool.or_false]

theorem Reserved.aside (hsame : SameWindows s t) (h : Aside s t) :
    Reserved t ∧ t.busyTimeBug = s.busyTimeBug := by
  have hrq cpu : (t.rq cpu).loadSubs = (s.rq cpu).loadSubs ∧
      ∀ grp, (t.rq cpu).pool grp = (s.rq cpu).pool grp := by
    obtain ⟨stats, hstats⟩ := h.rq cpu
    rw [hstats]
    exact ⟨rfl, fun _ => rfl⟩
  have hwts p : (t.wts p).time = (s.wts p).time ∧
      ∀ cpu, (t.wts p).cpuTime cpu = (s.wts p).cpuTime cpu := by
    obtain ⟨misfit, rtgHighPrio, prevOnRq, hp⟩ := h.wts p
    rw [hp]
    exact ⟨rfl, fun _ => rfl⟩
  refine hs.of_keeps hsame ⟨fun cpu => (hrq cpu).2, h.busyTimeBug⟩ (fun cpu => (hrq cpu).1)
    (fun cpu grp p => ?_) fun p => (hwts p).2
  obtain ⟨hidle, hgrp, hflag⟩ := h.flags p
  simp only [held, hidle, hgrp, hflag, (hwts p).1, (hwts p).2, h.taskCpu]

theorem Reserved.changeWindow (hgrid : Grid s) {thisCpu : Cpu} {newWindow : Nat}
    (hpos : 0 < newWindow) : Reserved (changeWindow topo thisCpu wallclock newWindow s) := by
  simp only [Walt.changeWindow]
  split_ifs with hchange
  · have hstart cpu : (s.rq cpu).windowStart = (s.rq thisCpu).windowStart := by
      simpa using List.all_eq_true.1 hchange.2.2 cpu (topo.complete cpu)
    have hbehind p cpu : (s.wts p).windowStart ≤ (s.rq cpu).windowStart := by
      by_cases hzero : (s.wts p).markStart = 0
      · rw [(hgrid.unstarted p hzero).1]
        exact Nat.zero_le _
      · obtain ⟨d, hd⟩ := (hgrid.started p hzero).known
        rw [hstart cpu, ← hstart d]
        exact hd
    refine ⟨hs.prev_pos, fun cpu grp new w => ?_, fun cpu grp p => notAhead_of_le (hbehind p cpu),
      hs.reached, hs.unstarted⟩
    have hdue p : due { s with schedRavgWindow := newWindow } cpu grp new w p =
        due s cpu grp new w p := by
      exact congrArg _ (portion_size hgrid.agreed.window_pos hpos (hbehind p cpu) w)
    simp only [hdue]
    exact hs.covered cpu grp new w
  · exact hs

theorem Reserved.update (hgrid : Grid s) {env : Env} {event : TaskEvent} {irqtime : Nat}
    (hok : OnTime s (.update env p event wallclock irqtime))
    (h : waltUpdateTaskRavg env p event wallclock irqtime s = some t) : Reserved t := by
  rcases update_cases h with ⟨rfl, -⟩ | ⟨q, hupd⟩
  · exact hs
  · obtain ⟨k, hin, -, hacc⟩ := update_advance hgrid.agreed.window_pos hok.1 h hupd
    exact (hs.advance hgrid.agreed.window_pos (s.taskCpu p) wallclock k).account
      (hgrid.advance hin) hacc hin.advanced.1 hin.advanced.2 hok.2.2

end Acts
end MsmKernel.Walt
