import MsmKernel.Walt.Acts

/-! What each act does to the task it is about, what the core guarantees when an act is reached,
and the rules that carry an invariant from the acts to whole runs. -/
set_option linter.unusedSectionVars false

namespace MsmKernel.Walt
open Run Function State
variable {Task Cpu : Type} [DecidableEq Task] [DecidableEq Cpu]

namespace Wts

def departed (topo : Topology Cpu) (cpu : Cpu) (pending : PendingMigration) (t : Wts Cpu) :
    Wts Cpu :=
  if t.enqueueAfterMigration = .none ∧ t.grp = false ∧ pending = .interCluster then
    { t with
      currWindowCpu := fun i => if sameFreqDomain topo cpu i then 0 else t.currWindowCpu i
      prevWindowCpu := fun i => if sameFreqDomain topo cpu i then 0 else t.prevWindowCpu i
      enqueueAfterMigration := pending }
  else { t with enqueueAfterMigration := pending }

def arrived (cpu : Cpu) (t : Wts Cpu) : Wts Cpu :=
  if t.grp = false ∧ t.enqueueAfterMigration = .interCluster then
    { t with
      currWindowCpu := update t.currWindowCpu cpu t.currWindow
      prevWindowCpu := update t.prevWindowCpu cpu t.prevWindow
      enqueueAfterMigration := .none }
  else { t with enqueueAfterMigration := .none }

def joined (topo : Topology Cpu) (cpu : Cpu) (t : Wts Cpu) : Wts Cpu :=
  { t with
    currWindowCpu := update
      (fun i => if IsSibling topo cpu i then 0 else t.currWindowCpu i) cpu t.currWindow
    prevWindowCpu := update
      (fun i => if IsSibling topo cpu i then 0 else t.prevWindowCpu i) cpu t.prevWindow
    grp := true }

def left (cpu : Cpu) (t : Wts Cpu) : Wts Cpu :=
  { t with
    currWindowCpu := update (fun _ => 0) cpu t.currWindow
    prevWindowCpu := update (fun _ => 0) cpu t.prevWindow
    grp := false }

end Wts

section Wts
variable (topo : Topology Cpu) (p : Task) (newTask : Bool) (s : State Task Cpu)

theorem updateClusterLoadSubtractions_wts (cpu : Cpu) (ws : Nat) :
    (updateClusterLoadSubtractions topo p cpu ws newTask s).wts = update s.wts p
      { s.wts p with
        currWindowCpu := fun i => if IsSibling topo cpu i then 0 else (s.wts p).currWindowCpu i
        prevWindowCpu := fun i =>
          if IsSibling topo cpu i then 0 else (s.wts p).prevWindowCpu i } := rfl

theorem zero_domain (cpu : Cpu) (f : Cpu → Nat) :
    (fun i => if IsSibling topo cpu i then 0 else update f cpu 0 i) =
      fun i => if sameFreqDomain topo cpu i then 0 else f i := by
  funext i
  by_cases hi : i = cpu
  · subst hi
    simp [IsSibling, sameFreqDomain]
  · simp [IsSibling, hi]

theorem migrateInterClusterSubtraction_wts :
    (migrateInterClusterSubtraction topo p newTask s).wts = update s.wts p
      { s.wts p with
        currWindowCpu := fun i =>
          if sameFreqDomain topo (s.taskCpu p) i then 0 else (s.wts p).currWindowCpu i
        prevWindowCpu := fun i =>
          if sameFreqDomain topo (s.taskCpu p) i then 0 else (s.wts p).prevWindowCpu i } := by
  simp only [migrateInterClusterSubtraction, updateClusterLoadSubtractions_wts, setWts,
    update_self, update_idem, zero_domain]
  rfl

theorem subtractFromSource_wts_keep
    (h : (s.wts p).grp = true ∨ (s.wts p).enqueueAfterMigration ≠ .interCluster) :
    (subtractFromSource topo p s).wts = s.wts := by
  by_cases hgrp : (s.wts p).grp = true
  · simp only [subtractFromSource, hgrp, if_true]
    rfl
  · have hflag := h.resolve_left hgrp
    simp only [subtractFromSource, if_neg hgrp, if_neg hflag]
    rfl

theorem subtractFromSource_wts_inter (hgrp : (s.wts p).grp = false)
    (hflag : (s.wts p).enqueueAfterMigration = .interCluster) :
    (subtractFromSource topo p s).wts =
      (migrateInterClusterSubtraction topo p (isNewTask (s.wts p)) s).wts := by
  simp only [subtractFromSource, hgrp, hflag, Bool.false_eq_true, if_false, if_true]
  rfl

theorem depart_wts (newCpu : Cpu) :
    (depart topo p newCpu s).wts = update s.wts p
      ((s.wts p).departed topo (s.taskCpu p) (pendingMigration topo (s.taskCpu p) newCpu)) := by
  obtain ⟨pending, hpending⟩ : ∃ x, x = pendingMigration topo (s.taskCpu p) newCpu := ⟨_, rfl⟩
  obtain ⟨t, ht⟩ : ∃ t, t = setEnqueueAfterMigration p pending s := ⟨_, rfl⟩
  have htp : t.wts p = { s.wts p with enqueueAfterMigration := pending } := by
    rw [ht]
    exact update_self ..
  by_cases hflag : (s.wts p).enqueueAfterMigration = .none
  · have hdepart : (depart topo p newCpu s).wts = (subtractFromSource topo p t).wts := by
      simp only [depart, hflag, ne_eq, not_true, if_false, ← hpending, ← ht]
    rw [hdepart, ← hpending]
    by_cases hinter : (s.wts p).grp = false ∧ pending = .interCluster
    · rw [subtractFromSource_wts_inter topo p t (by rw [htp, ← hinter.1])
        (by rw [htp, ← hinter.2]), migrateInterClusterSubtraction_wts, htp,
        Wts.departed, if_pos ⟨hflag, hinter⟩, ht]
      exact update_idem ..
    · rw [subtractFromSource_wts_keep topo p t, Wts.departed, if_neg (fun h => hinter h.2), ht]
      · rfl
      · rw [htp]
        rw [not_and] at hinter
        by_cases hgrp : (s.wts p).grp = true
        · exact .inl hgrp
        · exact .inr (hinter (by simpa using hgrp))
  · rw [Wts.departed, if_neg (fun h => hflag h.1), ← hpending]
    simp only [depart, ne_eq, hflag, not_false_eq_true, if_true, ← hpending]
    rfl

theorem arrive_wts : (arrive p s).wts = update s.wts p ((s.wts p).arrived (s.taskCpu p)) := by
  by_cases hgrp : (s.wts p).grp = true
  · have hadd : (addToDestination p s).wts = s.wts := by
      simp only [addToDestination, hgrp, if_true]
      rfl
    simp only [arrive, setEnqueueAfterMigration, setWts, hadd, Wts.arrived, hgrp]
    rfl
  · rw [Bool.not_eq_true] at hgrp
    by_cases hflag : (s.wts p).enqueueAfterMigration = .interCluster
    · have hadd : (addToDestination p s).wts =
          (migrateInterClusterAddition p (isNewTask (s.wts p)) s).wts := by
        simp only [addToDestination, hgrp, hflag, Bool.false_eq_true, if_false, if_true]
        rfl
      simp only [arrive, setEnqueueAfterMigration, setWts, hadd, Wts.arrived, hgrp, hflag,
        and_self, if_true]
      simp [migrateInterClusterAddition, setWts, addSums, setRq, hgrp]
    · have hadd : (addToDestination p s).wts = s.wts := by
        simp only [addToDestination, hgrp, hflag, Bool.false_eq_true, if_false]
        rfl
      simp only [arrive, setEnqueueAfterMigration, setWts, hadd, Wts.arrived, hflag, and_false,
        if_false]

theorem joinGroup_wts : (transferToGroup topo p newTask s).wts =
    update s.wts p ((s.wts p).joined topo (s.taskCpu p)) := by
  simp [transferToGroup, setWts, addGrpTime, setRq,
    updateClusterLoadSubtractions_wts, subSums, Wts.joined]

theorem leaveGroup_wts : (transferToRq p newTask s).wts =
    update s.wts p ((s.wts p).left (s.taskCpu p)) := rfl

end Wts
structure SameWindows (s t : State Task Cpu) : Prop where
  schedRavgWindow : t.schedRavgWindow = s.schedRavgWindow
  lastqWs : t.waltIrqWorkLastqWs = s.waltIrqWorkLastqWs
  rq : ∀ cpu, SameRqWindow (s.rq cpu) (t.rq cpu)
  wts : ∀ p, SameTask (s.wts p) (t.wts p)

theorem SameWindows.of_fixed {s t : State Task Cpu} {cpus : Task → Cpu}
    (h : t.fixed = { s.fixed with taskCpu := cpus }) : SameWindows s t := by
  have hrq cpu : (t.rq cpu).fixed = (s.rq cpu).fixed := congrArg (fun u => u.rq cpu) h
  have hwts p : (t.wts p).fixed = (s.wts p).fixed := congrArg (fun u => u.wts p) h
  refine ⟨(congrArg State.schedRavgWindow h :), (congrArg State.waltIrqWorkLastqWs h :),
    fun cpu => ?_, fun p => ?_⟩
  · exact ⟨(congrArg Wrq.windowStart (hrq cpu) :), (congrArg Wrq.prevWindowSize (hrq cpu) :),
      (congrArg Wrq.latestClock (hrq cpu) :)⟩
  · exact ⟨(congrArg Wts.idle (hwts p) :), (congrArg Wts.markStart (hwts p) :),
      (congrArg Wts.windowStart (hwts p) :), (congrArg Wts.currWindow (hwts p) :),
      (congrArg Wts.prevWindow (hwts p) :), (congrArg Wts.activeTime (hwts p) :)⟩

theorem fixed_depart (topo : Topology Cpu) (p : Task) (newCpu : Cpu) (s : State Task Cpu) :
    (depart topo p newCpu s).fixed = { s.fixed with taskCpu := update s.taskCpu p newCpu } := by
  have hmove {u : State Task Cpu} (h : u.fixed = s.fixed) :
      ({ u with taskCpu := update u.taskCpu p newCpu } : State Task Cpu).fixed =
        { s.fixed with taskCpu := update s.taskCpu p newCpu } :=
    congrArg (fun v => { v with taskCpu := update v.taskCpu p newCpu }) h
  simp only [depart]
  split_ifs
  · exact hmove (fixed_setWts (by rfl))
  · exact hmove ((fixed_subtractFromSource ..).trans (fixed_setWts (by rfl)))

theorem fixed_arrive (p : Task) (s : State Task Cpu) : (arrive p s).fixed = s.fixed :=
  (fixed_setWts (by rfl)).trans (fixed_addToDestination p s)

/- The acts of the queue and of the core leave all busy time alone: the runqueues change in their
totals only, the tasks in three fields that no busy time depends on. -/
structure Aside (s t : State Task Cpu) : Prop where
  schedRavgWindow : t.schedRavgWindow = s.schedRavgWindow
  taskCpu : t.taskCpu = s.taskCpu
  busyTimeBug : t.busyTimeBug = s.busyTimeBug
  rq : ∀ cpu, ∃ stats, t.rq cpu = { s.rq cpu with stats }
  wts : ∀ p, ∃ misfit rtgHighPrio prevOnRq, t.wts p = { s.wts p with misfit, rtgHighPrio, prevOnRq }

theorem Aside.of_eq {s t : State Task Cpu} (hW : t.schedRavgWindow = s.schedRavgWindow)
    (hcpu : t.taskCpu = s.taskCpu) (hbug : t.busyTimeBug = s.busyTimeBug) (hrq : t.rq = s.rq)
    (hwts : t.wts = s.wts) : Aside s t :=
  ⟨hW, hcpu, hbug, fun _ => ⟨_, by rw [hrq]⟩, fun _ => ⟨_, _, _, by rw [hwts]⟩⟩

theorem Aside.sameWindows {s t : State Task Cpu} (h : Aside s t)
    (hlastq : t.waltIrqWorkLastqWs = s.waltIrqWorkLastqWs) : SameWindows s t := by
  refine ⟨h.schedRavgWindow, hlastq, fun cpu => ?_, fun p => ?_⟩
  · obtain ⟨stats, hrq⟩ := h.rq cpu
    rw [hrq]
    exact ⟨rfl, rfl, rfl⟩
  · obtain ⟨misfit, rtgHighPrio, prevOnRq, hwts⟩ := h.wts p
    rw [hwts]
    exact ⟨rfl, rfl, rfl, rfl, rfl, rfl⟩

theorem aside_setStats (s : State Task Cpu) (p : Task) (cpu : Cpu) (misfit rtgHighPrio : Bool)
    (prevOnRq : PrevOnRq) (stats : WaltSchedStats) :
    Aside s ((s.setWts p { s.wts p with misfit, rtgHighPrio, prevOnRq }).setStats cpu stats) := by
  refine ⟨rfl, rfl, rfl, fun c => ?_, fun p' => ?_⟩
  · by_cases hc : c = cpu
    · subst hc
      exact ⟨stats, update_self ..⟩
    · exact ⟨_, update_of_ne hc ..⟩
  · by_cases hp : p' = p
    · subst hp
      exact ⟨misfit, rtgHighPrio, prevOnRq, update_self ..⟩
    · exact ⟨_, _, _, update_of_ne hp ..⟩

theorem aside_enqueueStats (p : Task) (fitsMax rtgHighPrio : Bool) (s : State Task Cpu) :
    Aside s (enqueueStats p fitsMax rtgHighPrio s) := by
  simp only [enqueueStats]
  split_ifs <;> exact aside_setStats s p _ _ _ _ _

def Act.IsAside : Act Task Cpu → Prop
  | .switch _ _ | .enqueue _ _ _ | .dequeue _ | .misfit _ _ _ | .setClass _ _ => True
  | _ => False

section
variable {topo : Topology Cpu} {s t : State Task Cpu} {a : Act Task Cpu} (h : act topo s a = some t)
include h

theorem aside_act (ha : a.IsAside) : Aside s t := by
  cases a <;> try obtain rfl := Option.some.inj h
  case switch cpu next | setClass p fair => exact .of_eq rfl rfl rfl rfl rfl
  case enqueue p fitsMax rtgHighPrio =>
    have h := aside_enqueueStats p fitsMax rtgHighPrio s
    exact ⟨h.1, h.2, h.3, h.4, h.5⟩
  case dequeue p =>
    have h := aside_setStats (s.setQueued p false) p
    exact ⟨rfl, rfl, rfl, (h _ _ _ _ _).4, (h _ _ _ _ _).5⟩
  case misfit p fitsMax taskUtil => exact aside_setStats s p _ _ _ _ _
  case update _ _ _ _ _ | depart _ _ | arrive _ | joinGroup _ _ | leaveGroup _ _ | accountSubs _
  | changeWindow _ _ _ => exact absurd ha id

def Act.KeepsWindows : Act Task Cpu → Prop
  | .update _ _ _ _ _ | .changeWindow _ _ _ => False
  | _ => True

/-- Only an update and a change of the window size touch a clock or a window. -/
theorem sameWindows_act (ha : a.KeepsWindows) : SameWindows s t := by
  cases a <;> try obtain rfl := Option.some.inj h
  case update _ _ _ _ _ | changeWindow _ _ _ => exact absurd ha id
  case depart p newCpu => exact .of_fixed (fixed_depart ..)
  case arrive p => exact .of_fixed (fixed_arrive ..)
  case joinGroup p newTask => exact .of_fixed (fixed_transferToGroup ..)
  case leaveGroup p newTask => exact .of_fixed (fixed_transferToRq ..)
  case accountSubs cpu => exact .of_fixed (fixed_accountLoadSubtractions ..)
  case switch _ _ | enqueue _ _ _ | dequeue _ | misfit _ _ _ | setClass _ _ =>
    exact (aside_act h trivial).sameWindows rfl

end

def Ready (s : State Task Cpu) : Act Task Cpu → Prop
  | .update _ _ _ _ _ => True
  | .depart p _ => (s.wts p).idle = false ∧ s.queued p = false ∧ s.curr (s.taskCpu p) ≠ p
  | .arrive p => (s.wts p).enqueueAfterMigration ≠ .none
  | .joinGroup p _ =>
    (s.wts p).idle = false ∧ (s.wts p).grp = false ∧ (s.wts p).enqueueAfterMigration = .none
  | .leaveGroup p _ => (s.wts p).grp = true ∧ (s.wts p).enqueueAfterMigration = .none
  | .accountSubs _ => True
  | .switch cpu next => s.taskCpu next = cpu ∧ (s.queued next = true ∨ (s.wts next).idle = true)
  | .enqueue p _ _ => s.queued p = false ∧ (s.wts p).enqueueAfterMigration = .none
  | .dequeue p => s.queued p = true
  | .misfit p _ _ => s.queued p = true ∧ s.waltFairTask p = true
  | .setClass p _ => s.queued p = false
  | .changeWindow _ _ newWindow => 0 < newWindow

variable {e : Event Task Cpu} {es : List (Event Task Cpu)}

section Along
variable {topo : Topology Cpu} {ok : State Task Cpu → Act Task Cpu → Prop}
  {s t : State Task Cpu} {env : Env} {p : Task} {event : TaskEvent} {wallclock irqtime : Nat}
  {as : List (Act Task Cpu)}

theorem along_update (hok : ok s (.update env p event wallclock irqtime))
    (h : ∀ t, waltUpdateTaskRavg env p event wallclock irqtime s = some t →
      Along (act topo) ok t as) :
    Along (act topo) ok s (.update env p event wallclock irqtime :: as) := by
  refine ⟨hok, ?_⟩
  cases hu : waltUpdateTaskRavg env p event wallclock irqtime s with
  | none => simp [act, hu]
  | some t => simpa [act, hu] using h t hu

theorem along_irqWorkActs {env : Cpu → Env}
    (hupdate : ∀ s env p wallclock, ok s (.update env p .taskUpdate wallclock 0))
    (hsubs : ∀ s cpu, ok s (.accountSubs cpu)) (s : State Task Cpu) (cpus : List Cpu) (t) :
    Along (act topo) ok t (irqWorkActs env wallclock s cpus) := by
  induction cpus generalizing t with
  | nil => trivial
  | cons cpu cpus ih => exact along_update (hupdate _ _ _ _) fun u _ => ⟨hsubs _ _, ih _⟩

theorem along_consumeActs
    (hupdate : ∀ s env p wallclock, ok s (.update env p .taskUpdate wallclock 0))
    (harrive : ∀ s p, Ready s (.arrive p) → ok s (.arrive p)) :
    Along (act topo) ok s (consumeActs env p wallclock s) := by
  simp only [consumeActs]
  split_ifs with hflag
  · refine along_update (hupdate _ _ _ _) fun t ht => ⟨harrive t p ?_, trivial⟩
    rwa [Ready, ((updateFrame ht).flags p).pending]
  · trivial

structure ConsumeFrame (p : Task) (s t : State Task Cpu) : Prop where
  curr : t.curr = s.curr
  taskCpu : t.taskCpu = s.taskCpu
  queued : t.queued = s.queued
  idle : (t.wts p).idle = (s.wts p).idle
  grp : (t.wts p).grp = (s.wts p).grp
  settled : (t.wts p).enqueueAfterMigration = .none

theorem arrived_flags (cpu : Cpu) (r : Wts Cpu) :
    (r.arrived cpu).idle = r.idle ∧ (r.arrived cpu).grp = r.grp ∧
      (r.arrived cpu).enqueueAfterMigration = .none := by
  simp only [Wts.arrived]
  split_ifs <;> exact ⟨rfl, rfl, rfl⟩

theorem arrive_core (p : Task) (s : State Task Cpu) :
    (arrive p s).curr = s.curr ∧ (arrive p s).taskCpu = s.taskCpu ∧
      (arrive p s).queued = s.queued ∧ (arrive p s).fair = s.fair := by
  simp only [arrive, addToDestination]
  split_ifs <;> exact ⟨rfl, rfl, rfl, rfl⟩

theorem depart_core (topo : Topology Cpu) (p : Task) (newCpu : Cpu) (s : State Task Cpu) :
    (depart topo p newCpu s).curr = s.curr ∧
      (depart topo p newCpu s).taskCpu = update s.taskCpu p newCpu ∧
      (depart topo p newCpu s).queued = s.queued ∧ (depart topo p newCpu s).fair = s.fair := by
  simp only [depart, subtractFromSource]
  split_ifs <;> exact ⟨rfl, rfl, rfl, rfl⟩

theorem consumeFrame (h : run (act topo) s (consumeActs env p wallclock s) = some t) :
    ConsumeFrame p s t := by
  simp only [consumeActs] at h
  split_ifs at h with hflag
  · obtain ⟨u, hu, h⟩ := Option.bind_eq_some_iff.1 h
    have ht : t = arrive p u := (Option.some.inj h).symm
    have hframe := updateFrame hu
    obtain ⟨hcurr, hcpu, hqueued, -⟩ := arrive_core p u
    have hwts : t.wts p = (u.wts p).arrived (u.taskCpu p) := by
      rw [ht, arrive_wts, update_self]
    obtain ⟨hidle, hgrp, hnone⟩ := arrived_flags (u.taskCpu p) (u.wts p)
    refine ⟨?_, ?_, ?_, ?_, ?_, ?_⟩
    · rw [ht, hcurr, hframe.curr]
    · rw [ht, hcpu, hframe.taskCpu]
    · rw [ht, hqueued, hframe.queued]
    · rw [hwts, hidle, (hframe.flags p).idle]
    · rw [hwts, hgrp, (hframe.flags p).grp]
    · rw [hwts, hnone]
  · obtain rfl := Option.some.inj h
    exact ⟨rfl, rfl, rfl, rfl, rfl, by simpa using hflag⟩

theorem along_transfer {env' : Env} {wallclock' : Nat} {a : Act Task Cpu}
    (hupdate : ∀ s env p wallclock, ok s (.update env p .taskUpdate wallclock 0))
    (harrive : ∀ s p, Ready s (.arrive p) → ok s (.arrive p))
    (hlast : ∀ t, ConsumeFrame p s t → ok t a) :
    Along (act topo) ok s
      (.update env p .taskUpdate wallclock 0 :: (consumeActs env' p wallclock' s ++ [a])) := by
  refine along_update (hupdate _ _ _ _) fun u hu => ?_
  have hframe := updateFrame hu
  rw [← consumeActs_congr (hframe.flags p).pending]
  refine along_append.2 ⟨along_consumeActs hupdate harrive, fun t ht => ⟨hlast t ?_, ?_⟩⟩
  · have h := consumeFrame ht
    exact ⟨h.curr.trans hframe.curr, h.taskCpu.trans hframe.taskCpu,
      h.queued.trans hframe.queued, h.idle.trans (hframe.flags p).idle,
      h.grp.trans (hframe.flags p).grp, h.settled⟩
  · cases act topo t a <;> trivial

theorem along_ready (h : Issued s e) : Along (act topo) Ready s (acts topo s e) := by
  have hupdate (s : State Task Cpu) (env p wallclock) :
      Ready s (.update env p .taskUpdate wallclock 0) := trivial
  have hsubs (s : State Task Cpu) (cpu) : Ready s (.accountSubs cpu) := trivial
  have harrive (s : State Task Cpu) (p) (h : Ready s (.arrive p)) : Ready s (.arrive p) := h
  cases e with
  | ravg env p event wallclock irqtime => exact along_update trivial fun _ _ => trivial
  | tryToWakeUp env env' p inIowait wallclock =>
    refine along_append.2 ⟨?_, fun t _ => along_update trivial fun _ _ => trivial⟩
    split_ifs
    · exact along_update trivial fun _ _ => trivial
    · trivial
  | schedule env env' cpu next wallclock =>
    simp only [acts]
    split_ifs with hne
    · refine along_update trivial fun t ht => along_update trivial fun u hu => ⟨?_, trivial⟩
      have ht := updateFrame ht
      have hu := updateFrame hu
      rw [Ready, hu.taskCpu, ht.taskCpu, hu.queued, ht.queued, (hu.flags next).idle,
        (ht.flags next).idle]
      refine ⟨h.1, ?_⟩
      rcases h.2 with hq | hidle | hcurr
      · exact .inl hq
      · exact .inr hidle
      · exact absurd hcurr hne
    · exact along_update trivial fun _ _ => trivial
  | tickEntry | accountIrq => exact along_update trivial fun _ _ => trivial
  | setTaskCpu env p newCpu wallclock =>
    refine along_update trivial fun t ht => ⟨?_, trivial⟩
    have ht := updateFrame ht
    rw [Ready, ht.curr, ht.queued, ht.taskCpu, (ht.flags p).idle]
    exact h
  | enqueueTask env p schedDelayed enqueueDelayed wallclock fitsMax rtgHighPrio =>
    simp only [acts]
    split_ifs with hskip
    · trivial
    · refine along_append.2 ⟨along_consumeActs hupdate harrive, fun t ht => ⟨?_, trivial⟩⟩
      have ht := consumeFrame ht
      have hqueued := h.resolve_left fun hd => hskip ⟨hd.1, by simp [hd.2]⟩
      rw [Ready, ht.queued]
      exact ⟨hqueued, ht.settled⟩
  | dequeueTask p schedDelayed =>
    simp only [acts]
    split_ifs with hskip
    · trivial
    · exact ⟨h.resolve_left hskip, trivial⟩
  | addTaskToGroup env env' p wallclock wallclock' =>
    refine along_transfer hupdate harrive fun t ht => ?_
    rw [Ready, ht.idle, ht.grp]
    exact ⟨h.1, h.2, ht.settled⟩
  | removeTaskFromGroup env env' p wallclock wallclock' =>
    refine along_transfer hupdate harrive fun t ht => ?_
    rw [Ready, ht.grp]
    exact ⟨h, ht.settled⟩
  | migrationIrqWork env lockCpus wallclock => exact along_irqWorkActs hupdate hsubs s _ s
  | rolloverIrqWork env thisCpu wallclock newWindow =>
    exact along_append.2 ⟨along_irqWorkActs hupdate hsubs s _ s, fun t _ => ⟨h, trivial⟩⟩
  | _ => exact ⟨h, trivial⟩

end Along

/- Every act of the event meets `ok`, in the state before the act. -/
def Throughout (topo : Topology Cpu) (ok : State Task Cpu → Act Task Cpu → Prop)
    (s : State Task Cpu) (e : Event Task Cpu) : Prop :=
  Along (act topo) ok s (acts topo s e)

instance (topo : Topology Cpu) (ok : State Task Cpu → Act Task Cpu → Prop)
    [∀ s a, Decidable (ok s a)] (s : State Task Cpu) (e : Event Task Cpu) :
    Decidable (Throughout topo ok s e) := by
  unfold Throughout
  infer_instance

/- The acts that move busy time, and the events that have such an act. -/
def Act.Moves : Act Task Cpu → Prop
  | .depart _ _ | .arrive _ | .joinGroup _ _ | .leaveGroup _ _ => True
  | _ => False

def Event.Quiet : Event Task Cpu → Prop
  | .setTaskCpu _ _ _ _ | .enqueueTask _ _ _ _ _ _ _ | .addTaskToGroup _ _ _ _ _
  | .removeTaskFromGroup _ _ _ _ _ => False
  | _ => True

theorem throughout_quiet {topo : Topology Cpu} {ok : State Task Cpu → Act Task Cpu → Prop}
    {s : State Task Cpu} (hquiet : ∀ s a, ¬ Act.Moves a → ok s a) (he : e.Quiet) :
    Throughout topo ok s e := by
  have hirq {env : Cpu → Env} {wallclock} (s : State Task Cpu) (cpus) :
      ∀ a ∈ irqWorkActs env wallclock s cpus, ¬ Act.Moves a := by
    intro a ha
    induction cpus with
    | nil => cases ha
    | cons cpu cpus ih =>
      rcases List.mem_cons.1 ha with rfl | ha
      · exact id
      · rcases List.mem_cons.1 ha with rfl | ha
        · exact id
        · exact ih ha
  refine along_mono (I := fun _ => True) (fun s _ _ h => h s) (fun _ _ _ _ _ _ => trivial) trivial
    (along_of_mem fun a ha s => hquiet s a ?_)
  cases e with
  | migrationIrqWork env lockCpus wallclock => exact hirq _ _ a ha
  | rolloverIrqWork env thisCpu wallclock newWindow =>
    rcases List.mem_append.1 ha with ha | ha
    · exact hirq _ _ a ha
    · obtain rfl := List.mem_singleton.1 ha
      exact id
  | setTaskCpu _ _ _ _ | enqueueTask _ _ _ _ _ _ _ | addTaskToGroup _ _ _ _ _
  | removeTaskFromGroup _ _ _ _ _ => exact absurd he id
  | _ =>
    simp only [acts] at ha
    grind [Act.Moves]

section Rules
variable {topo : Topology Cpu} {ok : State Task Cpu → Act Task Cpu → Prop}
  {I : State Task Cpu → Prop} {s t : State Task Cpu}

section
variable (hact : ∀ s a t, I s → Ready s a → ok s a → act topo s a = some t → I t) (hs : I s)
include hact hs

theorem step_invariant (hok : Throughout topo ok s e) (h : step topo s e = some t) : I t := by
  simp only [step] at h
  split_ifs at h with hissued
  rw [perform_eq] at h
  have hboth : Along (act topo) (fun s a => Ready s a ∧ ok s a) s (acts topo s e) :=
    along_and.2 ⟨along_ready hissued, hok⟩
  exact run_invariant (fun s a t hs hok => hact s a t hs hok.1 hok.2) hs hboth h

theorem reachable_invariant (hok : Along (step topo) (Throughout topo ok) s es)
    (h : run (step topo) s es = some t) : I t :=
  run_invariant (fun _ _ _ hs hok h => step_invariant hact hs hok h) hs hok h

end

theorem reachable_invariant_of_ready
    (hact : ∀ s a t, I s → Ready s a → act topo s a = some t → I t) (hs : I s)
    (h : run (step topo) s es = some t) : I t := by
  refine run_invariant (fun s e t hs _ h => ?_) hs (along_true s es) h
  exact step_invariant (fun s a t hs hready _ h => hact s a t hs hready h) hs (along_true _ _) h

end Rules
section Machine

/- A machine with a cluster of two CPUs and a cluster of one; tasks 0, 1 and 2 are the idle tasks,
task 3 is on CPU 0 and task 4 on CPU 1. -/
def littleBig : Topology (Fin 3) where
  cluster := fun cpu => if cpu.val < 2 then 0 else 1
  cpus := [0, 1, 2]
  nodup := by decide
  complete := by decide

def littleBigCore : Core (Fin 5) (Fin 3) where
  idle := fun p => decide (p.val < 3)
  curr := fun cpu => cpu.castLE (by decide)
  taskCpu := fun p => if h : p.val < 3 then ⟨p.val, h⟩ else if p = 3 then 0 else 1
  queued := fun _ => false
  fair := fun _ => true
  curr_cpu := by decide

def plainEnv : Env :=
  ⟨1024, false, 0, false, false, .maxRecentAvg, false, false, 0, 1024, 1024⟩

end Machine
end MsmKernel.Walt
