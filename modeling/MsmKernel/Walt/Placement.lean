import MsmKernel.Walt.Effects

/-! Who is accounted: a task with a migration pending is neither queued nor running, so the hooks
add busy time only to tasks that are settled on their CPU. -/
set_option linter.unusedSectionVars false

namespace MsmKernel.Walt
open Run Function
variable {Task Cpu : Type} [DecidableEq Task] [DecidableEq Cpu]

structure Placed (s : State Task Cpu) : Prop where
  curr_cpu : ∀ cpu, s.taskCpu (s.curr cpu) = cpu
  settled : ∀ p, s.queued p = true ∨ (s.wts p).idle = true ∨ s.curr (s.taskCpu p) = p →
    (s.wts p).enqueueAfterMigration = .none
  idle_grp : ∀ p, (s.wts p).idle = true → (s.wts p).grp = false

section Placed
variable {topo : Topology Cpu} {s t : State Task Cpu}

theorem placed_init (core : Core Task Cpu) (window tick : Nat) :
    Placed (waltInitStopHandler core window tick) :=
  ⟨core.curr_cpu, fun _ _ => rfl, fun _ _ => rfl⟩

section
variable (hs : Placed s) (hcurr : t.curr = s.curr) (hcpu : t.taskCpu = s.taskCpu)
include hs hcurr hcpu

theorem Placed.of_same
    (hqueued : ∀ p, t.queued p = true → s.queued p = true ∨ (s.wts p).enqueueAfterMigration = .none)
    (hflags : ∀ p, (t.wts p).idle = (s.wts p).idle ∧ (t.wts p).grp = (s.wts p).grp ∧ (t.wts p).enqueueAfterMigration = (s.wts p).enqueueAfterMigration) :
    Placed t := by
  refine ⟨fun cpu => ?_, fun p hp => ?_, fun p hp => ?_⟩
  · rw [hcurr, hcpu]
    exact hs.curr_cpu cpu
  · rw [(hflags p).2.2]
    rw [hcurr, hcpu, (hflags p).1] at hp
    rcases hp with hq | hp
    · exact (hqueued p hq).elim (fun h => hs.settled p (.inl h)) id
    · exact hs.settled p (.inr hp)
  · rw [(hflags p).2.1]
    exact hs.idle_grp p ((hflags p).1 ▸ hp)

theorem Placed.of_wts {p : Task} {r : Wts Cpu} (hqueued : t.queued = s.queued)
    (hwts : t.wts = update s.wts p r) (hgrp : r.idle = true → r.grp = false)
    (hflag : r.enqueueAfterMigration = .none) : Placed t := by
  refine ⟨fun cpu => ?_, fun p' hp' => ?_, fun p' hp' => ?_⟩
  · rw [hcurr, hcpu]
    exact hs.curr_cpu cpu
  · by_cases hne : p' = p
    · rw [hwts, hne, update_self, hflag]
    · rw [hwts, update_of_ne hne] at hp' ⊢
      rw [hcurr, hcpu, hqueued] at hp'
      exact hs.settled p' hp'
  · by_cases hne : p' = p
    · rw [hwts, hne, update_self] at hp' ⊢
      exact hgrp hp'
    · rw [hwts, update_of_ne hne] at hp' ⊢
      exact hs.idle_grp p' hp'

end

theorem Placed.not_curr (hs : Placed s) {p : Task} (hp : s.curr (s.taskCpu p) ≠ p) (cpu : Cpu) :
    s.curr cpu ≠ p := fun h => hp (by
  have hcpu := hs.curr_cpu cpu
  rw [h] at hcpu
  rw [hcpu, h])

theorem departed_flags (topo : Topology Cpu) (cpu : Cpu) (pending : PendingMigration)
    (r : Wts Cpu) : (r.departed topo cpu pending).idle = r.idle ∧
      (r.departed topo cpu pending).grp = r.grp ∧
      (r.departed topo cpu pending).enqueueAfterMigration = pending := by
  simp only [Wts.departed]
  split_ifs <;> exact ⟨rfl, rfl, rfl⟩

theorem Placed.depart (hs : Placed s) {p : Task} {newCpu : Cpu} (hidle : (s.wts p).idle = false)
    (hqueued : s.queued p = false) (hcurr : s.curr (s.taskCpu p) ≠ p) :
    Placed (depart topo p newCpu s) := by
  obtain ⟨hc, hcpu, hq, -⟩ := depart_core topo p newCpu s
  have hnot := hs.not_curr hcurr
  have hflags := departed_flags topo (s.taskCpu p)
    (pendingMigration topo (s.taskCpu p) newCpu) (s.wts p)
  refine ⟨fun cpu => ?_, fun p' hp' => ?_, fun p' hp' => ?_⟩
  · rw [hc, hcpu, update_of_ne (hnot cpu)]
    exact hs.curr_cpu cpu
  · by_cases hne : p' = p
    · subst hne
      rw [hq, hqueued, depart_wts, update_self, hflags.1, hidle, hc] at hp'
      rcases hp' with h | h | h
      · exact Bool.noConfusion h
      · exact Bool.noConfusion h
      · exact absurd h (hnot _)
    · rw [depart_wts, update_of_ne hne] at hp' ⊢
      rw [hq, hc, hcpu, update_of_ne hne] at hp'
      exact hs.settled p' hp'
  · by_cases hne : p' = p
    · subst hne
      rw [depart_wts, update_self, hflags.1, hidle] at hp'
      exact Bool.noConfusion hp'
    · rw [depart_wts, update_of_ne hne] at hp' ⊢
      exact hs.idle_grp p' hp'

theorem Placed.switch (hs : Placed s) {cpu : Cpu} {next : Task} (hcpu : s.taskCpu next = cpu)
    (hnext : s.queued next = true ∨ (s.wts next).idle = true) :
    Placed { s with curr := update s.curr cpu next } := by
  refine ⟨fun c => ?_, fun p hp => ?_, hs.idle_grp⟩
  · by_cases hc : c = cpu
    · subst hc
      simpa using hcpu
    · simpa [hc] using hs.curr_cpu c
  · by_cases hc : s.taskCpu p = cpu
    · by_cases hp' : next = p
      · subst hp'
        exact hs.settled next (hnext.imp_right .inl)
      · have hp : s.queued p = true ∨ (s.wts p).idle = true := by simpa [hc, hp'] using hp
        exact hs.settled p (hp.imp_right .inl)
    · exact hs.settled p (by simpa [hc] using hp)

theorem Aside.flags (h : Aside s t) (p : Task) : (t.wts p).idle = (s.wts p).idle ∧
    (t.wts p).grp = (s.wts p).grp ∧
    (t.wts p).enqueueAfterMigration = (s.wts p).enqueueAfterMigration := by
  obtain ⟨misfit, rtgHighPrio, prevOnRq, hp⟩ := h.wts p
  rw [hp]
  exact ⟨rfl, rfl, rfl⟩

theorem Placed.act {a : Act Task Cpu} (hs : Placed s) (hready : Ready s a)
    (h : act topo s a = some t) : Placed t := by
  cases a <;> try obtain rfl := Option.some.inj h
  case update env p event wallclock irqtime =>
    have hframe := updateFrame h
    exact hs.of_same hframe.curr hframe.taskCpu (fun p h => .inl (by rwa [hframe.queued] at h))
      fun p => ⟨(hframe.flags p).idle, (hframe.flags p).grp, (hframe.flags p).pending⟩
  case depart p newCpu => exact hs.depart hready.1 hready.2.1 hready.2.2
  case arrive p =>
    obtain ⟨hcurr, hcpu, hqueued, -⟩ := arrive_core p s
    obtain ⟨hidle, hgrp, hflag⟩ := arrived_flags (s.taskCpu p) (s.wts p)
    refine hs.of_wts hcurr hcpu hqueued (arrive_wts p s) (fun hi => ?_) hflag
    rw [hgrp]
    exact hs.idle_grp p (hidle ▸ hi)
  case joinGroup p newTask =>
    refine hs.of_wts rfl rfl rfl (joinGroup_wts topo p newTask s) (fun hi => ?_) hready.2.2
    rw [show ((s.wts p).joined topo (s.taskCpu p)).idle = (s.wts p).idle from rfl, hready.1] at hi
    exact Bool.noConfusion hi
  case leaveGroup p newTask =>
    exact hs.of_wts rfl rfl rfl (leaveGroup_wts p newTask s) (fun _ => rfl) hready.2
  case accountSubs cpu | setClass p fair =>
    exact hs.of_same rfl rfl (fun _ => .inl) fun _ => ⟨rfl, rfl, rfl⟩
  case switch cpu next => exact hs.switch hready.1 hready.2
  case enqueue p fitsMax rtgHighPrio =>
    refine hs.of_same rfl rfl (fun p' hq => ?_) (aside_act h trivial).flags
    by_cases hp : p' = p
    · exact .inr (hp ▸ hready.2)
    · exact .inl ((update_of_ne hp _ _).symm.trans hq)
  case dequeue p =>
    refine hs.of_same rfl rfl (fun p' hq => .inl ?_) (aside_act h trivial).flags
    by_cases hp : p' = p
    · exact hp ▸ hready
    · exact (update_of_ne hp _ _).symm.trans hq
  case misfit p fitsMax taskUtil =>
    exact hs.of_same rfl rfl (fun _ => .inl) (aside_act h trivial).flags
  case changeWindow thisCpu wallclock newWindow =>
    simp only [Walt.changeWindow]
    split_ifs
    · exact hs.of_same rfl rfl (fun _ => .inl) fun _ => ⟨rfl, rfl, rfl⟩
    · exact hs

end Placed

/- PUT_PREV_TASK and IRQ_UPDATE are events of the running task. -/
def CoreCall (s : State Task Cpu) : Act Task Cpu → Prop
  | .update _ p event _ _ =>
    event = .putPrevTask ∨ event = .irqUpdate → s.curr (s.taskCpu p) = p
  | _ => True

/- A direct call of walt_update_task_ravg keeps to that rule; the hooks always do. -/
def HookCall (s : State Task Cpu) : Event Task Cpu → Prop
  | .ravg _ p event _ _ => event = .putPrevTask ∨ event = .irqUpdate → s.curr (s.taskCpu p) = p
  | _ => True

instance decidableHookCall (s : State Task Cpu) : ∀ e, Decidable (HookCall s e) := by
  rintro (_ | _) <;> (dsimp only [HookCall]; infer_instance)

section Hooks
variable {topo : Topology Cpu} {s t : State Task Cpu}

theorem throughout_coreCall (hs : Placed s) {e : Event Task Cpu} (h : HookCall s e) :
    Throughout topo CoreCall s e := by
  have hplain {s : State Task Cpu} {env p event wallclock irqtime}
      (hput : event ≠ .putPrevTask) (hirq : event ≠ .irqUpdate) :
      CoreCall s (.update env p event wallclock irqtime) :=
    fun h => absurd h (not_or.2 ⟨hput, hirq⟩)
  have hupdate (s : State Task Cpu) (env p wallclock) :
      CoreCall s (.update env p .taskUpdate wallclock 0) := hplain (by decide) (by decide)
  have hcurr (cpu : Cpu) : s.curr (s.taskCpu (s.curr cpu)) = s.curr cpu := by rw [hs.curr_cpu]
  have harrive (s : State Task Cpu) (p) (_ : Ready s (.arrive p)) : CoreCall s (.arrive p) := trivial
  have hsubs (s : State Task Cpu) (cpu) : CoreCall s (.accountSubs cpu) := trivial
  cases e with
  | ravg env p event wallclock irqtime => exact along_update h fun _ _ => trivial
  | tryToWakeUp env env' p inIowait wallclock =>
    refine along_append.2 ⟨?_, fun t _ => along_update (hplain (by decide) (by decide))
      fun _ _ => trivial⟩
    split_ifs
    · exact along_update (hupdate _ _ _ _) fun _ _ => trivial
    · trivial
  | schedule env env' cpu next wallclock =>
    simp only [Throughout, acts]
    split_ifs
    · exact along_update (fun _ => hcurr cpu) fun _ _ =>
        along_update (hplain (by decide) (by decide)) fun _ _ => ⟨trivial, trivial⟩
    · exact along_update (hupdate _ _ _ _) fun _ _ => trivial
  | tickEntry env cpu wallclock => exact along_update (hupdate _ _ _ _) fun _ _ => trivial
  | accountIrq env cpu wallclock irqtime => exact along_update (fun _ => hcurr cpu) fun _ _ => trivial
  | setTaskCpu env p newCpu wallclock =>
    exact along_update (hplain (by decide) (by decide)) fun _ _ => ⟨trivial, trivial⟩
  | enqueueTask env p schedDelayed enqueueDelayed wallclock fitsMax rtgHighPrio =>
    simp only [Throughout, acts]
    split_ifs
    · trivial
    · exact along_append.2 ⟨along_consumeActs hupdate harrive, fun t _ => ⟨trivial, trivial⟩⟩
  | dequeueTask p schedDelayed =>
    simp only [Throughout, acts]
    split_ifs
    · trivial
    · exact ⟨trivial, trivial⟩
  | addTaskToGroup env env' p wallclock wallclock'
  | removeTaskFromGroup env env' p wallclock wallclock' =>
    exact along_transfer hupdate harrive fun t _ => trivial
  | migrationIrqWork env lockCpus wallclock => exact along_irqWorkActs hupdate hsubs s _ s
  | rolloverIrqWork env thisCpu wallclock newWindow =>
    exact along_append.2 ⟨along_irqWorkActs hupdate hsubs s _ s, fun t _ => ⟨trivial, trivial⟩⟩
  | _ => exact ⟨trivial, trivial⟩

/-- An invariant of the acts of the hooks holds, with the placement, in every state a run of the
hooks reaches. -/
theorem hook_invariant {ok : State Task Cpu → Act Task Cpu → Prop} {I : State Task Cpu → Prop}
    (hact : ∀ s a t, Placed s → I s → Ready s a → CoreCall s a → ok s a →
      act topo s a = some t → I t)
    {es : List (Event Task Cpu)} (hplaced : Placed s) (hs : I s)
    (hok : Along (step topo) (fun s e => HookCall s e ∧ Throughout topo ok s e) s es)
    (h : run (step topo) s es = some t) : Placed t ∧ I t := by
  refine run_invariant (I := fun s => Placed s ∧ I s) (fun s e t hI hok h => ?_) ⟨hplaced, hs⟩ hok h
  have hall : Throughout topo (fun s a => CoreCall s a ∧ ok s a) s e :=
    along_and.2 ⟨throughout_coreCall hI.1 hok.1, hok.2⟩
  exact step_invariant (I := fun s => Placed s ∧ I s) (fun s a t hI hready hok h =>
    ⟨hI.1.act hready h, hact s a t hI.1 hI.2 hready hok.1 hok.2 h⟩) hI hall h

/-- Whatever hooks run, the current task of a CPU is placed there, tasks that are queued, idle or
current have no migration pending, and idle tasks are in no group. -/
theorem tasks_stay_placed (topo : Topology Cpu) (core : Core Task Cpu) (window tick : Nat)
    (es : List (Event Task Cpu)) :
    Along (step topo) (fun s _ => Placed s) (waltInitStopHandler core window tick) es :=
  along_mono (fun _ _ hs _ => hs)
    (fun _ _ _ hs _ h => step_invariant (fun _ _ _ hs hready _ h => hs.act hready h) hs
      (along_true ..) h)
    (placed_init core window tick) (along_true ..)

theorem accounted_curr {env : Env} {p : Task} {event : TaskEvent} {wallclock irqtime : Nat}
    (hcall : CoreCall s (.update env p event wallclock irqtime))
    (hidle : (s.wts p).idle = false)
    (hbusy : accountBusyForCpuTime (s.call env p event wallclock irqtime) (s.wts p).idle = true) :
    s.curr (s.taskCpu p) = p := by
  rw [hidle] at hbusy
  cases event with
  | putPrevTask => exact hcall (.inl rfl)
  | irqUpdate => exact hcall (.inr rfl)
  | taskUpdate => simpa [accountBusyForCpuTime, State.call] using hbusy
  | pickNextTask | taskWake | taskMigrate => exact Bool.noConfusion hbusy

end Hooks

end MsmKernel.Walt
