import MsmKernel.Lib.Windows
import MsmKernel.Walt.BusyCases
import MsmKernel.Walt.WindowAgreement

/-! Tasks on the grid of windows: where the window and the mark of every task stand relative to
the window of every CPU, whatever the order in which the CPUs roll over. -/
set_option linter.unusedSectionVars false

namespace MsmKernel.Walt
open Run Windows
variable {Task Cpu : Type} [DecidableEq Task] [DecidableEq Cpu]

section Record
variable (c : Call) (cpu : Cpu) (q : Wrq) (t : Wts Cpu)

theorem rolledTask_windowStart :
    (rolledTask q t).windowStart = if startsWindow q t then q.windowStart else t.windowStart := by
  simp only [rolledTask]
  split_ifs <;> rfl

theorem accountBusyTime_window : (accountBusyTime c cpu q t).2.windowStart =
      (rolledTask q t).windowStart ∧
    (accountBusyTime c cpu q t).2.activeTime = (rolledTask q t).activeTime := by
  simp only [accountBusyTime]
  split_ifs
  · exact ⟨rfl, rfl⟩
  · by_cases hidle : (rolledTask q t).idle = true
    · simp only [accountInWindow, if_pos hidle, and_self]
    · simp only [accountInWindow, if_neg hidle]
      exact ⟨rfl, rfl⟩
  · simp only [accountAcrossWindows]
    split_ifs <;> exact ⟨rfl, rfl⟩
  · exact ⟨rfl, rfl⟩

theorem accountBusyTime_fresh (hidle : t.idle = false) (hstarts : startsWindow q t = true)
    (hnow : c.wallclock = q.windowStart) (hlt : c.wallclock < 2 ^ 64) :
    (accountBusyTime c cpu q t).2.currWindow = 0 := by
  have hrolled := rolledTask_of_starts q t hidle hstarts
  cases hbusy : accountBusyForCpuTime c t.idle with
  | false =>
    rw [accountBusyTime_skip c cpu q t hbusy, hrolled]
    rfl
  | true =>
    have hdelta : currWindowDelta c q t = 0 := by
      rw [currWindowDelta, elapsed_eq (by omega) hlt, hnow, Nat.sub_self, scaleExecTime_zero]
    rw [accountBusyTime_across c cpu q t hidle hbusy hstarts, hdelta, hrolled]
    rfl

end Record

structure OnGrid (s : State Task Cpu) (t : Wts Cpu) : Prop where
  start_pos : 0 < t.windowStart
  start_le : t.windowStart ≤ t.markStart
  seen : ∀ cpu, Seen s.schedRavgWindow (s.rq cpu).windowStart (s.rq cpu).prevWindowSize
    t.windowStart t.markStart
  known : ∃ cpu, t.windowStart ≤ (s.rq cpu).windowStart
  fresh : t.markStart = t.windowStart → t.idle = false → t.currWindow = 0

structure Grid (s : State Task Cpu) : Prop where
  agreed : Agreed s
  prev : ∃ base size, ∀ cpu, base ≤ (s.rq cpu).windowStart ∧ (s.rq cpu).prevWindowSize =
    if (s.rq cpu).windowStart = base then size else s.schedRavgWindow
  unstarted : ∀ p, (s.wts p).markStart = 0 →
    (s.wts p).windowStart = 0 ∧ (s.wts p).currWindow = 0 ∧ (s.wts p).prevWindow = 0
  started : ∀ p, (s.wts p).markStart ≠ 0 → OnGrid s (s.wts p)
  here : ∀ p, (s.wts p).markStart ≠ 0 → (s.wts p).enqueueAfterMigration = .none →
    (s.wts p).windowStart ≤ (s.rq (s.taskCpu p)).windowStart

/- Clock readings do not go back: an update reads a clock that is in no window before the CPU's and
not before the task's mark, within 2^31 windows; and a task does not arrive on a CPU whose window
is behind its own, which takes a second reading equal to the mark. -/
def OnTime (s : State Task Cpu) : Act Task Cpu → Prop
  | .update _ p _ wallclock _ => Soon s (s.taskCpu p) wallclock ∧
    (s.rq (s.taskCpu p)).windowStart ≤ wallclock ∧ (s.wts p).markStart ≤ wallclock
  | .arrive p => (s.wts p).windowStart ≤ (s.rq (s.taskCpu p)).windowStart
  | .changeWindow _ wallclock _ =>
    (∀ cpu, (s.rq cpu).latestClock ≤ wallclock) ∧ ∀ p, (s.wts p).markStart ≤ wallclock
  | _ => True

instance decidableOnTime [Fintype Cpu] [Fintype Task] (s : State Task Cpu) :
    ∀ a, Decidable (OnTime s a) := by
  rintro (_ | _) <;> (dsimp only [OnTime]; infer_instance)

variable {p : Task} {wallclock irqtime : Nat} {env : Env} {event : TaskEvent} {a : Act Task Cpu}

section Grid
variable {topo : Topology Cpu} {s t : State Task Cpu}

theorem grid_init [Nonempty Cpu] (core : Core Task Cpu) {window tick : Nat}
    (hwindow : 0 < window) (htick : 0 < tick) : Grid (waltInitStopHandler core window tick) where
  agreed := agreed_init core hwindow htick
  prev := ⟨tick, window, fun _ => ⟨Nat.le_refl tick, (if_pos rfl).symm⟩⟩
  unstarted := fun _ _ => ⟨rfl, rfl, rfl⟩
  started := fun _ h => absurd rfl h
  here := fun _ h => absurd rfl h

theorem OnGrid.of_same {r r' : Wts Cpu} (hs : OnGrid s r) (hW : t.schedRavgWindow = s.schedRavgWindow)
    (hrq : ∀ cpu, SameRqWindow (s.rq cpu) (t.rq cpu)) (hr : SameTask r r') : OnGrid t r' := by
  refine ⟨?_, ?_, fun cpu => ?_, ?_, fun h hidle => ?_⟩
  · rw [hr.windowStart]
    exact hs.start_pos
  · rw [hr.windowStart, hr.markStart]
    exact hs.start_le
  · rw [hW, (hrq cpu).windowStart, (hrq cpu).prevWindowSize, hr.windowStart, hr.markStart]
    exact hs.seen cpu
  · obtain ⟨cpu, hcpu⟩ := hs.known
    exact ⟨cpu, by rwa [hr.windowStart, (hrq cpu).windowStart]⟩
  · rw [hr.currWindow]
    rw [hr.markStart, hr.windowStart] at h
    exact hs.fresh h (hr.idle ▸ hidle)

theorem Grid.sameWindows (hs : Grid s) (h : SameWindows s t)
    (hhere : ∀ p, (s.wts p).markStart ≠ 0 → (t.wts p).enqueueAfterMigration = .none →
      (s.wts p).windowStart ≤ (s.rq (t.taskCpu p)).windowStart) : Grid t := by
  have hws cpu := (h.rq cpu).windowStart
  have hpws cpu := (h.rq cpu).prevWindowSize
  refine ⟨hs.agreed.of_same h.schedRavgWindow h.lastqWs h.rq, ?_, fun p hp => ?_, fun p hp => ?_,
    fun p hp hflag => ?_⟩
  · simpa only [hws, hpws, h.schedRavgWindow] using hs.prev
  · rw [(h.wts p).markStart] at hp
    rw [(h.wts p).windowStart, (h.wts p).currWindow, (h.wts p).prevWindow]
    exact hs.unstarted p hp
  · rw [(h.wts p).markStart] at hp
    exact (hs.started p hp).of_same h.schedRavgWindow h.rq (h.wts p)
  · rw [(h.wts p).markStart] at hp
    rw [(h.wts p).windowStart, hws]
    exact hhere p hp hflag

theorem Grid.window_eq (hs : Grid s) {cpu : Cpu}
    (hmark : (s.rq cpu).windowStart ≤ (s.wts p).markStart)
    (hle : (s.wts p).windowStart ≤ (s.rq cpu).windowStart) :
    (s.wts p).windowStart = (s.rq cpu).windowStart := by
  have hpos := hs.agreed.start_pos cpu
  have hgrid := hs.started p (by omega)
  rcases Nat.lt_or_eq_of_le hle with hlt | heq
  · have := ((hgrid.seen cpu).past hlt).1
    omega
  · exact heq

theorem Grid.prev_full (hs : Grid s) {cpu cpu' : Cpu}
    (h : (s.rq cpu).windowStart < (s.rq cpu').windowStart) :
    (s.rq cpu').prevWindowSize = s.schedRavgWindow := by
  obtain ⟨base, size, hprev⟩ := hs.prev
  have hbase := (hprev cpu).1
  rw [(hprev cpu').2, if_neg (by omega)]

theorem Grid.seen_reading (hs : Grid s) {cpu : Cpu}
    (hlt : wallclock < (s.rq cpu).windowStart + s.schedRavgWindow) (cpu' : Cpu) :
    Seen s.schedRavgWindow (s.rq cpu').windowStart (s.rq cpu').prevWindowSize
      (s.rq cpu).windowStart wallclock := by
  rcases Nat.lt_or_ge (s.rq cpu).windowStart (s.rq cpu').windowStart with hcpu | hcpu
  · obtain ⟨j, hj⟩ := (Nat.modEq_iff_dvd' hcpu.le).1 (hs.agreed.aligned cpu cpu')
    rw [hs.prev_full hcpu]
    refine seen_of_lt (j := j) ?_ (by rw [Nat.mul_comm]; omega) hlt hs.agreed.window_pos
    rintro rfl
    omega
  · obtain ⟨j, hj⟩ := (Nat.modEq_iff_dvd' hcpu).1 (hs.agreed.aligned cpu' cpu)
    exact seen_of_le (j := j) (by rw [Nat.mul_comm]; omega) hlt

theorem advance_prevWindowSize (q : Wrq) (window wallclock k : Nat) :
    (q.advance window wallclock k).prevWindowSize = if k = 0 then q.prevWindowSize else window := by
  by_cases hk : k = 0 <;> simp [Wrq.advance, hk]

theorem Grid.advance (hs : Grid s) {cpu : Cpu} {k : Nat} (hin : InWindow s cpu wallclock k) :
    Grid (s.advance cpu wallclock k) := by
  obtain ⟨t, ht⟩ : ∃ t, t = s.advance cpu wallclock k := ⟨_, rfl⟩
  have hW : t.schedRavgWindow = s.schedRavgWindow := by rw [ht]; rfl
  have hwts : t.wts = s.wts := by rw [ht]; rfl
  have hcpu : t.taskCpu = s.taskCpu := by rw [ht]; rfl
  have hself : t.rq cpu = (s.rq cpu).advance s.schedRavgWindow wallclock k := by
    rw [ht]
    exact advance_rq_self cpu wallclock k
  have hws : (t.rq cpu).windowStart = (s.rq cpu).windowStart + k * s.schedRavgWindow := by
    rw [hself, advance_windowStart]
  have hother {cpu'} (h : cpu' ≠ cpu) : t.rq cpu' = s.rq cpu' := by
    rw [ht]
    exact advance_rq_of_ne h wallclock k
  have hmono cpu' : (s.rq cpu').windowStart ≤ (t.rq cpu').windowStart := by
    by_cases hc : cpu' = cpu
    · rw [hc, hws]
      exact Nat.le_add_right ..
    · rw [hother hc]
  have hpws : (t.rq cpu).prevWindowSize =
      if k = 0 then (s.rq cpu).prevWindowSize else s.schedRavgWindow := by
    rw [hself, advance_prevWindowSize]
  rw [← ht]
  refine ⟨?_, ?_, fun p hp => ?_, fun p hp => ?_, fun p hp hflag => ?_⟩
  · rw [ht]
    exact hs.agreed.advance hin
  · obtain ⟨base, size, hprev⟩ := hs.prev
    refine ⟨base, size, fun c => ⟨(hprev c).1.trans (hmono c), ?_⟩⟩
    rw [hW]
    by_cases hc : c = cpu
    · rw [hc, hpws, hws]
      split_ifs with hk hbase hbase
      · rw [(hprev cpu).2, if_pos (by simpa [hk] using hbase)]
      · rw [(hprev cpu).2, if_neg (by simpa [hk] using hbase)]
      · have := Nat.mul_pos (Nat.pos_of_ne_zero hk) hs.agreed.window_pos
        have := (hprev cpu).1
        omega
      · rfl
    · rw [hother hc]
      exact (hprev c).2
  · rw [hwts] at hp ⊢
    exact hs.unstarted p hp
  · rw [hwts] at hp ⊢
    have hgrid := hs.started p hp
    refine ⟨hgrid.start_pos, hgrid.start_le, fun c => ?_, ?_, hgrid.fresh⟩
    · rw [hW]
      by_cases hc : c = cpu
      · rw [hc, hws, hpws]
        split_ifs with hk
        · rw [hk, Nat.zero_mul, Nat.add_zero]
          exact hgrid.seen cpu
        · exact (hgrid.seen cpu).advance hk hs.agreed.window_pos
      · rw [hother hc]
        exact hgrid.seen c
    · obtain ⟨c, hc⟩ := hgrid.known
      exact ⟨c, hc.trans (hmono c)⟩
  · rw [hwts] at hp hflag ⊢
    rw [hcpu]
    exact (hs.here p hp hflag).trans (hmono _)

theorem Grid.window_of_not_starts (hs : Grid s) {cpu : Cpu} (hstarted : (s.wts p).markStart ≠ 0)
    (hlt : wallclock < (s.rq cpu).windowStart + s.schedRavgWindow)
    (hmark : (s.wts p).markStart ≤ wallclock)
    (hstarts : startsWindow (s.rq cpu) (s.wts p) = false) :
    (s.wts p).windowStart = (s.rq cpu).windowStart := by
  have hgrid := hs.started p hstarted
  have hle : (s.rq cpu).windowStart ≤ (s.wts p).markStart := by
    simpa [startsWindow] using hstarts
  have hahead : (s.rq cpu).windowStart ≤ (s.wts p).windowStart := by
    by_contra hnot
    have := ((hgrid.seen cpu).past (by omega)).1
    omega
  exact (hgrid.seen cpu).eq_start hahead hgrid.start_le hmark hlt

section
variable (hs : Grid s) (h : Accounted env p event wallclock irqtime s t)
include hs h

theorem Grid.account_window (hlt : wallclock < (s.rq (s.taskCpu p)).windowStart + s.schedRavgWindow)
    (hmark : (s.wts p).markStart ≤ wallclock) :
    (t.wts p).windowStart = (s.rq (s.taskCpu p)).windowStart := by
  rw [h.wts]
  by_cases hzero : (s.wts p).markStart = 0
  · have hws := (hs.unstarted p hzero).1
    simp only [updateTaskAndRq, if_pos hzero, firstWindow, if_pos hws]
  · have hgrid := hs.started p hzero
    obtain ⟨windowStart, stats, demand, stats', demand', hws, heq⟩ :=
      updateTaskAndRq_busy (s.call env p event wallclock irqtime) (s.taskCpu p)
        (s.rq (s.taskCpu p)) (s.wts p) hzero
    rw [heq]
    simp only [updateCpuBusyTime_snd, (accountBusyTime_window _ _ _ _).1, rolledTask_windowStart]
    rw [hws hgrid.start_pos.ne']
    split_ifs with hstarts
    · rfl
    · exact hs.window_of_not_starts hzero hlt hmark (by simpa [startsWindow] using hstarts)

theorem Grid.account_fresh (hmark : (s.wts p).markStart < wallclock) (hu64 : wallclock < 2 ^ 64)
    (hnow : wallclock = (s.rq (s.taskCpu p)).windowStart) (hidle : (s.wts p).idle = false) :
    (t.wts p).currWindow = 0 := by
  rw [h.wts]
  by_cases hzero : (s.wts p).markStart = 0
  · obtain ⟨windowStart, -, hfirst⟩ := firstWindow_eq (s.rq (s.taskCpu p)) (s.wts p)
    simp only [updateTaskAndRq, if_pos hzero, hfirst]
    exact (hs.unstarted p hzero).2.1
  · obtain ⟨windowStart, stats, demand, stats', demand', -, heq⟩ :=
      updateTaskAndRq_busy (s.call env p event wallclock irqtime) (s.taskCpu p)
        (s.rq (s.taskCpu p)) (s.wts p) hzero
    rw [heq]
    simp only [updateCpuBusyTime_snd]
    refine accountBusyTime_fresh _ _ _ _ hidle ?_ hnow hu64
    have hlt : (s.wts p).markStart < (s.rq (s.taskCpu p)).windowStart := hnow ▸ hmark
    simpa [startsWindow] using hlt

theorem Grid.account (hle : (s.rq (s.taskCpu p)).windowStart ≤ wallclock)
    (hlt : wallclock < (s.rq (s.taskCpu p)).windowStart + s.schedRavgWindow)
    (hu64 : wallclock < 2 ^ 64) (hmark : (s.wts p).markStart < wallclock) : Grid t := by
  have hws cpu := (h.sameRqWindow cpu).windowStart
  have hpws cpu := (h.sameRqWindow cpu).prevWindowSize
  have hW := h.frame.schedRavgWindow
  have hpos := hs.agreed.start_pos (s.taskCpu p)
  have htw := hs.account_window h hlt hmark.le
  have htm : (t.wts p).markStart = wallclock := by rw [h.wts]
  refine ⟨hs.agreed.of_same hW h.lastqWs h.sameRqWindow, ?_, fun p' hp' => ?_, fun p' hp' => ?_,
    fun p' hp' hflag => ?_⟩
  · simpa only [hws, hpws, hW] using hs.prev
  · by_cases hp : p' = p
    · rw [hp, htm] at hp'
      omega
    · rw [h.frame.wts p' hp] at hp' ⊢
      exact hs.unstarted p' hp'
  · by_cases hp : p' = p
    · rw [hp]
      refine ⟨by omega, by omega, fun c => ?_, ⟨s.taskCpu p, by rw [htw, hws]⟩, fun heq hidle => ?_⟩
      · rw [hW, hws, hpws, htw, htm]
        exact hs.seen_reading hlt c
      · rw [(h.frame.flags p).idle] at hidle
        exact hs.account_fresh h hmark hu64 (by rw [← htm, heq, htw]) hidle
    · rw [h.frame.wts p' hp] at hp' ⊢
      exact (hs.started p' hp').of_same hW h.sameRqWindow ⟨rfl, rfl, rfl, rfl, rfl, rfl⟩
  · rw [h.frame.taskCpu, hws]
    by_cases hp : p' = p
    · rw [hp, htw]
    · rw [h.frame.wts p' hp] at hp' hflag ⊢
      exact hs.here p' hp' hflag

end

theorem Grid.update (hs : Grid s) (hok : OnTime s (.update env p event wallclock irqtime))
    (h : waltUpdateTaskRavg env p event wallclock irqtime s = some t) : Grid t := by
  rcases update_cases h with ⟨rfl, -⟩ | ⟨q, hupd⟩
  · exact hs
  · obtain ⟨k, hin, -, hacc⟩ := update_advance hs.agreed.window_pos hok.1 h hupd
    exact (hs.advance hin).account hacc hin.advanced.1 hin.advanced.2 hin.u64
      (Nat.lt_of_le_of_ne hok.2.2 hupd.mark_ne)

theorem Grid.changeWindow (hs : Grid s) {thisCpu : Cpu} {newWindow : Nat} (hpos : 0 < newWindow)
    (hok : OnTime s (.changeWindow thisCpu wallclock newWindow)) :
    Grid (changeWindow topo thisCpu wallclock newWindow s) := by
  have hagreed : Agreed (Walt.changeWindow topo thisCpu wallclock newWindow s) :=
    hs.agreed.changeWindow hpos hok.1
  simp only [Walt.changeWindow] at hagreed ⊢
  split_ifs at hagreed ⊢ with hchange
  · obtain ⟨-, hwindow, hall⟩ := hchange
    have hstart cpu : (s.rq cpu).windowStart = (s.rq thisCpu).windowStart := by
      simpa using List.all_eq_true.1 hall cpu (topo.complete cpu)
    refine ⟨hagreed, ?_, hs.unstarted, fun p hp => ?_, hs.here⟩
    · obtain ⟨base, size, hprev⟩ := hs.prev
      refine ⟨(s.rq thisCpu).windowStart, (s.rq thisCpu).prevWindowSize, fun c =>
        ⟨Nat.le_of_eq (hstart c).symm, ?_⟩⟩
      rw [if_pos (hstart c), (hprev thisCpu).2, ← hstart c]
      exact (hprev c).2
    · have hgrid := hs.started p hp
      refine ⟨hgrid.start_pos, hgrid.start_le, fun c => ⟨(hgrid.seen c).past, fun hle => ?_⟩,
        hgrid.known, hgrid.fresh⟩
      obtain ⟨d, hd⟩ := hgrid.known
      have heq : (s.wts p).windowStart = (s.rq c).windowStart := by
        have hc := hstart c
        have hd' := hstart d
        have hle : (s.rq c).windowStart ≤ (s.wts p).windowStart := hle
        omega
      refine ⟨⟨0, by rw [heq]; simp⟩, ?_⟩
      rw [heq, hstart c]
      exact Nat.lt_of_le_of_lt (hok.2 p) hwindow
  · exact hs

theorem pendingMigration_ne_none (topo : Topology Cpu) (src dst : Cpu) :
    pendingMigration topo src dst ≠ .none := by
  simp only [pendingMigration]
  split_ifs <;> decide

theorem Grid.act (hs : Grid s) (hready : Ready s a) (hok : OnTime s a) (h : act topo s a = some t) :
    Grid t := by
  have hkeep (hflag : ∀ p, (t.wts p).enqueueAfterMigration = (s.wts p).enqueueAfterMigration)
      (hcpu : t.taskCpu = s.taskCpu) (p : Task) (hp : (s.wts p).markStart ≠ 0)
      (hnone : (t.wts p).enqueueAfterMigration = .none) :
      (s.wts p).windowStart ≤ (s.rq (t.taskCpu p)).windowStart := by
    rw [hcpu]
    exact hs.here p hp (hflag p ▸ hnone)
  have hmove := fun ha => hs.sameWindows (sameWindows_act h ha)
  cases a <;> try obtain rfl := Option.some.inj h
  case update env p event wallclock irqtime => exact hs.update hok h
  case changeWindow thisCpu wallclock newWindow => exact hs.changeWindow hready hok
  case depart p newCpu =>
    refine hmove trivial fun p' hp' hnone => ?_
    by_cases hp : p' = p
    · rw [hp, depart_wts, Function.update_self, (departed_flags _ _ _ _).2.2] at hnone
      exact absurd hnone (pendingMigration_ne_none _ _ _)
    · rw [depart_wts, Function.update_of_ne hp] at hnone
      rw [(depart_core topo p newCpu s).2.1, Function.update_of_ne hp]
      exact hs.here p' hp' hnone
  case arrive p =>
    refine hmove trivial fun p' hp' hnone => ?_
    rw [(arrive_core p s).2.1]
    by_cases hp : p' = p
    · rw [hp]
      exact hok
    · rw [arrive_wts, Function.update_of_ne hp] at hnone
      exact hs.here p' hp' hnone
  case joinGroup p newTask =>
    refine hmove trivial (hkeep (fun p' => ?_) rfl)
    rw [joinGroup_wts]
    exact apply_update Wts.enqueueAfterMigration (by rfl) p'
  case leaveGroup p newTask =>
    refine hmove trivial (hkeep (fun p' => ?_) rfl)
    rw [leaveGroup_wts]
    exact apply_update Wts.enqueueAfterMigration (by rfl) p'
  case accountSubs cpu => exact hmove trivial (hkeep (fun _ => rfl) rfl)
  case switch _ _ | enqueue _ _ _ | dequeue _ | misfit _ _ _ | setClass _ _ =>
    have haside := aside_act h trivial
    exact hmove trivial (hkeep (fun p => (haside.flags p).2.2) haside.taskCpu)

end Grid

/- The acts that move busy time follow an update of their task, so its mark is in or after the
window of its CPU. -/
def Fresh (s : State Task Cpu) : Act Task Cpu → Prop
  | .depart p _ | .arrive p | .joinGroup p _ | .leaveGroup p _ =>
    (s.rq (s.taskCpu p)).windowStart ≤ (s.wts p).markStart
  | _ => True

section Fresh
variable {topo : Topology Cpu} {s t : State Task Cpu}

theorem Grid.mark_of_update (hs : Grid s) (hok : OnTime s (.update env p event wallclock irqtime))
    (h : waltUpdateTaskRavg env p event wallclock irqtime s = some t) :
    (t.rq (t.taskCpu p)).windowStart ≤ (t.wts p).markStart := by
  rcases update_cases h with ⟨rfl, hzero | hnoop⟩ | ⟨q, hupd⟩
  · exact absurd hzero (hs.agreed.start_pos _).ne'
  · rw [hnoop]
    exact hok.2.1
  · rw [(updateFrame h).taskCpu, hupd.wts]
    exact (hs.agreed.update_window hok.1 hupd.mark_ne h).1

theorem fresh_consumeActs (hs : Grid s)
    (hok : Along (act topo) OnTime s (consumeActs env p wallclock s)) :
    Along (act topo) Fresh s (consumeActs env p wallclock s) ∧
      ∀ t, run (act topo) s (consumeActs env p wallclock s) = some t →
        (s.rq (s.taskCpu p)).windowStart ≤ (s.wts p).markStart →
        (t.rq (t.taskCpu p)).windowStart ≤ (t.wts p).markStart := by
  by_cases hflag : (s.wts p).enqueueAfterMigration = .none
  · rw [consumeActs, if_neg (not_not.2 hflag)]
    exact ⟨trivial, fun t ht h => Option.some.inj ht ▸ h⟩
  · rw [consumeActs, if_pos hflag] at hok ⊢
    refine ⟨along_update trivial fun u hu => ⟨hs.mark_of_update hok.1 hu, trivial⟩,
      fun t ht _ => ?_⟩
    obtain ⟨u, hu, ht⟩ := Option.bind_eq_some_iff.1 ht
    have harrive : act topo u (.arrive p) = some t := ht
    have hsame := sameWindows_act harrive trivial
    obtain rfl := Option.some.inj ht
    rw [(arrive_core p u).2.1, (hsame.rq _).windowStart, (hsame.wts p).markStart]
    exact hs.mark_of_update hok.1 hu

theorem fresh_transfer (hs : Grid s) {env' : Env} {wallclock' : Nat}
    (ha : ∀ t, Fresh t a ↔ (t.rq (t.taskCpu p)).windowStart ≤ (t.wts p).markStart)
    (hok : Along (act topo) OnTime s
      (.update env p .taskUpdate wallclock 0 :: (consumeActs env' p wallclock' s ++ [a]))) :
    Along (act topo) Fresh s
      (.update env p .taskUpdate wallclock 0 :: (consumeActs env' p wallclock' s ++ [a])) := by
  refine along_update trivial fun u hu => ?_
  have hu' : act topo s (.update env p .taskUpdate wallclock 0) = some u := hu
  rw [along_cons_of_step hu'] at hok
  rw [← consumeActs_congr ((updateFrame hu).flags p).pending] at hok ⊢
  obtain ⟨hfresh, hkeep⟩ := fresh_consumeActs (hs.update hok.1 hu) (along_append.1 hok.2).1
  refine along_append.2 ⟨hfresh, fun t ht => ⟨(ha t).2 ?_, ?_⟩⟩
  · exact hkeep t ht (hs.mark_of_update hok.1 hu)
  · cases act topo t a <;> trivial

/-- On time, busy time only moves with tasks that have just been updated. -/
theorem Grid.throughout_fresh (hs : Grid s) {e : Event Task Cpu}
    (hok : Throughout topo OnTime s e) : Throughout topo Fresh s e := by
  have hquiet (s : State Task Cpu) (a) (ha : ¬ Act.Moves a) : Fresh s a := by
    cases a <;> first | trivial | exact absurd trivial ha
  cases e with
  | setTaskCpu env p newCpu wallclock =>
    exact along_update trivial fun t ht => ⟨hs.mark_of_update hok.1 ht, trivial⟩
  | enqueueTask env p schedDelayed enqueueDelayed wallclock fitsMax rtgHighPrio =>
    simp only [Throughout, acts] at hok ⊢
    split_ifs at hok ⊢
    · trivial
    · rw [along_append] at hok ⊢
      exact ⟨(fresh_consumeActs hs hok.1).1, fun t _ => ⟨trivial, trivial⟩⟩
  | addTaskToGroup env env' p wallclock wallclock'
  | removeTaskFromGroup env env' p wallclock wallclock' =>
    exact fresh_transfer hs (fun _ => Iff.rfl) hok
  | ravg _ _ _ _ _ | tryToWakeUp _ _ _ _ _ | schedule _ _ _ _ _ | tickEntry _ _ _
  | accountIrq _ _ _ _ | dequeueTask _ _ | migrationIrqWork _ _ _ | rolloverIrqWork _ _ _ _
  | updateMisfitStatus _ _ _ | setSchedClass _ _ => exact throughout_quiet hquiet trivial

/-- An invariant of the acts of hooks that are on time holds, with the placement and the grid, in
every state a run of such hooks reaches. -/
theorem grid_invariant {ok : State Task Cpu → Act Task Cpu → Prop} {I : State Task Cpu → Prop}
    (hact : ∀ s a t, Placed s → Grid s → I s → Ready s a → CoreCall s a → OnTime s a →
      Fresh s a → ok s a → act topo s a = some t → I t)
    {es : List (Event Task Cpu)} (hplaced : Placed s) (hgrid : Grid s) (hs : I s)
    (hok : Along (step topo) (fun s e => HookCall s e ∧
      Throughout topo (fun s a => OnTime s a ∧ ok s a) s e) s es)
    (h : run (step topo) s es = some t) : Placed t ∧ Grid t ∧ I t := by
  refine run_invariant (I := fun s => Placed s ∧ Grid s ∧ I s) (fun s e t hI hok h => ?_)
    ⟨hplaced, hgrid, hs⟩ hok h
  have hontime := (along_and.1 hok.2).1
  have hall : Throughout topo (fun s a => CoreCall s a ∧ Fresh s a ∧ OnTime s a ∧ ok s a) s e :=
    along_and.2 ⟨throughout_coreCall hI.1 hok.1,
      along_and.2 ⟨hI.2.1.throughout_fresh hontime, hok.2⟩⟩
  refine step_invariant (I := fun s => Placed s ∧ Grid s ∧ I s) (fun s a t hI hready hok h => ?_)
    hI hall h
  obtain ⟨hcall, hfresh, hon, hok⟩ := hok
  exact ⟨hI.1.act hready h, hI.2.1.act hready hon h,
    hact s a t hI.1 hI.2.1 hI.2.2 hready hcall hon hfresh hok h⟩

end Fresh

/-- Along every run that is on time, the window of a task starts at or before its mark, every CPU sees
it as past or on its grid, and once no migration is pending its own CPU has reached it. -/
theorem tasks_stay_on_grid [Nonempty Cpu] (topo : Topology Cpu) (core : Core Task Cpu)
    {window tick : Nat} (hwindow : 0 < window) (htick : 0 < tick) {es : List (Event Task Cpu)}
    {t : State Task Cpu}
    (hok : Along (step topo) (Throughout topo OnTime) (waltInitStopHandler core window tick) es)
    (h : run (step topo) (waltInitStopHandler core window tick) es = some t) : Grid t :=
  reachable_invariant (fun _ _ _ hs hready hok h => hs.act hready hok h)
    (grid_init core hwindow htick) hok h

theorem tasks_on_grid_after_a_tick :
    ∃ t, run (step littleBig) (waltInitStopHandler littleBigCore 16000000 1600000000)
        [.enqueueTask plainEnv 3 false false 0 true false,
          .schedule plainEnv plainEnv 0 3 1614000000, .tickEntry plainEnv 0 1618000000] = some t ∧
      (t.wts 3).markStart = 1618000000 ∧ Grid t :=
  exists_run_and (by decide +kernel) fun _ h _ =>
    tasks_stay_on_grid littleBig littleBigCore (by decide) (by decide) (by decide +kernel) h

end MsmKernel.Walt
