import Mathlib
import MsmKernel.Walt.Effects

/-! Window agreement: the windows of all CPUs lie on one grid, an updated CPU is in the window of
its clock, and the election of the rollover work can always succeed on some CPU. -/
set_option linter.unusedSectionVars false

namespace MsmKernel.Walt
open Run Function
variable {Task Cpu : Type} [DecidableEq Task] [DecidableEq Cpu]

def Soon (s : State Task Cpu) (cpu : Cpu) (wallclock : Nat) : Prop :=
  wallclock < (s.rq cpu).windowStart + 2 ^ 31 * s.schedRavgWindow

instance (s : State Task Cpu) (cpu : Cpu) (wallclock : Nat) : Decidable (Soon s cpu wallclock) :=
  inferInstanceAs (Decidable (_ < _))

/- No CPU misses 2^31 windows, and the rollover work reads a clock that no CPU is ahead of. -/
def Timely (s : State Task Cpu) : Act Task Cpu → Prop
  | .update _ p _ wallclock _ => Soon s (s.taskCpu p) wallclock
  | .changeWindow _ wallclock _ => ∀ cpu, (s.rq cpu).latestClock ≤ wallclock
  | _ => True

instance decidableTimely [Fintype Cpu] (s : State Task Cpu) : ∀ a, Decidable (Timely s a) := by
  rintro (_ | _) <;> (dsimp only [Timely]; infer_instance)

/- latest_clock is 0 until the first update of the CPU. -/
structure Agreed (s : State Task Cpu) : Prop where
  window_pos : 0 < s.schedRavgWindow
  start_pos : ∀ cpu, 0 < (s.rq cpu).windowStart
  aligned : ∀ cpu cpu', (s.rq cpu).windowStart ≡ (s.rq cpu').windowStart [MOD s.schedRavgWindow]
  inside : ∀ cpu, (s.rq cpu).latestClock ≠ 0 → (s.rq cpu).windowStart ≤ (s.rq cpu).latestClock ∧
    (s.rq cpu).latestClock < (s.rq cpu).windowStart + s.schedRavgWindow
  elected : ∃ cpu, s.waltIrqWorkLastqWs = (s.rq cpu).windowStart

def State.advance (s : State Task Cpu) (cpu : Cpu) (wallclock k : Nat) : State Task Cpu :=
  { s with
    rq := update s.rq cpu ((s.rq cpu).advance s.schedRavgWindow wallclock k)
    waltIrqWorkLastqWs := runWaltIrqWorkRollover (s.rq cpu).windowStart
      ((s.rq cpu).windowStart + k * s.schedRavgWindow) s.waltIrqWorkLastqWs }

structure InWindow (s : State Task Cpu) (cpu : Cpu) (wallclock k : Nat) : Prop where
  le : (s.rq cpu).windowStart + k * s.schedRavgWindow ≤ wallclock
  lt : wallclock < (s.rq cpu).windowStart + k * s.schedRavgWindow + s.schedRavgWindow
  u64 : wallclock < 2 ^ 64

structure Accounted (env : Env) (p : Task) (event : TaskEvent) (wallclock irqtime : Nat)
    (s t : State Task Cpu) : Prop where
  frame : UpdateFrame p s t
  lastqWs : t.waltIrqWorkLastqWs = s.waltIrqWorkLastqWs
  rq : t.rq (s.taskCpu p) = (updateTaskAndRq (s.call env p event wallclock irqtime)
    (s.taskCpu p) (s.rq (s.taskCpu p)) (s.wts p)).1
  wts : t.wts p =
    { (updateTaskAndRq (s.call env p event wallclock irqtime) (s.taskCpu p)
        (s.rq (s.taskCpu p)) (s.wts p)).2 with markStart := wallclock }

variable {cpu : Cpu} {env : Env} {p : Task} {event : TaskEvent} {wallclock irqtime : Nat}

section Advance
variable {s t : State Task Cpu}

theorem advance_windowStart (q : Wrq) (window wallclock k : Nat) :
    (q.advance window wallclock k).windowStart = q.windowStart + k * window := by
  by_cases hk : k = 0 <;> simp [Wrq.advance, hk]

theorem advance_latestClock (q : Wrq) (window wallclock k : Nat) :
    (q.advance window wallclock k).latestClock = wallclock := by
  by_cases hk : k = 0 <;> simp [Wrq.advance, hk]

theorem advance_rq_self (cpu : Cpu) (wallclock k : Nat) :
    (s.advance cpu wallclock k).rq cpu = (s.rq cpu).advance s.schedRavgWindow wallclock k :=
  update_self ..

theorem advance_rq_of_ne {cpu' : Cpu} (h : cpu' ≠ cpu) (wallclock k : Nat) :
    (s.advance cpu wallclock k).rq cpu' = s.rq cpu' :=
  update_of_ne h ..

theorem InWindow.advanced {k : Nat} (h : InWindow s cpu wallclock k) :
    ((s.advance cpu wallclock k).rq cpu).windowStart ≤ wallclock ∧
      wallclock < ((s.advance cpu wallclock k).rq cpu).windowStart + s.schedRavgWindow := by
  rw [advance_rq_self, advance_windowStart]
  exact ⟨h.le, h.lt⟩

theorem update_advance (hwindow : 0 < s.schedRavgWindow) (hsoon : Soon s (s.taskCpu p) wallclock)
    {q : Wrq} (h : waltUpdateTaskRavg env p event wallclock irqtime s = some t)
    (hupd : Updated env p event wallclock irqtime s q t) :
    ∃ k, InWindow s (s.taskCpu p) wallclock k ∧
      q = (s.advance (s.taskCpu p) wallclock k).rq (s.taskCpu p) ∧
      Accounted env p event wallclock irqtime (s.advance (s.taskCpu p) wallclock k) t := by
  obtain ⟨k, hq, -, hlo, hhi, hu64⟩ := updateWindowStart_spec hwindow hsoon hupd.window
  have hframe := updateFrame h
  have hself := advance_rq_self (s := s) (s.taskCpu p) wallclock k
  refine ⟨k, ⟨hlo, hhi, hu64⟩, hq.trans hself.symm, ⟨?_, ?_, ?_, ?_⟩⟩
  · refine ⟨hframe.1, hframe.2, hframe.3, hframe.4, hframe.5, hframe.6, fun cpu hcpu => ?_,
      hframe.8, hframe.9⟩
    exact (hframe.rq cpu hcpu).trans (advance_rq_of_ne hcpu wallclock k).symm
  · rw [hupd.lastqWs, hq, advance_windowStart]
    rfl
  · change _ = (updateTaskAndRq _ _ ((s.advance (s.taskCpu p) wallclock k).rq (s.taskCpu p)) _).1
    rw [hself, ← hq]
    exact hupd.rq
  · change _ = { (updateTaskAndRq _ _ ((s.advance (s.taskCpu p) wallclock k).rq (s.taskCpu p))
      _).2 with markStart := wallclock }
    rw [hself, ← hq]
    exact hupd.wts

theorem Accounted.sameRqWindow (h : Accounted env p event wallclock irqtime s t) (cpu : Cpu) :
    SameRqWindow (s.rq cpu) (t.rq cpu) := by
  by_cases hcpu : cpu = s.taskCpu p
  · rw [hcpu, h.rq]
    exact (updateTaskAndRq_keeps ..).1
  · rw [h.frame.rq cpu hcpu]
    exact ⟨rfl, rfl, rfl⟩

end Advance

section Agreed
variable {topo : Topology Cpu} {s t : State Task Cpu}

section
variable (hs : Agreed s)
include hs

theorem Agreed.of_same (hW : t.schedRavgWindow = s.schedRavgWindow)
    (hlastq : t.waltIrqWorkLastqWs = s.waltIrqWorkLastqWs)
    (hrq : ∀ cpu, SameRqWindow (s.rq cpu) (t.rq cpu)) : Agreed t := by
  have hws cpu := (hrq cpu).windowStart
  have hlatest cpu := (hrq cpu).latestClock
  refine ⟨?_, ?_, ?_, ?_, ?_⟩ <;> simp only [hW, hlastq, hws, hlatest]
  · exact hs.window_pos
  · exact hs.start_pos
  · exact hs.aligned
  · exact hs.inside
  · exact hs.elected

theorem Agreed.advance {k : Nat} (hin : InWindow s cpu wallclock k) :
    Agreed (s.advance cpu wallclock k) := by
  have hself := advance_rq_self (s := s) cpu wallclock k
  have hws : ((s.advance cpu wallclock k).rq cpu).windowStart =
      (s.rq cpu).windowStart + k * s.schedRavgWindow := by rw [hself, advance_windowStart]
  have hother {cpu'} (h : cpu' ≠ cpu) := advance_rq_of_ne (s := s) h wallclock k
  have hmod cpu' : ((s.advance cpu wallclock k).rq cpu').windowStart ≡ (s.rq cpu').windowStart
      [MOD s.schedRavgWindow] := by
    by_cases hcpu : cpu' = cpu
    · rw [hcpu, hws]
      simp [Nat.ModEq]
    · rw [hother hcpu]
  refine ⟨hs.window_pos, fun cpu' => ?_, fun cpu' cpu'' => ?_, fun cpu' => ?_, ?_⟩
  · by_cases hcpu : cpu' = cpu
    · have := hs.start_pos cpu
      rw [hcpu, hws]
      omega
    · rw [hother hcpu]
      exact hs.start_pos cpu'
  · exact ((hmod cpu').trans (hs.aligned cpu' cpu'')).trans (hmod cpu'').symm
  · by_cases hcpu : cpu' = cpu
    · rw [hcpu, hws, hself, advance_latestClock]
      exact fun _ => ⟨hin.le, hin.lt⟩
    · rw [hother hcpu]
      exact hs.inside cpu'
  · -- The cmpxchg either moves lastq_ws along with this CPU or finds it at another one.
    obtain ⟨cpu', hcpu'⟩ := hs.elected
    simp only [State.advance, runWaltIrqWorkRollover]
    split_ifs with hsame hexpected
    · refine ⟨cpu', ?_⟩
      by_cases hc : cpu' = cpu
      · rw [hcpu', hc, update_self, advance_windowStart, ← hsame]
      · rw [hcpu', update_of_ne hc]
    · exact ⟨cpu, by rw [update_self, advance_windowStart]⟩
    · have hc : cpu' ≠ cpu := fun hc => hexpected (by rw [hcpu', hc])
      exact ⟨cpu', by rw [hcpu', update_of_ne hc]⟩

theorem Agreed.update (hsoon : Soon s (s.taskCpu p) wallclock)
    (h : waltUpdateTaskRavg env p event wallclock irqtime s = some t) : Agreed t := by
  rcases update_cases h with ⟨rfl, -⟩ | ⟨q, hupd⟩
  · exact hs
  · obtain ⟨k, hin, -, hacc⟩ := update_advance hs.window_pos hsoon h hupd
    exact (hs.advance hin).of_same hacc.frame.schedRavgWindow hacc.lastqWs hacc.sameRqWindow

theorem Agreed.update_window (hsoon : Soon s (s.taskCpu p) wallclock)
    (hmark : (s.wts p).markStart ≠ wallclock)
    (h : waltUpdateTaskRavg env p event wallclock irqtime s = some t) :
    (t.rq (s.taskCpu p)).windowStart ≤ wallclock ∧
      wallclock < (t.rq (s.taskCpu p)).windowStart + t.schedRavgWindow := by
  rcases update_cases h with ⟨-, hzero | hnoop⟩ | ⟨q, hupd⟩
  · exact absurd hzero (hs.start_pos _).ne'
  · exact absurd hnoop hmark
  · obtain ⟨k, hin, -, hacc⟩ := update_advance hs.window_pos hsoon h hupd
    rw [(hacc.sameRqWindow _).windowStart, advance_rq_self, advance_windowStart,
      hacc.frame.schedRavgWindow]
    exact ⟨hin.le, hin.lt⟩

theorem Agreed.changeWindow {thisCpu : Cpu} {newWindow : Nat} (hpos : 0 < newWindow)
    (hclock : ∀ cpu, (s.rq cpu).latestClock ≤ wallclock) :
    Agreed (changeWindow topo thisCpu wallclock newWindow s) := by
  simp only [Walt.changeWindow]
  split_ifs with hchange
  · obtain ⟨-, hwindow, hall⟩ := hchange
    have hstart cpu : (s.rq cpu).windowStart = (s.rq thisCpu).windowStart := by
      simpa using List.all_eq_true.1 hall cpu (topo.complete cpu)
    refine ⟨hpos, hs.start_pos, fun cpu cpu' => ?_, fun cpu hne => ?_, hs.elected⟩
    · change _ ≡ _ [MOD newWindow]
      rw [hstart cpu, hstart cpu']
    · refine ⟨(hs.inside cpu hne).1, ?_⟩
      rw [hstart cpu]
      exact Nat.lt_of_le_of_lt (hclock cpu) hwindow
  · exact hs

theorem Agreed.act {a : Act Task Cpu} (hready : Ready s a) (hok : Timely s a)
    (h : act topo s a = some t) : Agreed t := by
  cases a with
  | update env p event wallclock irqtime => exact hs.update hok h
  | changeWindow thisCpu wallclock newWindow =>
    obtain rfl := Option.some.inj h
    exact hs.changeWindow hready hok
  | _ =>
    have hsame := sameWindows_act h trivial
    exact hs.of_same hsame.schedRavgWindow hsame.lastqWs hsame.rq

end

theorem elected_wins (h : waltUpdateTaskRavg env p event wallclock irqtime s = some t)
    (hexpected : s.waltIrqWorkLastqWs = (s.rq (s.taskCpu p)).windowStart)
    (hmoved : (t.rq (s.taskCpu p)).windowStart ≠ (s.rq (s.taskCpu p)).windowStart) :
    t.waltIrqWorkLastqWs = (t.rq (s.taskCpu p)).windowStart := by
  rcases update_cases h with ⟨rfl, -⟩ | ⟨q, hupd⟩
  · exact absurd rfl hmoved
  · have hws : (t.rq (s.taskCpu p)).windowStart = q.windowStart := by
      rw [hupd.rq]
      exact (updateTaskAndRq_keeps _ _ q _).1.windowStart
    rw [hws] at hmoved ⊢
    rw [hupd.lastqWs, runWaltIrqWorkRollover, if_neg (Ne.symm hmoved), if_pos hexpected]

theorem agreed_init [Nonempty Cpu] (core : Core Task Cpu) {window tick : Nat}
    (hwindow : 0 < window) (htick : 0 < tick) : Agreed (waltInitStopHandler core window tick) where
  window_pos := hwindow
  start_pos := fun _ => htick
  aligned := fun _ _ => rfl
  inside := fun _ h => absurd rfl h
  elected := ⟨Classical.arbitrary Cpu, rfl⟩

end Agreed

end MsmKernel.Walt
