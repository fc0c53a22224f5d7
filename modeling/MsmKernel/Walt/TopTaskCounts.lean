import Mathlib.Data.Fintype.Card
import MsmKernel.Walt.AccountedTimes
import MsmKernel.Walt.Grid
import MsmKernel.Walt.TopTaskTables

/-! The top-task tables over whole runs: in the two tracked windows of every CPU the table counts
the tasks that are accounted there, by the index of their time in that window. -/
set_option linter.unusedSectionVars false

namespace MsmKernel.Walt
open Run Tally TopTasks
variable {Task Cpu : Type} [DecidableEq Task] [DecidableEq Cpu]

section Tables
variable (t : TopTasks)

def emptySlot : Slot := ⟨clearTopTasksTable, clearTopTasksBitmap, 0⟩

theorem shows_emptySlot : emptySlot.Shows fun _ => 0 where
  table := fun _ => rfl
  bitmap := fun i hi => by
    have hne : NUM_LOAD_INDICES - 1 - i ≠ NUM_LOAD_INDICES := by
      omega
    simp [emptySlot, clearTopTasksBitmap, hne]
  top := isTop_zero
  range := fun _ h => absurd rfl h
  fits := fun _ => by decide

theorem curr_rolloverTopTasks (fullWindow : Bool) :
    (rolloverTopTasks fullWindow t).curr = emptySlot := by
  have hne : 1 - t.currTable ≠ t.currTable := TopTasks.other_table_ne t.currTable
  cases fullWindow with
  | false => simp [rolloverTopTasks, curr, emptySlot]
  | true => simp [rolloverTopTasks, curr, emptySlot, hne]

theorem prev_rolloverTopTasks (fullWindow : Bool) :
    (rolloverTopTasks fullWindow t).prev = if fullWindow then emptySlot else t.curr := by
  have hne : t.currTable ≠ 1 - t.currTable := (TopTasks.other_table_ne t.currTable).symm
  cases fullWindow with
  | false => simp [rolloverTopTasks, prev, curr, hne]
  | true => simp [rolloverTopTasks, prev, emptySlot]

theorem curr_updateTopTasks (oldCurrWindow currWindow prevWindow : Nat)
    (newWindow fullWindow : Bool) :
    (updateTopTasks oldCurrWindow currWindow prevWindow newWindow fullWindow t).curr =
      if newWindow then t.curr.addTask currWindow
      else if oldCurrWindow = currWindow then t.curr
      else t.curr.moveTask oldCurrWindow currWindow := by
  simp only [updateTopTasks]
  split_ifs <;> simp

theorem prev_updateTopTasks (oldCurrWindow currWindow prevWindow : Nat)
    (newWindow fullWindow : Bool) :
    (updateTopTasks oldCurrWindow currWindow prevWindow newWindow fullWindow t).prev =
      if newWindow then
        if fullWindow then t.prev.addFullWindow prevWindow
        else t.prev.closeWindow oldCurrWindow prevWindow
      else t.prev := by
  simp only [updateTopTasks]
  split_ifs <;> simp

end Tables

/- The tasks accounted on a CPU, and their time in its two tracked windows; a task that has not been
updated since the last rollover still has its time of the previous window as its current one. -/
def Counted (s : State Task Cpu) (cpu : Cpu) (p : Task) : Prop :=
  (s.wts p).idle = false ∧ (s.wts p).enqueueAfterMigration = .none ∧ s.taskCpu p = cpu

instance (s : State Task Cpu) (cpu : Cpu) (p : Task) : Decidable (Counted s cpu p) :=
  inferInstanceAs (Decidable (_ ∧ _ ∧ _))

def currTime (q : Wrq) (r : Wts Cpu) : Nat :=
  if r.windowStart = q.windowStart then r.currWindow else 0

def prevTime (q : Wrq) (r : Wts Cpu) : Nat :=
  if r.windowStart = q.windowStart then r.prevWindow
  else if r.windowStart + q.prevWindowSize = q.windowStart then r.currWindow
  else 0

def countedKey (time : Wrq → Wts Cpu → Nat) (s : State Task Cpu) (cpu : Cpu) (p : Task) :
    Option Nat :=
  if Counted s cpu p then loadKey (time (s.rq cpu) (s.wts p)) else none

variable {q q' : Wrq} {r r' : Wts Cpu}

section Keys
variable {s t : State Task Cpu} {cpu : Cpu} {p : Task} {time : Wrq → Wts Cpu → Nat}

theorem countedKey_of_not (h : ¬ Counted s cpu p) : countedKey time s cpu p = none := if_neg h

theorem countedKey_of_counted (h : Counted s cpu p) :
    countedKey time s cpu p = loadKey (time (s.rq cpu) (s.wts p)) := if_pos h

theorem counted_congr (hflags : (t.wts p).idle = (s.wts p).idle ∧
      (t.wts p).enqueueAfterMigration = (s.wts p).enqueueAfterMigration)
    (hcpu : t.taskCpu p = s.taskCpu p) : Counted t cpu p ↔ Counted s cpu p := by
  rw [Counted, Counted, hflags.1, hflags.2, hcpu]

theorem countedKey_congr (hcounted : Counted t cpu p ↔ Counted s cpu p)
    (htime : time (t.rq cpu) (t.wts p) = time (s.rq cpu) (s.wts p)) :
    countedKey time t cpu p = countedKey time s cpu p := by
  simp only [countedKey, hcounted, htime]

theorem currTime_congr (hq : SameRqWindow q q') (hr : SameTask r r') :
    currTime q' r' = currTime q r := by
  simp only [currTime, hq.windowStart, hr.windowStart, hr.currWindow]

theorem prevTime_congr (hq : SameRqWindow q q') (hr : SameTask r r') :
    prevTime q' r' = prevTime q r := by
  simp only [prevTime, hq.windowStart, hq.prevWindowSize, hr.windowStart, hr.currWindow,
    hr.prevWindow]

theorem times_zero (hcurr : r.currWindow = 0) (hprev : r.prevWindow = 0) :
    currTime q r = 0 ∧ prevTime q r = 0 := by
  simp only [currTime, prevTime, hcurr, hprev, ite_self, and_self]

end Keys

section Invariant
variable [Fintype Task]

structure TopTasksShow (s : State Task Cpu) (cpu : Cpu) : Prop where
  curr : (s.rq cpu).topTasks.curr.Shows (count (countedKey currTime s cpu))
  prev : (s.rq cpu).topTasks.prev.Shows (count (countedKey prevTime s cpu))

variable {topo : Topology Cpu} {s t : State Task Cpu} {cpu : Cpu}

section
variable (hs : TopTasksShow s cpu) (htop : (t.rq cpu).topTasks = (s.rq cpu).topTasks)
include hs htop

theorem topTasksShow_of_keys
    (hcurr : ∀ p, countedKey currTime t cpu p = countedKey currTime s cpu p)
    (hprev : ∀ p, countedKey prevTime t cpu p = countedKey prevTime s cpu p) :
    TopTasksShow t cpu := by
  refine ⟨?_, ?_⟩
  · rw [htop, funext hcurr]
    exact hs.curr
  · rw [htop, funext hprev]
    exact hs.prev

theorem topTasksShow_of_same (hrq : SameRqWindow (s.rq cpu) (t.rq cpu))
    (hwts : ∀ p, SameTask (s.wts p) (t.wts p)) (hcounted : ∀ p, Counted t cpu p ↔ Counted s cpu p) :
    TopTasksShow t cpu :=
  topTasksShow_of_keys hs htop
    (fun p => countedKey_congr (hcounted p) (currTime_congr hrq (hwts p)))
    (fun p => countedKey_congr (hcounted p) (prevTime_congr hrq (hwts p)))

end

theorem TopTasksShow.advance (hs : TopTasksShow s cpu) (hgrid : Grid s) {c : Cpu}
    {wallclock k : Nat} : TopTasksShow (s.advance c wallclock k) cpu := by
  obtain ⟨t, ht⟩ : ∃ t, t = s.advance c wallclock k := ⟨_, rfl⟩
  have hwts : t.wts = s.wts := by rw [ht]; rfl
  have hcpu : t.taskCpu = s.taskCpu := by rw [ht]; rfl
  have hcounted p : Counted t cpu p ↔ Counted s cpu p := by rw [Counted, Counted, hwts, hcpu]
  have hself : t.rq c = (s.rq c).advance s.schedRavgWindow wallclock k := by
    rw [ht]
    exact advance_rq_self c wallclock k
  rw [← ht]
  by_cases hsame : cpu = c ∧ k ≠ 0
  · obtain ⟨rfl, hk⟩ := hsame
    have hws : (t.rq cpu).windowStart = (s.rq cpu).windowStart + k * s.schedRavgWindow := by
      rw [hself, advance_windowStart]
    have hpws : (t.rq cpu).prevWindowSize = s.schedRavgWindow := by
      rw [hself, advance_prevWindowSize, if_neg hk]
    have htop : (t.rq cpu).topTasks = rolloverTopTasks (decide (k > 1)) (s.rq cpu).topTasks := by
      rw [hself, Wrq.advance, if_neg hk]
    have hlater : s.schedRavgWindow ≤ k * s.schedRavgWindow :=
      Nat.le_mul_of_pos_left _ (Nat.pos_of_ne_zero hk)
    have hpos := hgrid.agreed.window_pos
    -- No task that is accounted here is ahead of the window its CPU leaves.
    have hbehind p (hp : Counted s cpu p) : (s.wts p).windowStart ≤ (s.rq cpu).windowStart := by
      by_cases hmark : (s.wts p).markStart = 0
      · rw [(hgrid.unstarted p hmark).1]
        exact Nat.zero_le _
      · have := hgrid.here p hmark hp.2.1
        rwa [hp.2.2] at this
    have hcurr p : countedKey currTime t cpu p = none := by
      by_cases hp : Counted s cpu p
      · have := hbehind p hp
        rw [countedKey_of_counted ((hcounted p).2 hp), hwts, currTime, if_neg (by omega)]
        rfl
      · exact countedKey_of_not fun h => hp ((hcounted p).1 h)
    have hprev p : countedKey prevTime t cpu p =
        if decide (k > 1) = true then none else countedKey currTime s cpu p := by
      by_cases hp : Counted s cpu p
      · have := hbehind p hp
        rw [countedKey_of_counted ((hcounted p).2 hp), countedKey_of_counted hp, hwts, prevTime,
          if_neg (by omega), hws, hpws, currTime]
        by_cases hfull : k > 1
        · have hle : 2 * s.schedRavgWindow ≤ k * s.schedRavgWindow := Nat.mul_le_mul_right _ hfull
          rw [if_neg (by omega), decide_eq_true hfull, if_pos rfl]
          rfl
        · have hone : k = 1 := by omega
          simp only [hone, Nat.one_mul, Nat.add_right_cancel_iff, gt_iff_lt, Nat.lt_irrefl,
            decide_false, Bool.false_eq_true, if_false]
      · rw [countedKey_of_not fun h => hp ((hcounted p).1 h), countedKey_of_not hp, ite_self]
    have hzero : count (fun _ : Task => (none : Option Nat)) = fun _ => 0 := by
      funext i
      simp [count, ind]
    refine ⟨?_, ?_⟩
    · rw [htop, curr_rolloverTopTasks, funext hcurr, hzero]
      exact shows_emptySlot
    · rw [htop, prev_rolloverTopTasks, funext hprev]
      split_ifs
      · rw [hzero]
        exact shows_emptySlot
      · exact hs.curr
  · have hrq : (t.rq cpu).topTasks = (s.rq cpu).topTasks ∧
        (t.rq cpu).windowStart = (s.rq cpu).windowStart ∧
        (t.rq cpu).prevWindowSize = (s.rq cpu).prevWindowSize := by
      by_cases hc : cpu = c
      · subst hc
        have hk : k = 0 := by simpa using hsame
        rw [hself, Wrq.advance, if_pos hk]
        exact ⟨rfl, rfl, rfl⟩
      · rw [ht, advance_rq_of_ne hc]
        exact ⟨rfl, rfl, rfl⟩
    refine topTasksShow_of_keys hs hrq.1 (fun p => countedKey_congr (hcounted p) ?_)
      (fun p => countedKey_congr (hcounted p) ?_)
    · simp only [currTime, hrq.2.1, hwts]
    · simp only [prevTime, hrq.2.1, hrq.2.2, hwts]

def busyOthers (s : State Task Cpu) (p : Task) : Finset Task :=
  Finset.univ.filter fun p' => p' ≠ p ∧ Counted s (s.taskCpu p) p' ∧
    ((s.wts p').currWindow ≠ 0 ∨ (s.wts p').prevWindow ≠ 0)

def Room (s : State Task Cpu) (p : Task) : Prop := (busyOthers s p).card < 255

instance (s : State Task Cpu) (p : Task) : Decidable (Room s p) :=
  inferInstanceAs (Decidable (_ < _))

theorem count_fits {p : Task} (hroom : Room s p) {time : Wrq → Wts Cpu → Nat}
    (htime : ∀ q r, time q r ≠ 0 → r.currWindow ≠ 0 ∨ r.prevWindow ≠ 0)
    (hkeys : ∀ p', p' ≠ p →
      countedKey time t (s.taskCpu p) p' = countedKey time s (s.taskCpu p) p') (i : Nat) :
    count (countedKey time t (s.taskCpu p)) i < 256 := by
  refine (count_le_succ p (s := busyOthers s p) (fun p' hne hkey => ?_) i).trans_lt
    (Nat.succ_lt_succ hroom)
  rw [hkeys p' hne] at hkey
  have hcounted : Counted s (s.taskCpu p) p' := by
    by_contra hnot
    exact hkey (countedKey_of_not hnot)
  rw [countedKey_of_counted hcounted] at hkey
  refine Finset.mem_filter.2 ⟨Finset.mem_univ p', hne, hcounted, htime (s.rq (s.taskCpu p)) _ ?_⟩
  intro hzero
  exact hkey (by rw [hzero, loadKey_zero])

theorem window_of_currTime (q : Wrq) (r : Wts Cpu) (h : currTime q r ≠ 0) :
    r.currWindow ≠ 0 ∨ r.prevWindow ≠ 0 := by
  by_contra hnot
  rw [not_or, not_not, not_not] at hnot
  exact h (times_zero hnot.1 hnot.2).1

theorem window_of_prevTime (q : Wrq) (r : Wts Cpu) (h : prevTime q r ≠ 0) :
    r.currWindow ≠ 0 ∨ r.prevWindow ≠ 0 := by
  by_contra hnot
  rw [not_or, not_not, not_not] at hnot
  exact h (times_zero hnot.1 hnot.2).2

theorem times_here (h : r.windowStart = q.windowStart) :
    currTime q r = r.currWindow ∧ prevTime q r = r.prevWindow := by
  simp only [currTime, prevTime, if_pos h, and_self]

def FullCredit (c : Call) (q : Wrq) (r : Wts Cpu) : Prop :=
  r.idle = false → r.markStart ≠ 0 → accountBusyForCpuTime c r.idle = true →
    passesWindow q r = true → u32 (prevWindowDelta c q r) ≠ 0 →
    q.topTasks.prevTop ≤ loadToIndex (u32 (prevWindowDelta c q r))

instance (c : Call) (q : Wrq) (r : Wts Cpu) : Decidable (FullCredit c q r) := by
  unfold FullCredit
  infer_instance

section Account
variable {env : Env} {p : Task} {event : TaskEvent} {wallclock irqtime : Nat}

theorem keys_of_ne (h : Accounted env p event wallclock irqtime s t) {p' : Task} (hne : p' ≠ p)
    (cpu : Cpu) : countedKey currTime t cpu p' = countedKey currTime s cpu p' ∧
      countedKey prevTime t cpu p' = countedKey prevTime s cpu p' := by
  have hflags := h.frame.flags p'
  have hcounted : Counted t cpu p' ↔ Counted s cpu p' :=
    counted_congr ⟨hflags.idle, hflags.pending⟩ (by rw [h.frame.taskCpu])
  have hsame : SameTask (s.wts p') (t.wts p') := by
    rw [h.frame.wts p' hne]
    exact ⟨rfl, rfl, rfl, rfl, rfl, rfl⟩
  exact ⟨countedKey_congr hcounted (currTime_congr (h.sameRqWindow cpu) hsame),
    countedKey_congr hcounted (prevTime_congr (h.sameRqWindow cpu) hsame)⟩

variable (hgrid : Grid s) (hplaced : Placed s)
  (hcall : CoreCall s (.update env p event wallclock irqtime))
  (h : Accounted env p event wallclock irqtime s t)
  (hlt : wallclock < (s.rq (s.taskCpu p)).windowStart + s.schedRavgWindow)
  (hmark : (s.wts p).markStart ≤ wallclock)
  (hidle : (s.wts p).idle = false) (hstarted : (s.wts p).markStart ≠ 0)

include hplaced hcall hidle in
theorem not_busy_of_pending (hflag : ¬ Counted s (s.taskCpu p) p) :
    accountBusyForCpuTime (s.call env p event wallclock irqtime) (s.wts p).idle = false := by
  by_contra hbusy
  have hcurr := accounted_curr hcall hidle (by simpa using hbusy)
  exact hflag ⟨hidle, hplaced.settled p (.inr (.inr hcurr)), rfl⟩

include hgrid hlt hmark h in
theorem keys_after (hcounted : Counted s (s.taskCpu p) p) :
    countedKey currTime t (s.taskCpu p) p = loadKey (t.wts p).currWindow ∧
      countedKey prevTime t (s.taskCpu p) p = loadKey (t.wts p).prevWindow := by
  have hflags := h.frame.flags p
  have hcounted' : Counted t (s.taskCpu p) p :=
    (counted_congr ⟨hflags.idle, hflags.pending⟩ (by rw [h.frame.taskCpu])).2 hcounted
  have hws : (t.wts p).windowStart = (t.rq (s.taskCpu p)).windowStart := by
    rw [hgrid.account_window h hlt hmark, (h.sameRqWindow _).windowStart]
  obtain ⟨hcurr, hprev⟩ := times_here hws
  rw [countedKey_of_counted hcounted', countedKey_of_counted hcounted', hcurr, hprev]
  exact ⟨rfl, rfl⟩

include h in
theorem keys_of_pending (hflag : ¬ Counted s (s.taskCpu p) p) :
    countedKey currTime t (s.taskCpu p) p = countedKey currTime s (s.taskCpu p) p ∧
      countedKey prevTime t (s.taskCpu p) p = countedKey prevTime s (s.taskCpu p) p := by
  have hflags := h.frame.flags p
  have hflag' : ¬ Counted t (s.taskCpu p) p := fun h' =>
    hflag ((counted_congr ⟨hflags.idle, hflags.pending⟩ (by rw [h.frame.taskCpu])).1 h')
  simp only [countedKey_of_not hflag, countedKey_of_not hflag', and_self]

include hgrid hstarted in
/- Before an update that starts no window the task is in the window of its CPU; before one that
starts a window its time belongs to the window that has ended, unless a whole one has passed. -/
theorem keys_before (hcounted : Counted s (s.taskCpu p) p) :
    (startsWindow (s.rq (s.taskCpu p)) (s.wts p) = false →
      countedKey currTime s (s.taskCpu p) p = loadKey (s.wts p).currWindow ∧
        countedKey prevTime s (s.taskCpu p) p = loadKey (s.wts p).prevWindow) ∧
    (startsWindow (s.rq (s.taskCpu p)) (s.wts p) = true →
      countedKey currTime s (s.taskCpu p) p = none ∧
        countedKey prevTime s (s.taskCpu p) p =
          loadKey (if passesWindow (s.rq (s.taskCpu p)) (s.wts p) then 0
            else (s.wts p).currWindow)) := by
  have hon := hgrid.started p hstarted
  have hhere := hgrid.here p hstarted hcounted.2.1
  refine ⟨fun hstarts => ?_, fun hstarts => ?_⟩
  · have hle : (s.rq (s.taskCpu p)).windowStart ≤ (s.wts p).markStart := by
      simpa [startsWindow] using hstarts
    obtain ⟨hcurr, hprev⟩ := times_here (hgrid.window_eq hle hhere)
    rw [countedKey_of_counted hcounted, countedKey_of_counted hcounted, hcurr, hprev]
    exact ⟨rfl, rfl⟩
  · have hbefore : (s.wts p).markStart < (s.rq (s.taskCpu p)).windowStart := by
      simpa [startsWindow] using hstarts
    have hle := hon.start_le
    have hne : (s.wts p).windowStart ≠ (s.rq (s.taskCpu p)).windowStart := by omega
    have hpast := (hon.seen (s.taskCpu p)).past (by omega)
    rw [countedKey_of_counted hcounted, countedKey_of_counted hcounted, currTime, prevTime,
      if_neg hne, if_neg hne]
    refine ⟨rfl, congrArg loadKey ?_⟩
    cases hfull : passesWindow (s.rq (s.taskCpu p)) (s.wts p) with
    | true =>
      -- Exactly one window back the task was marked at the start of its window.
      have hsize : (s.rq (s.taskCpu p)).prevWindowSize ≤
          (s.rq (s.taskCpu p)).windowStart - (s.wts p).markStart := by
        simpa [passesWindow, hstarts] using hfull
      rw [if_pos rfl]
      split_ifs with hback
      · exact hon.fresh (by omega) hcounted.1
      · rfl
    | false =>
      have hsize : (s.rq (s.taskCpu p)).windowStart - (s.wts p).markStart <
          (s.rq (s.taskCpu p)).prevWindowSize := by
        simpa [passesWindow, hstarts] using hfull
      have hback := hpast.2.resolve_right (by omega)
      rw [if_pos hback]
      rfl

include hgrid hplaced hcall h hlt hmark hidle hstarted in
theorem curr_account (hs : TopTasksShow s (s.taskCpu p)) (hroom : Room s p)
    (hfits : Fits (s.call env p event wallclock irqtime) (s.rq (s.taskCpu p)) (s.wts p)) :
    (t.rq (s.taskCpu p)).topTasks.curr.Shows (count (countedKey currTime t (s.taskCpu p))) := by
  have hm := count_moves p fun p' hne => (keys_of_ne h hne (s.taskCpu p)).1
  have hcount := count_fits hroom window_of_currTime
    fun p' hne => (keys_of_ne h hne (s.taskCpu p)).1
  rw [h.topTasks hstarted, if_neg (by simp [hidle]), curr_updateTopTasks]
  by_cases hcounted : Counted s (s.taskCpu p) p
  · rw [(keys_after hgrid h hlt hmark hcounted).1] at hm
    cases hstarts : startsWindow (s.rq (s.taskCpu p)) (s.wts p) with
    | true =>
      rw [((keys_before hgrid hstarted hcounted).2 hstarts).1] at hm
      exact hs.curr.addTask hm hcount
    | false =>
      rw [((keys_before hgrid hstarted hcounted).1 hstarts).1] at hm
      by_cases hsame : (s.wts p).currWindow = (t.wts p).currWindow
      · rw [hsame] at hm
        rw [hm.eq, if_pos hsame]
        exact hs.curr
      · rw [if_neg hsame]
        refine hs.curr.moveTask hm hcount ?_
        rw [(h.times_inWindow hidle hstarted hstarts).1]
        exact le_credit fun hbusy => (hfits hidle hstarted hbusy).1 hstarts
  · have hbusy := not_busy_of_pending hplaced hcall hidle hcounted
    rw [(keys_of_pending h hcounted).1] at hm
    rw [hm.eq]
    cases hstarts : startsWindow (s.rq (s.taskCpu p)) (s.wts p) with
    | true =>
      rw [(h.times_across hidle hstarted hstarts).1, hbusy]
      exact hs.curr
    | false =>
      have hsame : (s.wts p).currWindow = (t.wts p).currWindow := by
        rw [(h.times_inWindow hidle hstarted hstarts).1, hbusy]
        rfl
      rw [if_neg Bool.false_ne_true, if_pos hsame]
      exact hs.curr

include hgrid hplaced hcall h hlt hmark hidle hstarted in
theorem prev_account (hs : TopTasksShow s (s.taskCpu p)) (hroom : Room s p)
    (hfits : Fits (s.call env p event wallclock irqtime) (s.rq (s.taskCpu p)) (s.wts p))
    (hcredit : FullCredit (s.call env p event wallclock irqtime) (s.rq (s.taskCpu p)) (s.wts p)) :
    (t.rq (s.taskCpu p)).topTasks.prev.Shows (count (countedKey prevTime t (s.taskCpu p))) := by
  have hm := count_moves p fun p' hne => (keys_of_ne h hne (s.taskCpu p)).2
  have hcount := count_fits hroom window_of_prevTime
    fun p' hne => (keys_of_ne h hne (s.taskCpu p)).2
  rw [h.topTasks hstarted, if_neg (by simp [hidle]), prev_updateTopTasks]
  cases hstarts : startsWindow (s.rq (s.taskCpu p)) (s.wts p) with
  | false =>
    rw [if_neg Bool.false_ne_true]
    by_cases hcounted : Counted s (s.taskCpu p) p
    · rw [(keys_after hgrid h hlt hmark hcounted).2,
        ((keys_before hgrid hstarted hcounted).1 hstarts).2,
        (h.times_inWindow hidle hstarted hstarts).2] at hm
      rw [hm.eq]
      exact hs.prev
    · rw [(keys_of_pending h hcounted).2] at hm
      rw [hm.eq]
      exact hs.prev
  | true =>
    have hprev := (h.times_across hidle hstarted hstarts).2
    rw [if_pos rfl]
    by_cases hcounted : Counted s (s.taskCpu p) p
    · rw [(keys_after hgrid h hlt hmark hcounted).2,
        ((keys_before hgrid hstarted hcounted).2 hstarts).2] at hm
      cases hfull : passesWindow (s.rq (s.taskCpu p)) (s.wts p) with
      | true =>
        rw [hfull, if_pos rfl] at hm hprev
        refine hs.prev.addFullWindow hm hcount fun hne => ?_
        -- Without busy time nothing is credited.
        cases hbusy : accountBusyForCpuTime (s.call env p event wallclock irqtime)
            (s.wts p).idle with
        | false =>
          rw [hprev, hbusy] at hne
          exact absurd rfl hne
        | true =>
          rw [hbusy, credit, if_pos rfl, Nat.zero_add] at hprev
          rw [hprev] at hne ⊢
          exact hcredit hidle hstarted hbusy hfull hne
      | false =>
        rw [hfull, if_neg Bool.false_ne_true] at hm hprev
        refine hs.prev.closeWindow hm hcount ?_
        rw [hprev]
        exact le_credit fun hbusy => (hfits hidle hstarted hbusy).2 hstarts hfull
    · have hbusy := not_busy_of_pending hplaced hcall hidle hcounted
      rw [hbusy] at hprev
      have hkeys := (keys_of_pending h hcounted).2
      rw [countedKey_of_not hcounted] at hkeys
      rw [hkeys, countedKey_of_not hcounted] at hm
      cases hfull : passesWindow (s.rq (s.taskCpu p)) (s.wts p) with
      | true =>
        rw [hfull, if_pos rfl] at hprev
        rw [if_pos rfl, hprev]
        exact hs.prev.addFullWindow hm hcount fun hne => absurd rfl hne
      | false =>
        rw [hfull, if_neg Bool.false_ne_true] at hprev
        rw [if_neg Bool.false_ne_true, hprev]
        change (Slot.closeWindow _ _ (s.wts p).currWindow).Shows _
        rw [Slot.closeWindow_self, hm.eq]
        exact hs.prev

include hgrid hplaced hcall h hlt hmark in
theorem TopTasksShow.account (hs : ∀ cpu, TopTasksShow s cpu) (hroom : Room s p)
    (hfits : Fits (s.call env p event wallclock irqtime) (s.rq (s.taskCpu p)) (s.wts p))
    (hcredit : FullCredit (s.call env p event wallclock irqtime) (s.rq (s.taskCpu p)) (s.wts p))
    (cpu : Cpu) : TopTasksShow t cpu := by
  have hflags := h.frame.flags p
  have hcounted' cpu' : Counted t cpu' p ↔ Counted s cpu' p :=
    counted_congr ⟨hflags.idle, hflags.pending⟩ (by rw [h.frame.taskCpu])
  by_cases hbusy : cpu = s.taskCpu p ∧ (s.wts p).idle = false ∧ (s.wts p).markStart ≠ 0
  · obtain ⟨rfl, hidle, hstarted⟩ := hbusy
    exact ⟨curr_account hgrid hplaced hcall h hlt hmark hidle hstarted (hs _) hroom hfits,
      prev_account hgrid hplaced hcall h hlt hmark hidle hstarted (hs _) hroom hfits hcredit⟩
  · -- Everywhere else the tables stay as they are and the task is counted nowhere.
    have htop : (t.rq cpu).topTasks = (s.rq cpu).topTasks := by
      by_cases hcpu : cpu = s.taskCpu p
      · rw [hcpu]
        by_cases hstarted : (s.wts p).markStart = 0
        · rw [(h.times_first hstarted).1]
        · have hidle : (s.wts p).idle = true := by
            by_contra hnot
            exact hbusy ⟨hcpu, by simpa using hnot, hstarted⟩
          rw [h.topTasks hstarted, if_pos hidle]
      · rw [h.frame.rq cpu hcpu]
    have hkey (time : Wrq → Wts Cpu → Nat)
        (hzero : (s.wts p).markStart = 0 → time (t.rq cpu) (t.wts p) = time (s.rq cpu) (s.wts p)) :
        countedKey time t cpu p = countedKey time s cpu p := by
      by_cases hcounted : Counted s cpu p
      · refine countedKey_congr (hcounted' cpu) (hzero ?_)
        by_contra hstarted
        exact hbusy ⟨hcounted.2.2.symm, hcounted.1, hstarted⟩
      · rw [countedKey_of_not hcounted, countedKey_of_not fun h' => hcounted ((hcounted' cpu).1 h')]
    have hzero (hmark0 : (s.wts p).markStart = 0) :
        (currTime (t.rq cpu) (t.wts p) = 0 ∧ prevTime (t.rq cpu) (t.wts p) = 0) ∧
        (currTime (s.rq cpu) (s.wts p) = 0 ∧ prevTime (s.rq cpu) (s.wts p) = 0) := by
      obtain ⟨-, hcurr, hprev⟩ := hgrid.unstarted p hmark0
      obtain ⟨-, hcurr', hprev'⟩ := h.times_first hmark0
      exact ⟨times_zero (hcurr'.trans hcurr) (hprev'.trans hprev), times_zero hcurr hprev⟩
    refine topTasksShow_of_keys (hs cpu) htop (fun p' => ?_) (fun p' => ?_)
    · by_cases hne : p' = p
      · rw [hne]
        exact hkey currTime fun h0 => (hzero h0).1.1.trans (hzero h0).2.1.symm
      · exact (keys_of_ne h hne cpu).1
    · by_cases hne : p' = p
      · rw [hne]
        exact hkey prevTime fun h0 => (hzero h0).1.2.trans (hzero h0).2.2.symm
      · exact (keys_of_ne h hne cpu).2

end Account

end Invariant
end MsmKernel.Walt
