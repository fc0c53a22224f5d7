import MsmKernel.Walt.Mvp

/-! The MVP queue of every runqueue along every run: each MVP task once, the count, and the order. -/
namespace MsmKernel.Mvp
open Walt Run PriorityList Function Option State
variable {ρ τ : Type} {s t : State ρ τ} {p q : τ} {r : ρ} {place : τ → Option ρ} {but : Option τ}

/-- The queues hold the MVP tasks at their places, in order, with `but` left out: that task is in no
list whatever its priority. -/
structure Inv (but : Option τ) (place : τ → Option ρ) (s : State ρ τ) : Prop where
  ordered : ∀ r, Ordered s.prio s.stamp (s.mvpTasks r)
  count : ∀ r, (s.wrq r).numMvpTasks = (s.mvpTasks r).length
  listed : ∀ r q, q ∈ s.mvpTasks r → (s.task q).mvpPrio ≠ .notMvp ∧ place q = some r ∧ but ≠ some q
  unlisted : ∀ q, but ≠ some q → ¬ s.Listed q → (s.task q).mvpPrio = .notMvp
  stamped : ∀ r, ∀ q ∈ s.mvpTasks r, -(s.insertions : Int) ≤ s.stamp q ∧ s.stamp q ≤ s.insertions

theorem Inv.of_started (h : Started s) : Inv none place s := by
  refine ⟨fun r => ?_, fun r => ?_, fun r q hq => ?_, fun q _ _ => (h.2 q).1, fun r q hq => ?_⟩
  · rw [(h.1 r).1]
    exact List.Pairwise.nil
  · rw [(h.1 r).1, (h.1 r).2]
    rfl
  all_goals
    rw [(h.1 r).1] at hq
    exact absurd hq List.not_mem_nil

theorem Inv.congr (h : Inv but place s) (hprio : ∀ q, (t.task q).mvpPrio = (s.task q).mvpPrio)
    (htasks : ∀ r, t.mvpTasks r = s.mvpTasks r)
    (hnum : ∀ r, (t.wrq r).numMvpTasks = (s.wrq r).numMvpTasks)
    (hins : t.insertions = s.insertions) (hstamp : t.stamp = s.stamp) : Inv but place t := by
  have hkey : t.prio = s.prio := funext fun q => by rw [prio, prio, hprio]
  refine ⟨fun r => ?_, fun r => ?_, fun r q hq => ?_, fun q hbut hq => ?_, fun r q hq => ?_⟩
  · rw [hkey, hstamp, htasks]
    exact h.ordered r
  · rw [hnum, htasks]
    exact h.count r
  · rw [htasks] at hq
    rw [hprio]
    exact h.listed r q hq
  · simp only [State.Listed, htasks] at hq
    rw [hprio]
    exact h.unlisted q hbut hq
  · rw [htasks] at hq
    rw [hins, hstamp]
    exact h.stamped r q hq

theorem Inv.not_listed (h : Inv but place s) (hprio : (s.task p).mvpPrio = .notMvp) : ¬ s.Listed p :=
  fun ⟨r, hin⟩ => (h.listed r p hin).1 hprio

theorem Inv.mem_of_listed (h : Inv but place s) (hp : s.Listed p) (hplace : place p = some r) :
    p ∈ s.mvpTasks r := by
  obtain ⟨r', hin⟩ := hp
  obtain rfl : r' = r := some.inj ((h.listed r' p hin).2.1.symm.trans hplace)
  exact hin

/-- The MVP tasks of a runqueue are each listed once, counted, of falling priority, and with equal
priority in the order of their stamps. -/
structure QueueOk (s : State ρ τ) : Prop where
  nodup : ∀ r, (s.mvpTasks r).Nodup
  count : ∀ r, (s.wrq r).numMvpTasks = (s.mvpTasks r).length
  mem_iff : ∀ r p, p ∈ s.mvpTasks r ↔ (s.task p).mvpPrio ≠ .notMvp ∧ s.queuedOn p = some r
  unlisted : ∀ p, ¬ s.Listed p → (s.task p).mvpPrio = .notMvp
  ordered : ∀ r, (s.mvpTasks r).Pairwise fun p q =>
    s.prio q < s.prio p ∨ s.prio p = s.prio q ∧ s.stamp p < s.stamp q

theorem Inv.queueOk (h : Inv none s.queuedOn s) : QueueOk s := by
  refine ⟨fun r => (h.ordered r).nodup, h.count, fun r p => ⟨fun hin => ?_, fun ⟨hprio, hp⟩ => ?_⟩,
    fun p hp => h.unlisted p nofun hp, h.ordered⟩
  · obtain ⟨hprio, hplace, -⟩ := h.listed r p hin
    exact ⟨hprio, hplace⟩
  · have hlisted : s.Listed p := by
      by_contra hnot
      exact hprio (h.unlisted p nofun hnot)
    exact h.mem_of_listed hlisted hp

theorem throttle_tasks (clock : Nat) (w : Wrq τ) :
    (throttle clock w).mvpTasks = w.mvpTasks ∧ (throttle clock w).numMvpTasks = w.numMvpTasks := by
  unfold throttle
  split_ifs <;> exact ⟨rfl, rfl⟩

theorem ne_of_not_listed (hp : ¬ s.Listed p) (hq : q ∈ s.mvpTasks r) : q ≠ p :=
  fun heq => hp ⟨r, heq ▸ hq⟩

section Tasks
variable [DecidableEq τ]

variable (h : Inv but place s)
include h

theorem Inv.setTask {x : Task} (hx : x.mvpPrio = (s.task p).mvpPrio) :
    Inv but place (s.setTask p x) := by
  refine h.congr (fun q => ?_) (fun _ => rfl) (fun _ => rfl) rfl rfl
  by_cases hq : q = p
  · simp [State.setTask, hq, hx]
  · simp [State.setTask, hq]

/- A task in no list may get any priority while it is left out, and none when it no longer is. -/
theorem Inv.setOut {but' : Option τ} (hbut : ∀ q, q ≠ p → but ≠ some q) (hp : ¬ s.Listed p)
    {x : Task} (hbut' : ∀ q, q ≠ p → but' ≠ some q) (hx : but' = some p ∨ x.mvpPrio = .notMvp) :
    Inv but' place (s.setTask p x) := by
  refine ⟨fun r => ?_, h.count, fun r q hq => ?_, fun q hq hnot => ?_, h.stamped⟩
  · refine (h.ordered r).congr (fun q hq => ?_) fun _ _ => rfl
    rw [prio, setTask_task_of_ne s (ne_of_not_listed hp hq), prio]
  · obtain ⟨hprio, hplace, -⟩ := h.listed r q hq
    have hqp := ne_of_not_listed hp hq
    exact ⟨by rwa [setTask_task_of_ne s hqp], hplace, hbut' q hqp⟩
  · by_cases hqp : q = p
    · subst hqp
      rw [setTask_task_self]
      exact hx.resolve_left hq
    · rw [setTask_task_of_ne s hqp]
      exact h.unlisted q (hbut q hqp) hnot

theorem Inv.move (hp : ¬ s.Listed p) (x : Option ρ) : Inv but (update place p x) s := by
  refine ⟨h.ordered, h.count, fun r q hq => ?_, h.unlisted, h.stamped⟩
  rw [update_of_ne (ne_of_not_listed hp hq)]
  exact h.listed r q hq

end Tasks

section Runqueues
variable [DecidableEq ρ]

theorem pick_eq (s : State ρ τ) (r : ρ) (clock : Nat) :
    ∃ arrival, (waltCfsReplaceNextTaskFair s r clock).1 =
      s.setWrq r { s.wrq r with mvpArrivalTime := arrival } := by
  have hsame : s = s.setWrq r { s.wrq r with mvpArrivalTime := (s.wrq r).mvpArrivalTime } := by
    simp [State.setWrq]
  unfold waltCfsReplaceNextTaskFair
  dsimp only
  split
  · exact ⟨_, hsame⟩
  · split
    · exact ⟨0, rfl⟩
    · split
      · exact ⟨clock, rfl⟩
      · exact ⟨_, hsame⟩

theorem mvpTasks_setWrq (s : State ρ τ) (r r' : ρ) {w : Wrq τ} (htasks : w.mvpTasks = s.mvpTasks r) :
    (s.setWrq r w).mvpTasks r' = s.mvpTasks r' := by
  by_cases hr : r' = r
  · simp [State.setWrq, mvpTasks, hr, htasks]
  · simp [State.setWrq, mvpTasks, hr]

theorem Inv.setWrq (h : Inv but place s) {w : Wrq τ} (htasks : w.mvpTasks = s.mvpTasks r)
    (hnum : w.numMvpTasks = (s.wrq r).numMvpTasks) : Inv but place (s.setWrq r w) := by
  refine h.congr (fun _ => rfl) (fun r' => mvpTasks_setWrq s r r' htasks) (fun r' => ?_) rfl rfl
  by_cases hr : r' = r
  · simp [State.setWrq, hr, hnum]
  · simp [State.setWrq, hr]

end Runqueues

variable [DecidableEq ρ] [DecidableEq τ]

theorem mvpTasks_unlink (s : State ρ τ) (r r' : ρ) (p : τ) :
    ((s.listDel p).addNum r (-1)).mvpTasks r' = (s.mvpTasks r').erase p := by
  by_cases hr : r' = r <;> simp [mvpTasks, addNum, State.setWrq, listDel, hr]

theorem numMvpTasks_unlink (s : State ρ τ) (r r' : ρ) (p : τ) :
    (((s.listDel p).addNum r (-1)).wrq r').numMvpTasks =
      (s.wrq r').numMvpTasks - if r' = r then 1 else 0 := by
  by_cases hr : r' = r
  · simp [addNum, State.setWrq, listDel, hr, Int.sub_eq_add_neg]
  · simp [addNum, State.setWrq, listDel, hr]

theorem Inv.unlink (h : Inv none place s) (hp : p ∈ s.mvpTasks r) :
    Inv (some p) place ((s.listDel p).addNum r (-1)) := by
  have hsub : ∀ r', ∀ q ∈ (s.mvpTasks r').erase p, q ∈ s.mvpTasks r' :=
    fun r' q hq => List.mem_of_mem_erase hq
  refine ⟨fun r' => ?_, fun r' => ?_, fun r' q hq => ?_, fun q hbut hq => ?_, fun r' q hq => ?_⟩
  · rw [mvpTasks_unlink]
    exact (h.ordered r').erase p
  · rw [mvpTasks_unlink, numMvpTasks_unlink, h.count]
    split
    · rename_i hr
      have hpos : 0 < (s.mvpTasks r').length := List.length_pos_of_mem (hr ▸ hp)
      rw [List.length_erase_of_mem (hr ▸ hp)]
      omega
    · rename_i hr
      have hnot : p ∉ s.mvpTasks r' := fun hin =>
        hr (some.inj ((h.listed r' p hin).2.1.symm.trans (h.listed r p hp).2.1))
      rw [List.erase_of_not_mem hnot]
      simp
  · rw [mvpTasks_unlink] at hq
    obtain ⟨hprio, hplace, -⟩ := h.listed r' q (hsub r' q hq)
    refine ⟨hprio, hplace, fun heq => ?_⟩
    exact (h.ordered r').nodup.not_mem_erase (some.inj heq ▸ hq)
  · have hqp : q ≠ p := fun heq => hbut (heq ▸ rfl)
    refine h.unlisted q nofun fun ⟨r', hin⟩ => hq ⟨r', ?_⟩
    rw [mvpTasks_unlink]
    exact (List.mem_erase_of_ne hqp).mpr hin
  · rw [mvpTasks_unlink] at hq
    exact h.stamped r' q (hsub r' q hq)

theorem Inv.deactivate (h : Inv none place s) (hp : p ∈ s.mvpTasks r) :
    Inv none place (waltCfsDeactivateMvpTask s r p) := by
  have hout := h.unlink hp
  exact hout.setOut (fun q hqp heq => hqp (some.inj heq).symm)
    (fun ⟨r', hin⟩ => (hout.listed r' p hin).2.2 rfl) nofun (.inr rfl)

theorem mvpTasks_insert (s : State ρ τ) (r r' : ρ) (p : τ) (atFront : Bool) :
    (waltCfsInsertMvpTask s r p atFront).mvpTasks r' =
      if r' = r then PriorityList.insert s.prio atFront p (s.mvpTasks r) else s.mvpTasks r' := by
  by_cases hr : r' = r <;>
    simp [waltCfsInsertMvpTask, mvpTasks, addNum, State.setWrq, hr]

theorem numMvpTasks_insert (s : State ρ τ) (r r' : ρ) (p : τ) (atFront : Bool) :
    ((waltCfsInsertMvpTask s r p atFront).wrq r').numMvpTasks =
      (s.wrq r').numMvpTasks + if r' = r then 1 else 0 := by
  by_cases hr : r' = r <;> simp [waltCfsInsertMvpTask, addNum, State.setWrq, hr]

theorem mem_mvpTasks_insert {r' : ρ} {atFront : Bool} :
    q ∈ (waltCfsInsertMvpTask s r p atFront).mvpTasks r' ↔ r' = r ∧ q = p ∨ q ∈ s.mvpTasks r' := by
  rw [mvpTasks_insert]
  by_cases hr : r' = r <;> simp [hr]

theorem stamp_insert_self (s : State ρ τ) (r : ρ) (p : τ) (atFront : Bool) :
    (waltCfsInsertMvpTask s r p atFront).stamp p =
      if atFront then -(s.insertions + 1 : Int) else (s.insertions + 1 : Int) :=
  update_self ..

section
variable (h : Inv (some p) place s)
include h

theorem Inv.stamp_insert {r' : ρ} (hq : q ∈ s.mvpTasks r') (atFront : Bool) :
    (waltCfsInsertMvpTask s r p atFront).stamp q = s.stamp q :=
  update_of_ne (fun heq : q = p => (h.listed r' q hq).2.2 (heq ▸ rfl)) ..

/-- The new entry is stamped beyond all others, on the side on which it is inserted. -/
theorem ordered_inserted (atFront : Bool) :
    Ordered s.prio (waltCfsInsertMvpTask s r p atFront).stamp
      (PriorityList.insert s.prio atFront p (s.mvpTasks r)) := by
  have hold : Ordered s.prio (waltCfsInsertMvpTask s r p atFront).stamp (s.mvpTasks r) :=
    (h.ordered r).congr (fun _ _ => rfl) fun q hq => h.stamp_insert hq atFront
  cases atFront with
  | true =>
    refine ordered_insert_ahead hold fun q hq => ?_
    have hbound := h.stamped r q hq
    rw [h.stamp_insert hq, stamp_insert_self, if_pos rfl]
    omega
  | false =>
    refine ordered_insert_behind hold fun q hq => ?_
    have hbound := h.stamped r q hq
    rw [h.stamp_insert hq, stamp_insert_self, if_neg Bool.false_ne_true]
    omega

theorem Inv.insert (hprio : (s.task p).mvpPrio ≠ .notMvp) (atFront : Bool) :
    Inv none (update place p (some r)) (waltCfsInsertMvpTask s r p atFront) := by
  have hkey : (waltCfsInsertMvpTask s r p atFront).prio = s.prio := rfl
  refine ⟨fun r' => ?_, fun r' => ?_, fun r' q hq => ?_, fun q _ hq => ?_, fun r' q hq => ?_⟩
  · rw [hkey, mvpTasks_insert]
    split
    · exact ordered_inserted h atFront
    · exact (h.ordered r').congr (fun _ _ => rfl) fun q hq => h.stamp_insert hq atFront
  · rw [mvpTasks_insert, numMvpTasks_insert, h.count]
    split
    · rename_i hr
      rw [hr, length_insert]
      rfl
    · simp
  · rcases mem_mvpTasks_insert.mp hq with ⟨rfl, rfl⟩ | hq
    · exact ⟨hprio, update_self _ _ _, nofun⟩
    · obtain ⟨hq', hplace, hqp⟩ := h.listed r' q hq
      have hne : q ≠ p := fun heq => hqp (heq ▸ rfl)
      exact ⟨hq', by rw [update_of_ne hne, hplace], nofun⟩
  · have hqp : q ≠ p := fun heq => hq ⟨r, mem_mvpTasks_insert.mpr (.inl ⟨rfl, heq⟩)⟩
    refine h.unlisted q (fun heq => hqp (some.inj heq).symm) fun ⟨r', hin⟩ => hq ⟨r', ?_⟩
    exact mem_mvpTasks_insert.mpr (.inr hin)
  · have hins : (waltCfsInsertMvpTask s r p atFront).insertions = s.insertions + 1 := rfl
    rcases mem_mvpTasks_insert.mp hq with ⟨-, rfl⟩ | hq
    · rw [stamp_insert_self]
      split <;> omega
    · have hbound := h.stamped r' q hq
      rw [h.stamp_insert hq]
      omega

end

theorem Inv.requeue (h : Inv none place s) (hp : p ∈ s.mvpTasks r) :
    Inv none place (waltCfsInsertMvpTask ((s.listDel p).addNum r (-1)) r p false) := by
  obtain ⟨hprio, hplace, -⟩ := h.listed r p hp
  have hin := (h.unlink hp).insert (r := r) hprio false
  rwa [update_eq_self_iff.mpr hplace.symm] at hin

def accounted (s : State ρ τ) (r : ρ) (p : τ) (clock : Nat) (x : Task) : State ρ τ :=
  (s.setWrq r (throttle clock (s.wrq r))).setTask p x

/-- The three outcomes of the accounting: the task keeps its place, is demoted, or is queued again. -/
theorem account_cases (s : State ρ τ) (r : ρ) (p : τ) (clock : Nat) :
    ∃ x : Task, x.mvpPrio = (s.task p).mvpPrio ∧
      (waltCfsAccountMvpRuntime s r p clock = accounted s r p clock x ∨
        (waltCfsMvpTaskLimit x.mvpPrio < x.totalExec ∧
          waltCfsAccountMvpRuntime s r p clock =
            { waltCfsDeactivateMvpTask (accounted s r p clock x) r p with
              demotedAs := update s.demotedAs p (some x.mvpPrio) }) ∨
        waltCfsAccountMvpRuntime s r p clock =
          waltCfsInsertMvpTask (((accounted s r p clock x).listDel p).addNum r (-1)) r p false) := by
  rw [waltCfsAccountMvpRuntime]
  dsimp only
  by_cases hslice : ((s.setWrq r (throttle clock (s.wrq r))).task p).sumExecRuntime -
      ((s.setWrq r (throttle clock (s.wrq r))).task p).sumExecSnapshotForSlice <
      if ((s.setWrq r (throttle clock (s.wrq r))).task p).mvpPrio = .pipeline then WALT_MVP_LIMIT
      else WALT_MVP_SLICE
  · rw [if_pos hslice]
    exact ⟨_, by rfl, .inl rfl⟩
  · rw [if_neg hslice]
    split_ifs with hlimit hone
    · exact ⟨_, by rfl, .inr (.inl ⟨by exact hlimit, rfl⟩)⟩
    · exact ⟨_, by rfl, .inl rfl⟩
    · exact ⟨_, by rfl, .inr (.inr rfl)⟩

theorem Inv.accounted (h : Inv none place s) (clock : Nat) {x : Task}
    (hx : x.mvpPrio = (s.task p).mvpPrio) : Inv none place (accounted s r p clock x) := by
  obtain ⟨htasks, hnum⟩ := throttle_tasks clock (s.wrq r)
  exact (h.setWrq htasks hnum).setTask hx

theorem mvpTasks_accounted (clock : Nat) (x : Task) (r' : ρ) :
    (accounted s r p clock x).mvpTasks r' = s.mvpTasks r' :=
  mvpTasks_setWrq s r r' (throttle_tasks clock (s.wrq r)).1

theorem Inv.account (h : Inv none place s) (hp : p ∈ s.mvpTasks r) (clock : Nat) :
    Inv none place (waltCfsAccountMvpRuntime s r p clock) := by
  obtain ⟨x, hx, hcases⟩ := account_cases s r p clock
  have hacc : Inv none place (Mvp.accounted s r p clock x) := h.accounted clock hx
  have hin : p ∈ (Mvp.accounted s r p clock x).mvpTasks r := by rwa [mvpTasks_accounted]
  rcases hcases with heq | ⟨-, heq⟩ | heq
  · exact heq ▸ hacc
  · rw [heq]
    exact (hacc.deactivate hin).congr (fun _ => rfl) (fun _ => rfl) (fun _ => rfl) rfl rfl
  · exact heq ▸ hacc.requeue hin

theorem setTask_insert (s : State ρ τ) (r : ρ) (p : τ) (atFront : Bool) {x y : Task}
    (hy : y.mvpPrio = x.mvpPrio) :
    (waltCfsInsertMvpTask (s.setTask p x) r p atFront).setTask p y =
      waltCfsInsertMvpTask (s.setTask p y) r p atFront := by
  have hprio : (s.setTask p x).prio = (s.setTask p y).prio := by
    funext q
    by_cases hq : q = p
    · simp [prio, State.setTask, hq, hy]
    · simp [prio, State.setTask, hq]
  simp only [waltCfsInsertMvpTask, hprio]
  simp [State.setTask, addNum, State.setWrq]

/-- The two outcomes of an enqueue: the task stays outside or is inserted. -/
theorem enqueue_cases (env : Env) (s : State ρ τ) (r : ρ) (p : τ) (onCpu : Bool) :
    ∃ x : Task, x.totalExec = (s.task p).totalExec ∧
      (((waltGetMvpTaskPrio env (s.task p).attrs).1 = .notMvp ∨
            waltCfsMvpTaskLimit (s.task p).mvpPrio < (s.task p).totalExec) ∧
          x.mvpPrio = (s.task p).mvpPrio ∧ waltCfsEnqueueTask env s r p onCpu = s.setTask p x ∨
        (waltGetMvpTaskPrio env (s.task p).attrs).1 ≠ .notMvp ∧
          (s.task p).totalExec ≤ waltCfsMvpTaskLimit (s.task p).mvpPrio ∧
          x.mvpPrio = (waltGetMvpTaskPrio env (s.task p).attrs).1 ∧
          waltCfsEnqueueTask env s r p onCpu = waltCfsInsertMvpTask (s.setTask p x) r p onCpu) := by
  rw [waltCfsEnqueueTask]
  dsimp only
  split_ifs with hprio hlimit hzero
  · exact ⟨_, by rfl, .inl ⟨.inl hprio, by rfl, rfl⟩⟩
  · exact ⟨_, by rfl, .inl ⟨.inr hlimit, by rfl, rfl⟩⟩
  · exact ⟨_, by rfl, .inr ⟨hprio, Nat.not_lt.mp hlimit, by rfl, setTask_insert s r p onCpu (by rfl)⟩⟩
  · exact ⟨_, by rfl, .inr ⟨hprio, Nat.not_lt.mp hlimit, by rfl, rfl⟩⟩

theorem Inv.enqueue (h : Inv none place s) (hp : place p = none) (env : Env) (onCpu : Bool) :
    Inv none (update place p (some r)) (waltCfsEnqueueTask env s r p onCpu) := by
  have hnot : ¬ s.Listed p := fun ⟨r', hin⟩ => by
    rw [(h.listed r' p hin).2.1] at hp
    exact absurd hp (by simp)
  obtain ⟨x, -, ⟨-, hx, heq⟩ | ⟨hprio, -, hx, heq⟩⟩ := enqueue_cases env s r p onCpu
  · rw [heq]
    exact (h.setTask hx).move hnot (some r)
  · rw [heq]
    have haside : Inv (some p) place (s.setTask p x) := h.setOut nofun hnot
      (fun q hqp heq => hqp (some.inj heq).symm) (.inl rfl)
    exact haside.insert (by rwa [setTask_task_self, hx]) onCpu

theorem queuedOn_account (s : State ρ τ) (r : ρ) (p : τ) (clock : Nat) :
    (waltCfsAccountMvpRuntime s r p clock).queuedOn = s.queuedOn := by
  obtain ⟨x, -, heq | ⟨-, heq⟩ | heq⟩ := account_cases s r p clock <;> rw [heq] <;> rfl

theorem queuedOn_enqueue (env : Env) (s : State ρ τ) (r : ρ) (p : τ) (onCpu : Bool) :
    (waltCfsEnqueueTask env s r p onCpu).queuedOn = s.queuedOn := by
  obtain ⟨x, -, ⟨-, -, heq⟩ | ⟨-, -, -, heq⟩⟩ := enqueue_cases env s r p onCpu <;> rw [heq] <;> rfl

variable [Fintype ρ]

theorem Inv.dequeue (h : Inv none place s) (hp : place p = some r) (running : Bool) :
    Inv none (update place p none) (waltCfsDequeueTask s r p running) := by
  have hout : Inv none place (if s.Listed p then waltCfsDeactivateMvpTask s r p else s) ∧
      ¬ (if s.Listed p then waltCfsDeactivateMvpTask s r p else s).Listed p := by
    split
    · rename_i hlisted
      have hdeact := h.deactivate (h.mem_of_listed hlisted hp)
      refine ⟨hdeact, hdeact.not_listed ?_⟩
      simp [waltCfsDeactivateMvpTask, State.setTask, addNum, State.setWrq]
    · rename_i hlisted
      exact ⟨h, hlisted⟩
  unfold waltCfsDequeueTask
  generalize (if s.Listed p then waltCfsDeactivateMvpTask s r p else s) = u at hout
  split
  · exact hout.1.move hout.2 none
  · have hreset : Inv none place (u.setTask p { u.task p with totalExec := 0 }) := hout.1.setTask rfl
    exact (hreset.move hout.2 none).congr (fun _ => rfl) (fun _ => rfl) (fun _ => rfl) rfl rfl

theorem inv_step (e : Event ρ τ) (h : Inv none s.queuedOn s) (hstep : step s e = some t) :
    Inv none t.queuedOn t := by
  cases e <;> simp only [step, ite_none_right_eq_some, some.injEq] at hstep
  case enqueue r p env onCpu =>
    obtain ⟨hp, rfl⟩ := hstep
    rw [queuedOn_enqueue]
    exact (h.enqueue hp env onCpu).congr (fun _ => rfl) (fun _ => rfl) (fun _ => rfl) rfl rfl
  case dequeue r p running =>
    obtain ⟨hp, rfl⟩ := hstep
    have hqueued : (waltCfsDequeueTask s r p running).queuedOn = s.queuedOn := by
      unfold waltCfsDequeueTask
      split_ifs <;> rfl
    rw [hqueued]
    exact (h.dequeue hp running).congr (fun _ => rfl) (fun _ => rfl) (fun _ => rfl) rfl rfl
  case deactivate r p =>
    obtain ⟨⟨hp, hlisted⟩, rfl⟩ := hstep
    exact h.deactivate (h.mem_of_listed hlisted hp)
  case account r p clock =>
    obtain ⟨⟨hp, hlisted⟩, rfl⟩ := hstep
    rw [queuedOn_account]
    exact h.account (h.mem_of_listed hlisted hp) clock
  case pick r clock =>
    obtain ⟨arrival, heq⟩ := pick_eq s r clock
    rw [← hstep, heq]
    exact h.setWrq rfl rfl
  case exec p n | change p attrs =>
    obtain rfl := hstep
    exact h.setTask rfl

theorem inv_run {es : List (Event ρ τ)} (h : Started s) (hrun : run step s es = some t) :
    Inv none t.queuedOn t :=
  run_invariant (I := fun s => Inv none s.queuedOn s) (fun _ e _ hi _ hstep => inv_step e hi hstep)
    (Inv.of_started h) (along_true s es) hrun

/-- The queues are in order along every run from the start of WALT. -/
theorem mvp_queue_invariant {es : List (Event ρ τ)} (h : Started s) (hrun : run step s es = some t) :
    QueueOk t := (inv_run h hrun).queueOk

def groupAttrs : Attrs := ⟨0, 0, 0, 0, 0, true, 120⟩

def groupEnv : Env := ⟨false, false, 0, 120, 0⟩

def twoTasks : State Unit (Fin 2) where
  task _ := ⟨groupAttrs, 0, .notMvp, 0, 0, 0⟩
  wrq _ := ⟨[], 0, false, 0, 0⟩
  queuedOn _ := none
  insertions := 0
  stamp _ := 0
  demotedAs _ := none

def sliceRun : List (Event Unit (Fin 2)) :=
  [.enqueue () 0 groupEnv true, .enqueue () 1 groupEnv false, .exec 0 3000000, .account () 0 0]

theorem mvp_queue_after_slice :
    ∃ t, run step twoTasks sliceRun = some t ∧ (t.mvpTasks ()).Nodup ∧ QueueOk t :=
  exists_run_and (by decide +kernel) fun _ ht _ =>
    mvp_queue_invariant ⟨fun _ => ⟨rfl, rfl⟩, fun _ => ⟨rfl, rfl⟩⟩ ht

/-- The running task whose slice has expired is inserted behind its equal, and a deactivation of a
task in no list takes one from the count. -/
theorem mvp_queue_running_task_behind :
    (run step twoTasks sliceRun).map (fun t => (t.mvpTasks (), t.prio 0, t.prio 1)) =
        some ([1, 0], 0, 0) ∧
      (waltCfsDeactivateMvpTask twoTasks () 0).mvpTasks () = [] ∧
      ((waltCfsDeactivateMvpTask twoTasks () 0).wrq ()).numMvpTasks = -1 := by
  decide +kernel

end MsmKernel.Mvp
