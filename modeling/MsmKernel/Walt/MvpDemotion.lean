import MsmKernel.Walt.MvpQueue

/-! Demotion until sleep. The check of walt_cfs_enqueue_task reads the limit of a class that the task
has lost with its place in the list, so it agrees with the demotion only for some classes and times. -/
namespace MsmKernel.Mvp
open Walt Run
variable {ρ τ : Type} {s t : State ρ τ} {p q : τ} {r : ρ}

def State.classOf (s : State ρ τ) (p : τ) (env : Env) : MvpPrio :=
  (waltGetMvpTaskPrio env (s.task p).attrs).1

/-- No demoted task is listed after the step, and an enqueued task that was not demoted is listed if it
is within the limit of its class. -/
def Respects [Fintype ρ] [DecidableEq ρ] [DecidableEq τ] (s : State ρ τ) (e : Event ρ τ) : Prop :=
  ∀ t, step s e = some t → (∀ p, t.demotedAs p ≠ none → ¬ t.Listed p) ∧
    ∀ r p env onCpu, e = .enqueue r p env onCpu → s.demotedAs p = none →
      s.classOf p env ≠ .notMvp →
      (s.task p).totalExec ≤ waltCfsMvpTaskLimit (s.classOf p env) → p ∈ t.mvpTasks r

/-- A task demoted as a binder comes back only with the time of the other classes used up, and a
pipeline task only with less than that time or more than its own. -/
def KeepsClass (s : State ρ τ) : Event ρ τ → Prop
  | .enqueue _ p env _ => s.queuedOn p = none →
      (s.demotedAs p = some .binder → s.classOf p env = .notMvp ∨ WALT_MVP_LIMIT < (s.task p).totalExec) ∧
      (s.demotedAs p = none → s.classOf p env = .pipeline →
        (s.task p).totalExec ≤ WALT_MVP_LIMIT ∨ 2 * WALT_MVP_LIMIT < (s.task p).totalExec)
  | _ => True

instance [DecidableEq ρ] (s : State ρ τ) (e : Event ρ τ) : Decidable (KeepsClass s e) := by
  cases e <;> (dsimp only [KeepsClass]; infer_instance)

variable {c : MvpPrio} {r' : ρ} {running : Bool}

theorem limit_of_ne_binder (hc : c ≠ .binder) : WALT_MVP_LIMIT ≤ waltCfsMvpTaskLimit c := by
  cases c with
  | binder => exact absurd rfl hc
  | _ => decide

theorem limit_of_ne_pipeline (hc : c ≠ .pipeline) : waltCfsMvpTaskLimit c ≤ WALT_MVP_LIMIT := by
  cases c with
  | pipeline => exact absurd rfl hc
  | _ => decide

/-- A demoted task has used up the time of the class it was demoted from. -/
def Exceeds (s : State ρ τ) : Prop :=
  ∀ p c, s.demotedAs p = some c → waltCfsMvpTaskLimit c < (s.task p).totalExec

def Demoted (s : State ρ τ) : Prop := ∀ p, s.demotedAs p ≠ none → ¬ s.Listed p

def NoBreach (s : State ρ τ) : Prop := Inv none s.queuedOn s ∧ Exceeds s ∧ Demoted s

theorem Exceeds.congr (h : Exceeds s) (hdem : t.demotedAs = s.demotedAs)
    (htotal : ∀ q, (t.task q).totalExec = (s.task q).totalExec) : Exceeds t := by
  intro q c hq
  rw [htotal]
  exact h q c (hdem ▸ hq)

theorem Exceeds.setTask [DecidableEq τ] (h : Exceeds s) {x : Task}
    (hx : x.totalExec = (s.task p).totalExec) : Exceeds (s.setTask p x) := by
  refine h.congr rfl fun q => ?_
  by_cases hq : q = p
  · rw [hq, setTask_task_self, hx]
  · rw [setTask_task_of_ne s hq]

section Calls
variable [DecidableEq τ] [DecidableEq ρ]

theorem totalExec_deactivate (s : State ρ τ) (r : ρ) (p q : τ) :
    ((waltCfsDeactivateMvpTask s r p).task q).totalExec = (s.task q).totalExec := by
  by_cases hq : q = p <;>
    simp [waltCfsDeactivateMvpTask, State.addNum, State.setWrq, State.setTask, State.listDel, hq]

theorem mem_deactivate (hq : q ∈ (waltCfsDeactivateMvpTask s r p).mvpTasks r') :
    q ∈ s.mvpTasks r' := by
  have herase : (waltCfsDeactivateMvpTask s r p).mvpTasks r' = (s.mvpTasks r').erase p :=
    mvpTasks_unlink s r r' p
  exact List.mem_of_mem_erase (herase ▸ hq)

theorem mem_account {clock : Nat} (hp : p ∈ s.mvpTasks r)
    (hq : q ∈ (waltCfsAccountMvpRuntime s r p clock).mvpTasks r') : q ∈ s.mvpTasks r' := by
  obtain ⟨x, -, heq | ⟨-, heq⟩ | heq⟩ := account_cases s r p clock
  · rwa [heq, mvpTasks_accounted] at hq
  · rw [heq] at hq
    have hin := mem_deactivate hq
    rwa [mvpTasks_accounted] at hin
  · rw [heq] at hq
    rcases mem_mvpTasks_insert.mp hq with ⟨rfl, rfl⟩ | hq
    · exact hp
    · rw [mvpTasks_unlink, mvpTasks_accounted] at hq
      exact List.mem_of_mem_erase hq

theorem Exceeds.account (h : Exceeds s) (hp : s.demotedAs p = none) (clock : Nat) :
    Exceeds (waltCfsAccountMvpRuntime s r p clock) := by
  obtain ⟨x, -, hcases⟩ := account_cases s r p clock
  -- the times of the other tasks are as before
  have hother : ∀ q c, q ≠ p → s.demotedAs q = some c →
      waltCfsMvpTaskLimit c < ((accounted s r p clock x).task q).totalExec := by
    intro q c hqp hq
    rw [accounted, setTask_task_of_ne _ hqp]
    exact h q c hq
  have hne : ∀ q c, s.demotedAs q = some c → q ≠ p := by
    intro q c hq hqp
    rw [hqp, hp] at hq
    exact absurd hq (by simp)
  rcases hcases with heq | ⟨hlimit, heq⟩ | heq
  all_goals rw [heq]
  all_goals intro q c hq
  · exact hother q c (hne q c hq) hq
  · have htotal := totalExec_deactivate (accounted s r p clock x) r p q
    refine lt_of_lt_of_eq ?_ htotal.symm
    by_cases hqp : q = p
    · obtain rfl : x.mvpPrio = c := by simpa [hqp] using hq
      rw [hqp, accounted, setTask_task_self]
      exact hlimit
    · exact hother q c hqp (by simpa [hqp] using hq)
  · exact hother q c (hne q c hq) hq

theorem demoted_account {place : τ → Option ρ} (h : Inv none place s) (hd : Demoted s)
    (hp : p ∈ s.mvpTasks r) (clock : Nat) : Demoted (waltCfsAccountMvpRuntime s r p clock) := by
  rintro q hq ⟨r', hin⟩
  have hbefore : s.Listed q := ⟨r', mem_account hp hin⟩
  obtain ⟨x, hx, heq | ⟨-, heq⟩ | heq⟩ := account_cases s r p clock
  · rw [heq] at hq
    exact hd q hq hbefore
  · rw [heq] at hq hin
    by_cases hqp : q = p
    · -- the deactivated task has lost its priority, and no listed task has none
      subst hqp
      have hacc : Inv none place (accounted s r q clock x) := h.accounted clock hx
      have hdeact := hacc.deactivate (p := q) (r := r) (by rwa [mvpTasks_accounted])
      exact hdeact.not_listed (setTask_task_self _ q _ ▸ rfl) ⟨r', hin⟩
    · exact hd q (by simpa [hqp] using hq) hbefore
  · rw [heq] at hq
    exact hd q hq hbefore

theorem Exceeds.enqueue (h : Exceeds s) (env : Env) (onCpu : Bool) :
    Exceeds (waltCfsEnqueueTask env s r p onCpu) ∧
      (waltCfsEnqueueTask env s r p onCpu).demotedAs = s.demotedAs := by
  obtain ⟨x, hx, ⟨-, -, heq⟩ | ⟨-, -, -, heq⟩⟩ := enqueue_cases env s r p onCpu <;> rw [heq] <;>
    exact ⟨h.setTask hx, rfl⟩

theorem enqueue_listed_iff (h : Inv none s.queuedOn s) (hp : s.queuedOn p = none) (env : Env)
    (onCpu : Bool) : (p ∈ (waltCfsEnqueueTask env s r p onCpu).mvpTasks r ↔
        s.classOf p env ≠ .notMvp ∧ (s.task p).totalExec ≤ WALT_MVP_LIMIT) ∧
      ∀ q r', q ∈ (waltCfsEnqueueTask env s r p onCpu).mvpTasks r' →
        r' = r ∧ q = p ∨ q ∈ s.mvpTasks r' := by
  have hnot : ¬ s.Listed p := fun ⟨r', hin⟩ => by
    rw [(h.listed r' p hin).2.1] at hp
    exact absurd hp (by simp)
  have hlimit : waltCfsMvpTaskLimit (s.task p).mvpPrio = WALT_MVP_LIMIT := by
    rw [h.unlisted p nofun hnot]
    rfl
  obtain ⟨x, -, ⟨hout, -, heq⟩ | ⟨hclass, hle, -, heq⟩⟩ := enqueue_cases env s r p onCpu
  · rw [heq]
    refine ⟨iff_of_false (fun hin => hnot ⟨r, hin⟩) fun ⟨hclass, hle⟩ => ?_, fun q r' hq => .inr hq⟩
    rcases hout with hnone | hlt
    · exact hclass hnone
    · omega
  · rw [heq]
    rw [hlimit] at hle
    have hmem : ∀ q r', q ∈ (waltCfsInsertMvpTask (s.setTask p x) r p onCpu).mvpTasks r' ↔
        r' = r ∧ q = p ∨ q ∈ s.mvpTasks r' := fun q r' => mem_mvpTasks_insert
    exact ⟨iff_of_true ((hmem p r).mpr (.inl ⟨rfl, rfl⟩)) ⟨hclass, hle⟩, fun q r' => (hmem q r').mp⟩

variable [Fintype ρ]

theorem mem_dequeue (hq : q ∈ (waltCfsDequeueTask s r p running).mvpTasks r') :
    q ∈ s.mvpTasks r' := by
  have hout : q ∈ (if s.Listed p then waltCfsDeactivateMvpTask s r p else s).mvpTasks r' := by
    cases running with
    | _ => exact hq
  split at hout
  · exact mem_deactivate hout
  · exact hout

theorem Exceeds.dequeue (h : Exceeds s) (running : Bool) :
    Exceeds (waltCfsDequeueTask s r p running) := by
  have hout : Exceeds (if s.Listed p then waltCfsDeactivateMvpTask s r p else s) := by
    split
    · exact h.congr rfl (totalExec_deactivate s r p)
    · exact h
  unfold waltCfsDequeueTask
  generalize (if s.Listed p then waltCfsDeactivateMvpTask s r p else s) = u at hout
  cases running with
  | true => exact hout
  | false =>
    intro q c hq
    have hqp : q ≠ p := fun hqp => by simp [hqp] at hq
    simpa [setTask_task_of_ne u hqp] using hout q c (by simpa [State.setTask, hqp] using hq)

theorem demotedAs_dequeue (hq : (waltCfsDequeueTask s r p running).demotedAs q ≠ none) :
    s.demotedAs q ≠ none := by
  have hsame : (if s.Listed p then waltCfsDeactivateMvpTask s r p else s).demotedAs = s.demotedAs := by
    split <;> rfl
  unfold waltCfsDequeueTask at hq
  rw [← hsame]
  cases running with
  | true => exact hq
  | false =>
    have hqp : q ≠ p := fun hqp => hq (by simp [hqp])
    simpa [State.setTask, hqp] using hq

end Calls

section Steps
variable [DecidableEq τ] [DecidableEq ρ] [Fintype ρ]

theorem kept_step (e : Event ρ τ) (h : NoBreach s) (hstep : step s e = some t) :
    Exceeds t ∧ ((∀ r p env onCpu, e ≠ .enqueue r p env onCpu) → Demoted t) := by
  obtain ⟨hi, hx, hd⟩ := h
  cases e <;> simp only [step, Option.ite_none_right_eq_some, Option.some.injEq] at hstep
  case enqueue r p env onCpu =>
    obtain ⟨-, rfl⟩ := hstep
    exact ⟨(hx.enqueue env onCpu).1, fun he => absurd rfl (he r p env onCpu)⟩
  case dequeue r p running =>
    obtain ⟨-, rfl⟩ := hstep
    refine ⟨hx.dequeue running, fun _ q hq hin => ?_⟩
    obtain ⟨r', hin⟩ := hin
    exact hd q (demotedAs_dequeue hq) ⟨r', mem_dequeue hin⟩
  case deactivate r p =>
    obtain ⟨-, rfl⟩ := hstep
    refine ⟨hx.congr rfl (totalExec_deactivate s r p), fun _ q hq hin => ?_⟩
    obtain ⟨r', hin⟩ := hin
    exact hd q hq ⟨r', mem_deactivate hin⟩
  case account r p clock =>
    obtain ⟨⟨hplace, hlisted⟩, rfl⟩ := hstep
    refine ⟨hx.account ?_ clock, fun _ =>
      demoted_account hi hd (hi.mem_of_listed hlisted hplace) clock⟩
    by_contra hdem
    exact hd p hdem hlisted
  case pick r clock =>
    obtain ⟨arrival, heq⟩ := pick_eq s r clock
    have htasks := mvpTasks_setWrq s r (w := { s.wrq r with mvpArrivalTime := arrival })
    rw [← hstep, heq]
    refine ⟨hx, fun _ q hq hin => hd q hq ?_⟩
    obtain ⟨r', hin⟩ := hin
    exact ⟨r', htasks r' rfl ▸ hin⟩
  case exec p _ | change p _ =>
    rw [← hstep]
    exact ⟨hx.setTask rfl, fun _ => hd⟩

theorem respects_of_not_enqueue {e : Event ρ τ} (h : NoBreach s)
    (he : ∀ r p env onCpu, e ≠ .enqueue r p env onCpu) : Respects s e := fun _ hstep =>
  ⟨(kept_step e h hstep).2 he, fun r p env onCpu heq => absurd heq (he r p env onCpu)⟩

theorem respects_enqueue_iff (h : NoBreach s) (hp : s.queuedOn p = none) (env : Env) (onCpu : Bool) :
    Respects s (.enqueue r p env onCpu) ↔
      (s.demotedAs p ≠ none → s.classOf p env = .notMvp ∨ WALT_MVP_LIMIT < (s.task p).totalExec) ∧
      (s.demotedAs p = none → s.classOf p env ≠ .notMvp →
        (s.task p).totalExec ≤ waltCfsMvpTaskLimit (s.classOf p env) →
        (s.task p).totalExec ≤ WALT_MVP_LIMIT) := by
  obtain ⟨hi, hx, hd⟩ := h
  obtain ⟨hlisted, hmem⟩ := enqueue_listed_iff (r := r) hi hp env onCpu
  have hdem := (hx.enqueue (r := r) (p := p) env onCpu).2
  have hstep : step s (.enqueue r p env onCpu) = some { waltCfsEnqueueTask env s r p onCpu with
      queuedOn := Function.update (waltCfsEnqueueTask env s r p onCpu).queuedOn p (some r) } :=
    if_pos hp
  constructor
  · intro hresp
    obtain ⟨hdemoted, hnew⟩ := hresp _ hstep
    refine ⟨fun hp' => ?_, fun hp' hclass hle => ?_⟩
    · by_contra hnot
      rw [not_or, not_lt] at hnot
      exact hdemoted p (hdem ▸ hp') ⟨r, hlisted.mpr hnot⟩
    · exact (hlisted.mp (hnew r p env onCpu rfl hp' hclass hle)).2
  · rintro ⟨hdemoted, hnew⟩ t ht
    obtain rfl := Option.some.inj (hstep.symm.trans ht)
    refine ⟨fun q hq ⟨r', hin⟩ => ?_, fun r' p' env' onCpu' heq hp' hclass hle => ?_⟩
    · have hq' : s.demotedAs q ≠ none := hdem ▸ hq
      rcases hmem q r' hin with ⟨rfl, rfl⟩ | hold
      · obtain ⟨hclass, hle⟩ := hlisted.mp hin
        rcases hdemoted hq' with hnone | hlt
        · exact hclass hnone
        · omega
      · exact hd q hq' ⟨r', hold⟩
    · obtain ⟨rfl, rfl, rfl, rfl⟩ := Event.enqueue.inj heq
      exact hlisted.mpr ⟨hclass, hnew hp' hclass hle⟩

/-- In a state that a run without a breach has reached, the next step respects the demotions exactly
if it meets the condition. -/
theorem respects_iff (e : Event ρ τ) (h : NoBreach s) : Respects s e ↔ KeepsClass s e := by
  cases e with
  | enqueue r p env onCpu =>
    by_cases hp : s.queuedOn p = none
    · rw [respects_enqueue_iff h hp]
      simp only [KeepsClass, hp, forall_const]
      refine and_congr ?_ ?_
      · -- only a binder is demoted with time left of the common limit
        refine ⟨fun hdem hbinder => hdem (by simp [hbinder]), fun hdem hne => ?_⟩
        obtain ⟨c, hc⟩ := Option.ne_none_iff_exists'.mp hne
        by_cases hb : c = .binder
        · exact hdem (hb ▸ hc)
        · exact .inr ((limit_of_ne_binder hb).trans_lt (h.2.1 p c hc))
      · -- only a pipeline task may use more than the common limit
        refine forall_congr' fun _ => ⟨fun hall hpipe => ?_, fun hpipe hclass hle => ?_⟩
        · have hle := hall (by rw [hpipe]; decide)
          rw [hpipe] at hle
          exact (le_or_gt _ _).imp_left hle
        · by_cases hc : s.classOf p env = .pipeline
          · rw [hc] at hle
            exact (hpipe hc).resolve_right (Nat.not_lt.mpr hle)
          · exact hle.trans (limit_of_ne_pipeline hc)
    · exact iff_of_true (fun t ht => absurd ht (by simp [step, hp])) fun hp' => absurd hp' hp
  | dequeue r p running | deactivate r p | account r p clock | pick r clock | exec p n
  | change p attrs =>
    exact iff_of_true (respects_of_not_enqueue h (by simp)) trivial

/-- Along a run, demotions last until the task sleeps and no task is refused before its limit,
exactly if every step meets the condition. -/
theorem demoted_until_sleep {es : List (Event ρ τ)} (h : Started s) :
    Along step Respects s es ↔ Along step KeepsClass s es := by
  have hinit : NoBreach s :=
    ⟨Inv.of_started h, fun p c hp => absurd ((h.2 p).2.symm.trans hp) (by simp),
      fun p hp => absurd (h.2 p).2 hp⟩
  have hkeep (u : State ρ τ) (e : Event ρ τ) v (hu : NoBreach u) (hok : Respects u e)
      (hstep : step u e = some v) : NoBreach v :=
    ⟨inv_step e hu.1 hstep, (kept_step e hu hstep).1, (hok v hstep).1⟩
  exact along_congr (I := NoBreach) (fun u e hu => respects_iff e hu) hkeep hinit es

end Steps

def backRun (attrs : Attrs) (env : Env) (ran : Nat) : List (Event Unit (Fin 2)) :=
  [.change 0 attrs, .enqueue () 0 env false, .exec 0 ran, .account () 0 0, .dequeue () 0 true,
    .enqueue () 0 env false]

theorem group_task_stays_demoted : Along step Respects twoTasks (backRun groupAttrs groupEnv 13000000) :=
  (demoted_until_sleep ⟨fun _ => ⟨rfl, rfl⟩, fun _ => ⟨rfl, rfl⟩⟩).mpr (by decide +kernel)

def binderAttrs : Attrs := ⟨WALT_LOW_LATENCY_BINDER_BIT, 0, 0, 0, 0, false, 120⟩

def pipelineAttrs : Attrs := ⟨0x04, 0, 0, 0, 0, false, 120⟩

def lowLatencyEnv : Env := ⟨false, false, 1024, 0, 0⟩

/-- A binder task demoted after 4 ms is listed again at once, and a pipeline task is refused after
15 ms of its 24. -/
theorem demotion_forgets_class :
    ((run step twoTasks (backRun binderAttrs lowLatencyEnv 4000000)).map fun t =>
        (t.demotedAs 0, t.mvpTasks ())) = some (some .binder, [0]) ∧
      ((run step twoTasks (backRun pipelineAttrs lowLatencyEnv 15000000)).map fun t =>
        (t.demotedAs 0, (t.task 0).totalExec, t.mvpTasks ())) = some (none, 15000000, []) ∧
      waltCfsMvpTaskLimit .pipeline = 24000000 := by
  decide +kernel

end MsmKernel.Mvp
