import Mathlib.Tactic.Common

/-! Runs of a partial step function over a list of events, conditions imposed on every
step of a run, and the induction rules that carry an invariant through a run. -/
namespace MsmKernel.Run
variable {σ ε : Type*}

def run (step : σ → ε → Option σ) : σ → List ε → Option σ
  | s, [] => some s
  | s, e :: es => (step s e).bind fun t => run step t es

/-- Every step of the run meets `ok`, evaluated in the state before the step. -/
def Along (step : σ → ε → Option σ) (ok : σ → ε → Prop) : σ → List ε → Prop
  | _, [] => True
  | s, e :: es =>
    ok s e ∧
      match step s e with
      | none => True
      | some t => Along step ok t es

instance decidableAlong (step : σ → ε → Option σ) (ok : σ → ε → Prop)
    [∀ s e, Decidable (ok s e)] : ∀ (s : σ) (es : List ε), Decidable (Along step ok s es)
  | _, [] => isTrue trivial
  | s, e :: es =>
    match h : step s e with
    | none => decidable_of_iff (ok s e) (by simp [Along, h])
    | some t =>
      have := decidableAlong step ok t es
      decidable_of_iff (ok s e ∧ Along step ok t es) (by simp [Along, h])

variable {step : σ → ε → Option σ} {ok ok' : σ → ε → Prop} {I : σ → Prop}

@[simp] theorem run_nil (s : σ) : run step s [] = some s := rfl

@[simp] theorem along_nil (s : σ) : Along step ok s [] := trivial

theorem run_cons_of_step {s t : σ} {e : ε} (h : step s e = some t) (es : List ε) :
    run step s (e :: es) = run step t es := by
  simp [run, h]

theorem run_append (s : σ) (xs ys : List ε) :
    run step s (xs ++ ys) = (run step s xs).bind fun t => run step t ys := by
  induction xs generalizing s with
  | nil => rfl
  | cons e es ih =>
    cases h : step s e with
    | none => simp [run, h]
    | some t => simpa [run, h] using ih t

theorem along_cons_of_step {s t : σ} {e : ε} (h : step s e = some t) (es : List ε) :
    Along step ok s (e :: es) ↔ ok s e ∧ Along step ok t es := by
  simp [Along, h]

theorem along_true (s : σ) (es : List ε) : Along step (fun _ _ => True) s es := by
  induction es generalizing s with
  | nil => trivial
  | cons e es ih =>
    cases h : step s e with
    | none => simp [Along, h]
    | some t => exact (along_cons_of_step h es).2 ⟨trivial, ih t⟩

variable {es : List ε} {s : σ}

/-- A condition on the events alone holds along the run if all events meet it. -/
theorem along_of_mem {p : ε → Prop} (h : ∀ e ∈ es, p e) : Along step (fun _ e => p e) s es := by
  induction es generalizing s with
  | nil => trivial
  | cons e es ih =>
    have he := h e (List.mem_cons_self ..)
    cases hse : step s e with
    | none => simpa [Along, hse] using he
    | some t =>
      exact (along_cons_of_step hse es).2 ⟨he, ih fun x hx => h x (List.mem_cons_of_mem _ hx)⟩

theorem along_append {xs ys : List ε} : Along step ok s (xs ++ ys) ↔
    Along step ok s xs ∧ ∀ t, run step s xs = some t → Along step ok t ys := by
  induction xs generalizing s with
  | nil => simp
  | cons e es ih =>
    cases h : step s e with
    | none => simp [Along, run, h]
    | some t => simp [along_cons_of_step h, run_cons_of_step h, ih, and_assoc]

/-- A computed run shows that a state is reached. -/
theorem exists_run_of_map {P : σ → Prop} [DecidablePred P]
    (h : (run step s es).map (fun t => decide (P t)) = some true) :
    ∃ t, run step s es = some t ∧ P t := by
  obtain ⟨t, ht, hP⟩ := Option.map_eq_some_iff.1 h
  exact ⟨t, ht, of_decide_eq_true hP⟩

theorem exists_run_and {P Q : σ → Prop} [DecidablePred P]
    (h : (run step s es).map (fun t => decide (P t)) = some true)
    (hQ : ∀ t, run step s es = some t → P t → Q t) : ∃ t, run step s es = some t ∧ P t ∧ Q t := by
  obtain ⟨t, ht, hP⟩ := exists_run_of_map h
  exact ⟨t, ht, hP, hQ t ht hP⟩

@[elab_as_elim] theorem run_holds {P : σ → Prop} [DecidablePred P] {t : σ}
    (ht : run step s es = some t)
    (h : (run step s es).map (fun t => decide (P t)) = some true) : P t := by
  simpa [ht] using h

/-- An invariant kept by every step that meets `ok` holds at the end of every run whose
steps all meet `ok`. -/
theorem run_invariant (hstep : ∀ s e t, I s → ok s e → step s e = some t → I t) {s t : σ} (hs : I s)
    (hok : Along step ok s es) (hrun : run step s es = some t) : I t := by
  induction es generalizing s with
  | nil =>
    simp only [run_nil, Option.some.injEq] at hrun
    exact hrun ▸ hs
  | cons e es ih =>
    cases h : step s e with
    | none => simp [run, h] at hrun
    | some u =>
      rw [run_cons_of_step h] at hrun
      rw [along_cons_of_step h] at hok
      exact ih (hstep s e u hs hok.1 h) hok.2 hrun

/-- Along a run that keeps an invariant, one condition on the steps gives another. -/
theorem along_mono (hok : ∀ s e, I s → ok s e → ok' s e)
    (hstep : ∀ s e t, I s → ok s e → step s e = some t → I t) (hs : I s) (h : Along step ok s es) :
    Along step ok' s es := by
  induction es generalizing s with
  | nil => trivial
  | cons e es ih =>
    cases hse : step s e with
    | none =>
      simp only [Along, hse, and_true] at h ⊢
      exact hok s e hs h
    | some t =>
      rw [along_cons_of_step hse] at h ⊢
      exact ⟨hok s e hs h.1, ih (hstep s e t hs h.1 hse) h.2⟩

theorem along_congr (hok : ∀ s e, I s → (ok s e ↔ ok' s e))
    (hstep : ∀ s e t, I s → ok s e → step s e = some t → I t) (hs : I s)
    (es : List ε) : Along step ok s es ↔ Along step ok' s es :=
  ⟨along_mono (fun s e h => (hok s e h).1) hstep hs,
    along_mono (fun s e h => (hok s e h).2) (fun s e t h he => hstep s e t h ((hok s e h).2 he)) hs⟩

theorem along_and : Along step (fun s e => ok s e ∧ ok' s e) s es ↔
    Along step ok s es ∧ Along step ok' s es := by
  induction es generalizing s with
  | nil => simp
  | cons e es ih =>
    cases hse : step s e with
    | none => simp [Along, hse]
    | some t =>
      simp only [along_cons_of_step hse, ih]
      tauto

/-- Where a step keeps the invariant exactly when it meets `ok`, all steps of a run meet `ok`
exactly when the invariant holds in every state that the run passes. -/
theorem along_iff_throughout (htotal : ∀ s e, ∃ t, step s e = some t)
    (hstep : ∀ s e t, I s → step s e = some t → (I t ↔ ok s e)) (hs : I s) :
    Along step ok s es ↔ ∀ xs t, xs <+: es → run step s xs = some t → I t := by
  constructor
  · rintro h xs t ⟨ys, rfl⟩ hrun
    exact run_invariant (fun s e t hi hok hse => (hstep s e t hi hse).2 hok) hs
      (along_append.1 h).1 hrun
  · intro h
    induction es generalizing s with
    | nil => trivial
    | cons e es ih =>
      obtain ⟨t, hse⟩ := htotal s e
      have ht : I t := h [e] t ⟨es, rfl⟩ (by rw [run_cons_of_step hse, run_nil])
      refine (along_cons_of_step hse es).2 ⟨(hstep s e t hs hse).1 ht, ih ht ?_⟩
      rintro xs u ⟨ys, rfl⟩ hrun
      exact h (e :: xs) u ⟨ys, rfl⟩ (by rw [run_cons_of_step hse, hrun])

end MsmKernel.Run
