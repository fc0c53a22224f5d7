import MsmKernel.Lib.Run

/-! Excesses that the steps of a run only add to. What was added by one step stays to the end, so the
excess at the end is the one at the start exactly if no step added anything. -/
namespace MsmKernel.Losses
open Run
variable {σ ε κ : Type*} {step : σ → ε → Option σ} {ok : σ → ε → Prop}
  {excess : σ → κ → Int} {added : σ → ε → κ → Nat}

theorem excess_le_of_run
    (hstep : ∀ s e t, step s e = some t → ∀ k, excess t k = excess s k + added s e k)
    {s t : σ} {es : List ε} (hrun : run step s es = some t) (k : κ) : excess s k ≤ excess t k := by
  induction es generalizing s with
  | nil =>
    simp only [run_nil, Option.some.injEq] at hrun
    subst hrun
    exact Int.le_refl _
  | cons e es ih =>
    cases h : step s e with
    | none => simp [run, h] at hrun
    | some u =>
      rw [run_cons_of_step h] at hrun
      have hhere := hstep s e u h k
      have hrest := ih hrun
      omega

theorem excess_eq_iff
    (hstep : ∀ s e t, step s e = some t → ∀ k, excess t k = excess s k + added s e k)
    (hok : ∀ s e, ok s e ↔ ∀ k, added s e k = 0)
    {s t : σ} {es : List ε} (hrun : run step s es = some t) :
    (∀ k, excess t k = excess s k) ↔ Along step ok s es := by
  induction es generalizing s with
  | nil =>
    simp only [run_nil, Option.some.injEq] at hrun
    simp [hrun]
  | cons e es ih =>
    cases h : step s e with
    | none => simp [run, h] at hrun
    | some u =>
      rw [run_cons_of_step h] at hrun
      rw [along_cons_of_step h, ← ih hrun, hok]
      have hhere := hstep s e u h
      have hrest := excess_le_of_run hstep hrun
      constructor
      · intro heq
        refine ⟨fun k => ?_, fun k => ?_⟩
        all_goals
          have h1 := heq k
          have h2 := hhere k
          have h3 := hrest k
          omega
      · rintro ⟨hnone, heq⟩ k
        rw [heq k, hhere k, hnone k]
        omega

end MsmKernel.Losses
