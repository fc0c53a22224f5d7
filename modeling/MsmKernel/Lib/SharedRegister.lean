import Mathlib.Logic.Function.Basic
import Mathlib.Tactic.Common

/-! Components with a state of their own that share one register. A component runs as if it were
alone when each of its steps that depends on the register finds the value it left there itself. -/
namespace MsmKernel.SharedRegister
variable {ι σ ρ ω ο : Type*} [DecidableEq ι] (step : σ → ρ → ω → ο × σ × ρ)

structure System (ι σ ρ : Type*) where
  part : ι → σ
  reg : ρ

def System.next (s : System ι σ ρ) (e : ι × ω) : System ι σ ρ where
  part := Function.update s.part e.1 (step (s.part e.1) s.reg e.2).2.1
  reg := (step (s.part e.1) s.reg e.2).2.2

def trace (i : ι) : System ι σ ρ → List (ι × ω) → List ο
  | _, [] => []
  | s, e :: es =>
    if e.1 = i then (step (s.part e.1) s.reg e.2).1 :: trace i (s.next step e) es
    else trace i (s.next step e) es

def solo : σ → ρ → List ω → List ο
  | _, _, [] => []
  | p, r, o :: os => (step p r o).1 :: solo (step p r o).2.1 (step p r o).2.2 os

def ops (i : ι) : List (ι × ω) → List ω
  | [] => []
  | e :: es => if e.1 = i then e.2 :: ops i es else ops i es

/-- `g` is the register as the component `i` alone would have left it. -/
def Undisturbed (blind : σ → ω → Prop) (i : ι) : System ι σ ρ → ρ → List (ι × ω) → Prop
  | _, _, [] => True
  | s, g, e :: es =>
    (e.1 = i → ¬ blind (s.part i) e.2 → s.reg = g) ∧
      Undisturbed blind i (s.next step e) (if e.1 = i then (step (s.part i) g e.2).2.2 else g) es

variable {step} {blind : σ → ω → Prop} {i : ι}

variable {s : System ι σ ρ} {g : ρ} {es : List (ι × ω)}

theorem part_next_of_ne {e : ι × ω} (hne : e.1 ≠ i) : (s.next step e).part i = s.part i :=
  Function.update_of_ne (Ne.symm hne) ..

theorem part_next_self {o : ω} : (s.next step (i, o)).part i = (step (s.part i) s.reg o).2.1 :=
  Function.update_self ..

variable
  (hblind : ∀ p o, blind p o → ∀ f g, (step p f o).1 = (step p g o).1 ∧ (step p f o).2.1 = (step p g o).2.1)
include hblind

/-- An undisturbed component returns what it would return alone. -/
theorem trace_eq_solo (h : Undisturbed step blind i s g es) :
    trace step i s es = solo step (s.part i) g (ops i es) := by
  induction es generalizing s g with
  | nil => rfl
  | cons e es ih =>
    obtain ⟨hhere, hrest⟩ := h
    obtain ⟨j, o⟩ := e
    by_cases hj : j = i
    · subst hj
      have hsame : (step (s.part j) s.reg o).1 = (step (s.part j) g o).1 ∧
          (step (s.part j) s.reg o).2.1 = (step (s.part j) g o).2.1 := by
        by_cases hb : blind (s.part j) o
        · exact hblind _ _ hb _ _
        · rw [hhere rfl hb]
          exact ⟨rfl, rfl⟩
      have htail := ih hrest
      rw [part_next_self, hsame.2] at htail
      simp only [trace, ops, solo, if_true, hsame.1, htail]
    · simp only [if_neg hj] at hrest
      have htail := ih hrest
      rw [part_next_of_ne hj] at htail
      simp only [trace, ops, if_neg hj, htail]

/-- If the steps that depend on the register tell its values apart, only an undisturbed component
returns what it would return alone. -/
theorem undisturbed_of_trace_eq {tells : ω → Prop}
    (htells : ∀ p o, tells o → ¬ blind p o → ∀ f g, (step p f o).1 = (step p g o).1 → f = g)
    (hops : ∀ o ∈ ops i es, tells o) (h : trace step i s es = solo step (s.part i) g (ops i es)) :
    Undisturbed step blind i s g es := by
  induction es generalizing s g with
  | nil => trivial
  | cons e es ih =>
    obtain ⟨j, o⟩ := e
    by_cases hj : j = i
    · subst hj
      simp only [trace, ops, solo, if_true, List.cons.injEq] at h
      simp only [ops, if_true, List.forall_mem_cons] at hops
      have hhere : ¬ blind (s.part j) o → s.reg = g :=
        fun hb => htells _ _ hops.1 hb _ _ h.1
      have hsame : (step (s.part j) s.reg o).2.1 = (step (s.part j) g o).2.1 := by
        by_cases hb : blind (s.part j) o
        · exact (hblind _ _ hb _ _).2
        · rw [hhere hb]
      refine ⟨fun _ => hhere, ?_⟩
      simp only [if_true]
      refine ih hops.2 ?_
      rw [part_next_self, hsame]
      exact h.2
    · simp only [trace, ops, if_neg hj] at h hops
      refine ⟨fun heq => absurd heq hj, ?_⟩
      simp only [if_neg hj]
      refine ih hops ?_
      rw [part_next_of_ne hj]
      exact h

end MsmKernel.SharedRegister
