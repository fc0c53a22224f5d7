import Mathlib.Algebra.BigOperators.Ring.Finset
import MsmKernel.Lib.Account

/-! A tally: how many members have each key, what becomes of the counts when one member changes
its key, and the top index of a table of counts. -/
namespace MsmKernel.Tally
open Finset

section Count
variable {M ι : Type*} [Fintype M] [DecidableEq ι]

def ind (key : Option ι) (i : ι) : Nat := if key = some i then 1 else 0

def count (key : M → Option ι) (i : ι) : Nat := ∑ m, ind (key m) i

def Moves (n n' : ι → Nat) (key key' : Option ι) : Prop := ∀ i, n' i + ind key i = n i + ind key' i

theorem moves_refl (n : ι → Nat) (key : Option ι) : Moves n n key key := fun _ => rfl

theorem Moves.eq {n n' : ι → Nat} {key : Option ι} (h : Moves n n' key key) : n' = n := by
  funext i
  exact Nat.add_right_cancel (h i)

theorem Moves.ne_zero_iff {n n' : ι → Nat} {key key' : Option ι} {i : ι}
    (h : Moves n n' key key') (hone : key' = some i → n' i ≠ 1) (hzero : key = some i → n' i ≠ 0) :
    n i ≠ 0 ↔ n' i ≠ 0 := by
  have hi := h i
  simp only [ind] at hi
  split_ifs at hi with hkey hkey' hkey'
  · omega
  · have := hzero hkey
    omega
  · have := hone hkey'
    omega
  · omega

theorem count_moves [DecidableEq M] {f g : M → Option ι} (x : M) (h : ∀ y, y ≠ x → g y = f y) :
    Moves (count f) (count g) (f x) (g x) := by
  intro i
  have hrest : ∀ y, y ≠ x → ind (g y) i = ind (f y) i := fun y hy => by rw [h y hy]
  exact Account.sum_add_eq x hrest

theorem count_eq_card (key : M → Option ι) (i : ι) :
    count key i = (Finset.univ.filter fun m => key m = some i).card :=
  (card_filter ..).symm

theorem count_ne_zero {key : M → Option ι} {i : ι} : count key i ≠ 0 ↔ ∃ m, key m = some i := by
  rw [count_eq_card, card_ne_zero]
  simp [Finset.Nonempty]

/-- The members with one key are `x` and at most all other members with any key. -/
theorem count_le_succ [DecidableEq M] {key : M → Option ι} (x : M) {s : Finset M}
    (hs : ∀ m, m ≠ x → key m ≠ none → m ∈ s) (i : ι) : count key i ≤ s.card + 1 := by
  rw [count_eq_card]
  refine (card_le_card fun m hm => ?_).trans (card_insert_le x s)
  have hkey : key m = some i := by simpa using hm
  by_cases hx : m = x
  · exact hx ▸ mem_insert_self x s
  · exact mem_insert_of_mem (hs m hx (by simp [hkey]))

end Count

structure IsTop (n : Nat → Nat) (top : Nat) : Prop where
  bound : ∀ i, n i ≠ 0 → i ≤ top
  occupied : top ≠ 0 → n top ≠ 0

theorem isTop_zero : IsTop (fun _ => 0) 0 := ⟨fun _ h => absurd rfl h, fun h => absurd rfl h⟩

section IsTop
variable {n n' : Nat → Nat} {key : Option Nat} {top i : Nat}

theorem IsTop.raise (h : IsTop n top) (hm : Moves n n' key (some i))
    (hkey : ∀ j, key = some j → j < i) : IsTop n' (max top i) := by
  have hgain j : n' j ≤ n j + ind (some i) j := by
    have := hm j
    omega
  refine ⟨fun j hj => ?_, fun hne => ?_⟩
  · by_cases hij : i = j
    · omega
    · have hle := hgain j
      rw [ind, if_neg (by simpa using hij)] at hle
      have := h.bound j (by omega)
      omega
  · have hkeep {j} (hj : i ≤ j) : n' j = n j + ind (some i) j := by
      have hmj := hm j
      rw [ind, if_neg fun hk => absurd (hkey j hk) (by omega)] at hmj
      exact hmj
    rcases Nat.le_total top i with hle | hle
    · rw [Nat.max_eq_right hle, hkeep Nat.le.refl, ind, if_pos rfl]
      omega
    · rw [Nat.max_eq_left hle] at hne ⊢
      have := h.occupied hne
      rw [hkeep hle]
      omega

theorem IsTop.lower (h : IsTop n top) (hm : Moves n n' (some i) none)
    (hstays : i = top → n' i ≠ 0) : IsTop n' top := by
  refine ⟨fun j hj => h.bound j ?_, fun hne => ?_⟩
  · have hmj := hm j
    simp only [ind, reduceCtorEq, if_false] at hmj
    omega
  · by_cases hi : i = top
    · exact hi ▸ hstays hi
    · have hmj := hm top
      simp only [ind, reduceCtorEq, Option.some.injEq, hi, if_false] at hmj
      have := h.occupied hne
      omega

end IsTop
end MsmKernel.Tally
