import Mathlib.Algebra.Order.BigOperators.Group.Finset

/-! A balance that is the sum of the shares of its members, and what becomes of it when the share
of one member changes. -/
namespace MsmKernel.Account
open Finset
variable {M V : Type*} [Fintype M] [DecidableEq M]

/-- Only one member's share changes: the two sums differ by the change of that share. -/
theorem sum_add_eq [AddCommMonoid V] {f g : M → V} (x : M) (h : ∀ y, y ≠ x → g y = f y) :
    ∑ y, g y + f x = ∑ y, f y + g x := by
  have hrest : ∑ y ∈ Finset.univ.erase x, g y = ∑ y ∈ Finset.univ.erase x, f y :=
    sum_congr rfl fun y hy => h y (ne_of_mem_erase hy)
  rw [← add_sum_erase _ g (mem_univ x), ← add_sum_erase _ f (mem_univ x),
    hrest, add_right_comm, add_comm (g x), add_right_comm]

def rest [AddCommMonoid V] (f : M → V) (x : M) : V := ∑ y ∈ Finset.univ.erase x, f y

theorem sum_eq_rest_add [AddCommMonoid V] (f : M → V) (x : M) : ∑ y, f y = rest f x + f x := by
  rw [rest, add_comm, add_sum_erase _ f (mem_univ x)]

theorem rest_congr [AddCommMonoid V] {f g : M → V} {x : M} (h : ∀ y, y ≠ x → g y = f y) :
    rest g x = rest f x :=
  sum_congr rfl fun y hy => h y (ne_of_mem_erase hy)

end MsmKernel.Account
