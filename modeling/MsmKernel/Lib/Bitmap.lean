import Mathlib.Tactic.Common

/-! Bitmaps and the search for an aligned area of clear bits, with what each operation does to a bit. -/
namespace MsmKernel.Bitmap

abbrev Bits := Nat → Bool

def set (map : Bits) (start len : Nat) : Bits := fun i => map i || (start ≤ i && i < start + len)

def clear (map : Bits) (start len : Nat) : Bits := fun i => map i && !(start ≤ i && i < start + len)

/- The first bit from `i` on, among the next `n`, that has the value `b`; the end of the area if none. -/
def findFrom (map : Bits) (b : Bool) : Nat → Nat → Nat
  | 0, i => i
  | n + 1, i => if map i = b then i else findFrom map b n (i + 1)

def findNext (map : Bits) (b : Bool) (size start : Nat) : Nat :=
  if start < size then findFrom map b (size - start) start else size

def alignMask (x mask : Nat) : Nat := (x + mask) / (mask + 1) * (mask + 1)

/- `bitmap_find_next_zero_area`: the result is greater than `size` when there is no area. Each retry
begins behind a set bit below `size`, so `size + 1` turns are enough. -/
def findZeroArea (map : Bits) (size len mask : Nat) : Nat → Nat → Nat
  | 0, _ => size + 1
  | turns + 1, start =>
    let index := alignMask (findNext map false size start) mask
    if size < index + len then index + len
    else
      let i := findNext map true (index + len) index
      if i < index + len then findZeroArea map size len mask turns (i + 1) else index

def findNextZeroArea (map : Bits) (size start len mask : Nat) : Nat :=
  findZeroArea map size len mask (size + 1) start

variable {map : Bits} {size start len mask i : Nat}

theorem set_iff : set map start len i = true ↔ map i = true ∨ start ≤ i ∧ i < start + len := by
  simp [set]

theorem clear_iff :
    clear map start len i = true ↔ map i = true ∧ ¬ (start ≤ i ∧ i < start + len) := by
  rw [clear, Bool.and_eq_true, Bool.not_eq_true', ← Bool.not_eq_true, Bool.and_eq_true, decide_eq_true_eq,
    decide_eq_true_eq]

theorem findFrom_before (map : Bits) (b : Bool) {n i j : Nat} (hlow : i ≤ j)
    (hhigh : j < findFrom map b n i) : map j ≠ b := by
  induction n generalizing i with
  | zero => exact absurd hhigh (by rw [findFrom]; omega)
  | succ n ih =>
    rw [findFrom] at hhigh
    split at hhigh
    · omega
    · rename_i hb
      by_cases hj : j = i
      · exact hj ▸ hb
      · exact ih (by omega) hhigh

theorem findNext_before (map : Bits) (b : Bool) {j : Nat} (hlow : start ≤ j)
    (hhigh : j < findNext map b size start) (hsize : j < size) : map j ≠ b := by
  rw [findNext, if_pos (by omega)] at hhigh
  exact findFrom_before map b hlow hhigh

/-- An area that the search finds lies below `size`, and its bits are clear. -/
theorem findZeroArea_sound {turns : Nat} (h : findZeroArea map size len mask turns start ≤ size) :
    findZeroArea map size len mask turns start + len ≤ size ∧
      ∀ j, findZeroArea map size len mask turns start ≤ j →
        j < findZeroArea map size len mask turns start + len → map j = false := by
  induction turns generalizing start with
  | zero => exact absurd h (by simp [findZeroArea])
  | succ turns ih =>
    rw [findZeroArea] at h ⊢
    generalize alignMask (findNext map false size start) mask = index at h ⊢
    dsimp only at h ⊢
    split at h
    · omega
    · rename_i hfits
      rw [if_neg hfits]
      split at h
      · rename_i hset
        rw [if_pos hset]
        exact ih h
      · rename_i hclear
        rw [if_neg hclear]
        refine ⟨by omega, fun j hlow hhigh => ?_⟩
        exact Bool.eq_false_iff.2 (findNext_before map true hlow (by omega) hhigh)

end MsmKernel.Bitmap
