import Mathlib.Data.List.Range
import Mathlib.Tactic.Common

/-! Ring memories: linear copies, copies cut in two at the wrap, and the queue a window of
the ring holds. Positions are below the size `n`; a queue never fills the ring. -/
namespace MsmKernel.Ring
open List
variable {α : Type*}

def copyTo (mem : Nat → α) (pos : Nat) (data : List α) : Nat → α :=
  fun i => if pos ≤ i then data[i - pos]?.getD (mem i) else mem i

def copyFrom (mem : Nat → α) (pos count : Nat) : List α :=
  (List.range count).map fun i => mem (pos + i)

def write (n : Nat) (mem : Nat → α) (head : Nat) (data : List α) : Nat → α :=
  let len := min data.length (n - head)
  copyTo (copyTo mem head (data.take len)) 0 (data.drop len)

def read (n : Nat) (mem : Nat → α) (tail count : Nat) : List α :=
  let len := min count (n - tail)
  copyFrom mem tail len ++ copyFrom mem 0 (count - len)

def contents (n : Nat) (mem : Nat → α) (tail count : Nat) : List α :=
  (List.range count).map fun i => mem ((tail + i) % n)

@[simp] theorem length_copyFrom (mem : Nat → α) (pos count : Nat) :
    (copyFrom mem pos count).length = count := by
  simp [copyFrom]

@[simp] theorem length_contents (n : Nat) (mem : Nat → α) (tail count : Nat) :
    (contents n mem tail count).length = count := by
  simp [contents]

@[simp] theorem copyFrom_zero (mem : Nat → α) (pos : Nat) : copyFrom mem pos 0 = [] := rfl

theorem mod_of_lt_two_mul {x n : Nat} (h : x < 2 * n) : x % n = if x < n then x else x - n := by
  split_ifs with hx
  · exact Nat.mod_eq_of_lt hx
  · rw [Nat.mod_eq_sub_mod (by omega), Nat.mod_eq_of_lt (by omega)]

theorem copyFrom_copyTo (mem : Nat → α) (pos : Nat) (data : List α) :
    copyFrom (copyTo mem pos data) 0 (pos + data.length) = copyFrom mem 0 pos ++ data := by
  refine ext_getElem (by simp) fun i h₁ h₂ => ?_
  simp only [length_copyFrom] at h₁
  simp only [copyFrom, getElem_map, getElem_range, getElem_append, length_map,
    length_range, Nat.zero_add, copyTo]
  by_cases hi : i < pos
  · have hle : ¬ pos ≤ i := by omega
    simp [hi, hle]
  · have hlt : i - pos < data.length := by omega
    have hle : pos ≤ i := by omega
    simp [hi, hle, hlt]

theorem read_eq_contents {n tail count : Nat} (mem : Nat → α) (htail : tail < n)
    (hcount : count ≤ n) : read n mem tail count = contents n mem tail count := by
  have hlen : min count (n - tail) + (count - min count (n - tail)) = count := by omega
  refine ext_getElem (by simp [read, hlen]) fun i h₁ h₂ => ?_
  simp only [length_contents] at h₂
  have hmod := mod_of_lt_two_mul (x := tail + i) (n := n) (by omega)
  simp only [read, copyFrom, contents, getElem_append, getElem_map, getElem_range,
    length_map, length_range, hmod]
  by_cases hi : tail + i < n
  · have hlt : i < min count (n - tail) := by omega
    simp [hi, hlt]
  · have hge : ¬ i < min count (n - tail) := by omega
    have hpos : i - min count (n - tail) = tail + i - n := by omega
    simp [hi, hge, hpos]

theorem contents_take {n tail count k : Nat} (mem : Nat → α) (h : k ≤ count) :
    (contents n mem tail count).take k = contents n mem tail k := by
  simp [contents, ← map_take, take_range, Nat.min_eq_left h]

theorem contents_drop (n tail count k : Nat) (mem : Nat → α) :
    (contents n mem tail count).drop k = contents n mem ((tail + k) % n) (count - k) := by
  refine ext_getElem (by simp) fun i h₁ h₂ => ?_
  simp only [contents, getElem_drop, getElem_map, getElem_range]
  rw [Nat.mod_add_mod, Nat.add_assoc]

theorem contents_add (n tail a b : Nat) (mem : Nat → α) :
    contents n mem tail (a + b) = contents n mem tail a ++ contents n mem ((tail + a) % n) b := by
  have hsplit := take_append_drop a (contents n mem tail (a + b))
  rw [contents_take mem (Nat.le_add_right a b), contents_drop, Nat.add_sub_cancel_left] at hsplit
  exact hsplit.symm

theorem contents_write {n tail k : Nat} (mem : Nat → α) (data : List α) (htail : tail < n)
    (hfit : k + data.length ≤ n) (hk : k < n) :
    contents n (write n mem ((tail + k) % n) data) tail (k + data.length) =
      contents n mem tail k ++ data := by
  refine ext_getElem (by simp) fun i h₁ h₂ => ?_
  simp only [length_contents] at h₁
  have hhead := mod_of_lt_two_mul (x := tail + k) (n := n) (by omega)
  have hpos := mod_of_lt_two_mul (x := tail + i) (n := n) (by omega)
  simp only [contents, getElem_map, getElem_range, getElem_append, length_map,
    length_range, hhead, hpos, write, copyTo, Nat.zero_le, if_true, Nat.sub_zero,
    List.getElem?_drop, List.getElem?_take]
  generalize hh : (if tail + k < n then tail + k else tail + k - n) = head
  generalize hp : (if tail + i < n then tail + i else tail + i - n) = p
  have hlen : min data.length (n - head) + p < data.length ∧ i = k + (min data.length (n - head) + p) ∨
      ¬ min data.length (n - head) + p < data.length ∧ head ≤ p ∧ p - head < min data.length (n - head) ∧
        i = k + (p - head) ∨
      ¬ min data.length (n - head) + p < data.length ∧
        (¬ head ≤ p ∨ ¬ p - head < min data.length (n - head)) ∧ i < k := by
    split_ifs at hh hp <;> omega
  rcases hlen with ⟨h1, h2⟩ | ⟨h1, h2, h3, h4⟩ | ⟨h1, h2, h3⟩
  · subst h2
    simp [h1]
  · subst h4
    have hd : p - head < data.length := by omega
    have hn : data[min data.length (n - head) + p]? = none := List.getElem?_eq_none (by omega)
    simp [hn, h2, h3, hd]
  · have hn : data[min data.length (n - head) + p]? = none := List.getElem?_eq_none (by omega)
    rcases h2 with h2 | h2
    · simp [hn, h2, h3]
    · simp [hn, h2, h3]

end MsmKernel.Ring
