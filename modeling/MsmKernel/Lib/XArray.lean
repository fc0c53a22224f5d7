import Mathlib.Data.List.Basic
import Mathlib.Data.List.Pairwise
import Mathlib.Tactic.Common

/-! Sparse arrays indexed by numbers: at most one entry an index, iterated in ascending
order. The ordering is a field of the structure, so every value can be iterated. -/
namespace MsmKernel
open List

structure XArray (α : Type*) where
  entries : List (Nat × α)
  sorted : entries.Pairwise fun a b => a.1 < b.1

namespace XArray
variable {α : Type*}

def find (k : Nat) : List (Nat × α) → Option α
  | [] => none
  | (j, v) :: es => if k = j then some v else find k es

def insert (k : Nat) (v : α) : List (Nat × α) → List (Nat × α)
  | [] => [(k, v)]
  | (j, w) :: es =>
    if k < j then (k, v) :: (j, w) :: es
    else if k = j then (k, v) :: es
    else (j, w) :: insert k v es

theorem mem_insert {k : Nat} {v : α} {es : List (Nat × α)} {e : Nat × α}
    (h : e ∈ insert k v es) : e = (k, v) ∨ e ∈ es := by
  induction es with
  | nil => simpa [insert] using h
  | cons d es ih =>
    rw [insert] at h
    split_ifs at h with hlt heq
    · simpa using h
    · rcases mem_cons.1 h with h | h
      · exact Or.inl h
      · exact Or.inr (by simp [h])
    · rcases mem_cons.1 h with h | h
      · exact Or.inr (by simp [h])
      · exact (ih h).imp id fun h => by simp [h]

theorem insert_sorted {k : Nat} {v : α} {es : List (Nat × α)}
    (h : es.Pairwise fun a b => a.1 < b.1) : (insert k v es).Pairwise fun a b => a.1 < b.1 := by
  induction es with
  | nil => simp [insert]
  | cons d es ih =>
    obtain ⟨hhead, htail⟩ := pairwise_cons.1 h
    rw [insert]
    split_ifs with hlt heq
    · refine pairwise_cons.2 ⟨fun e he => ?_, h⟩
      rcases mem_cons.1 he with rfl | he
      · exact hlt
      · exact Nat.lt_trans hlt (hhead e he)
    · subst heq
      exact pairwise_cons.2 ⟨hhead, htail⟩
    · refine pairwise_cons.2 ⟨fun e he => ?_, ih htail⟩
      rcases mem_insert he with rfl | he
      · simp only
        omega
      · exact hhead e he

def empty : XArray α := ⟨[], List.Pairwise.nil⟩

def load (xa : XArray α) (k : Nat) : Option α := find k xa.entries

def store (xa : XArray α) (k : Nat) (v : α) : XArray α :=
  ⟨insert k v xa.entries, insert_sorted xa.sorted⟩

def erase (xa : XArray α) (k : Nat) : XArray α :=
  ⟨xa.entries.filter fun e => e.1 ≠ k, xa.sorted.filter _⟩

def values (xa : XArray α) : List α := xa.entries.map Prod.snd

@[simp] theorem load_empty (k : Nat) : (empty : XArray α).load k = none := rfl

theorem find_insert (k j : Nat) (v : α) (es : List (Nat × α)) :
    find j (insert k v es) = if j = k then some v else find j es := by
  induction es with
  | nil => simp [insert, find]
  | cons d es ih =>
    rw [insert]
    split_ifs with hlt heq hjk hjk hjk <;> simp_all [find]

theorem find_filter (k j : Nat) (es : List (Nat × α)) :
    find j (es.filter fun e => e.1 ≠ k) = if j = k then none else find j es := by
  induction es with
  | nil => simp [find]
  | cons d es ih =>
    obtain ⟨i, w⟩ := d
    by_cases hik : i = k
    · subst hik
      simp only [ne_eq, decide_not, decide_true, Bool.not_true, filter_cons, Bool.false_eq_true,
        if_false, find]
      simp only [ne_eq, decide_not] at ih
      rw [ih]
      split_ifs <;> rfl
    · simp only [ne_eq, decide_not, filter_cons, hik, decide_false, Bool.not_false, if_true, find]
      simp only [ne_eq, decide_not] at ih
      rw [ih]
      by_cases hji : j = i
      · simp [hji, hik]
      · simp [hji]

variable (xa : XArray α)
include xa

@[simp] theorem load_store (k j : Nat) (v : α) :
    (xa.store k v).load j = if j = k then some v else xa.load j :=
  find_insert k j v xa.entries

@[simp] theorem load_erase (k j : Nat) : (xa.erase k).load j = if j = k then none else xa.load j :=
  find_filter k j xa.entries

theorem mem_entries_iff (k : Nat) (v : α) : (k, v) ∈ xa.entries ↔ xa.load k = some v := by
  obtain ⟨es, hs⟩ := xa
  simp only [load]
  induction es with
  | nil => simp [find]
  | cons d es ih =>
    obtain ⟨j, w⟩ := d
    obtain ⟨hhead, htail⟩ := pairwise_cons.1 hs
    rw [find]
    split_ifs with hkj
    · subst hkj
      have hnot : (k, v) ∉ es := fun h => Nat.lt_irrefl _ (hhead (k, v) h)
      simp [hnot, eq_comm]
    · simp [hkj, ih htail]

theorem mem_values_iff (v : α) : v ∈ xa.values ↔ ∃ k, xa.load k = some v := by
  simp [values, ← mem_entries_iff]

end XArray
end MsmKernel
