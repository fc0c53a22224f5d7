import Mathlib.Data.List.Basic
import Mathlib.Tactic.Common

/-! Bounded message queues that evict. The queue keeps the messages written last; a reader
marks messages as seen without taking them. `gone` records what was taken or evicted. -/
namespace MsmKernel.EvictingQueue
open List
variable {α : Type*}

structure Queue (α : Type*) where
  gone : List (List α)
  seen : List (List α)
  unseen : List (List α)

namespace Queue

def empty : Queue α := ⟨[], [], []⟩

def retained (q : Queue α) : List (List α) := q.seen ++ q.unseen

def written (q : Queue α) : List (List α) := q.gone ++ q.retained

def take : Queue α → Queue α
  | ⟨g, m :: s, u⟩ => ⟨g ++ [m], s, u⟩
  | ⟨g, [], m :: u⟩ => ⟨g ++ [m], [], u⟩
  | ⟨g, [], []⟩ => ⟨g, [], []⟩

def read : Queue α → Queue α
  | ⟨g, s, m :: u⟩ => ⟨g, s ++ [m], u⟩
  | ⟨g, s, []⟩ => ⟨g, s, []⟩

def evict (cap len : Nat) : Nat → Queue α → Queue α
  | 0, q => q
  | k + 1, q => if cap ≤ q.retained.flatten.length + len then evict cap len k q.take else q

/-- Evicts the oldest messages until a message of `len` letters leaves a letter free. -/
def makeRoom (cap len : Nat) (q : Queue α) : Queue α := evict cap len q.retained.length q

def write (cap : Nat) (m : List α) (q : Queue α) : Queue α :=
  let q := q.makeRoom cap m.length
  { q with unseen := q.unseen ++ [m] }

theorem retained_take (q : Queue α) : q.take.retained = q.retained.tail := by
  obtain ⟨g, s, u⟩ := q
  cases s with
  | cons m s => rfl
  | nil => cases u <;> rfl

@[simp] theorem written_take (q : Queue α) : q.take.written = q.written := by
  obtain ⟨g, s, u⟩ := q
  cases s with
  | cons m s => simp [take, written, retained]
  | nil => cases u <;> simp [take, written, retained]

@[simp] theorem retained_read (q : Queue α) : q.read.retained = q.retained := by
  obtain ⟨g, s, u⟩ := q
  cases u <;> simp [read, retained]

@[simp] theorem written_read (q : Queue α) : q.read.written = q.written := by
  rw [written, written, retained_read]
  obtain ⟨g, s, u⟩ := q
  cases u <;> rfl

@[simp] theorem written_evict (cap len k : Nat) (q : Queue α) :
    (evict cap len k q).written = q.written := by
  induction k generalizing q with
  | zero => rfl
  | succ k ih =>
    unfold evict
    split_ifs
    · rw [ih, written_take]
    · rfl

theorem written_write (cap : Nat) (m : List α) (q : Queue α) :
    (q.write cap m).written = q.written ++ [m] := by
  rw [← written_evict cap m.length q.retained.length q]
  simp [write, makeRoom, written, retained]

/-- Eviction stops at the longest end of the queue that leaves room. -/
theorem evict_longest {cap len : Nat} (hlen : len < cap) (k : Nat) (q : Queue α)
    (hk : q.retained.length ≤ k) :
    (evict cap len k q).retained <:+ q.retained ∧
      (evict cap len k q).retained.flatten.length + len < cap ∧
      ∀ l, l <:+ q.retained → l.flatten.length + len < cap → l <:+ (evict cap len k q).retained := by
  induction k generalizing q with
  | zero =>
    have hnil : q.retained = [] := length_eq_zero_iff.1 (Nat.le_zero.1 hk)
    refine ⟨suffix_rfl, ?_, fun l hl _ => hl⟩
    simpa [evict, hnil] using hlen
  | succ k ih =>
    unfold evict
    split_ifs with hfull
    · have hcons : q.retained ≠ [] := by
        intro hnil
        rw [hnil, flatten_nil, length_nil] at hfull
        omega
      have hlt : q.take.retained.length ≤ k := by
        rw [retained_take, length_tail]
        omega
      obtain ⟨hend, hfits, hlongest⟩ := ih q.take hlt
      rw [retained_take] at hend hlongest
      refine ⟨hend.trans (tail_suffix _), hfits, ?_⟩
      intro l hl hl'
      rw [← cons_head_tail hcons, suffix_cons_iff] at hl
      rcases hl with hall | htail
      · rw [hall, cons_head_tail] at hl'
        omega
      · exact hlongest l htail hl'
    · exact ⟨suffix_rfl, by omega, fun l hl _ => hl⟩

end Queue
end MsmKernel.EvictingQueue
