import Mathlib.Data.List.Sort
import Mathlib.Order.Defs.LinearOrder

/-! Lists of falling priority whose entries of equal priority stand in the order of a stamp: an entry
is inserted behind its equals with a greater stamp, or ahead of them with a smaller one. -/
namespace MsmKernel.PriorityList
open List
variable {α κ ι : Type*} [LinearOrder κ] [LinearOrder ι] {prio prio' : α → κ} {stamp stamp' : α → ι}
  {l : List α} {a b c : α}

def Before (prio : α → κ) (stamp : α → ι) (a b : α) : Prop :=
  prio b < prio a ∨ prio a = prio b ∧ stamp a < stamp b

def Ordered (prio : α → κ) (stamp : α → ι) (l : List α) : Prop := l.Pairwise (Before prio stamp)

/- In front of the first entry of a lower priority, with `atFront` also of the same one. -/
def insert (prio : α → κ) (atFront : Bool) (a : α) (l : List α) : List α :=
  l.orderedInsert (fun x y => if atFront then prio y ≤ prio x else prio y < prio x) a

@[simp] theorem mem_insert {atFront : Bool} : b ∈ insert prio atFront a l ↔ b = a ∨ b ∈ l :=
  mem_orderedInsert _

@[simp] theorem length_insert {atFront : Bool} : (insert prio atFront a l).length = l.length + 1 :=
  orderedInsert_length _ _ _

theorem Before.trans (hab : Before prio stamp a b) (hbc : Before prio stamp b c) :
    Before prio stamp a c := by
  rcases hab with hlt | ⟨heq, hs⟩ <;> rcases hbc with hlt' | ⟨heq', hs'⟩
  · exact .inl (hlt'.trans hlt)
  · exact .inl (heq' ▸ hlt)
  · exact .inl (heq ▸ hlt')
  · exact .inr ⟨heq.trans heq', hs.trans hs'⟩

variable (h : Ordered prio stamp l)
include h

theorem Ordered.nodup : l.Nodup := by
  refine h.imp fun {a b} hab heq => ?_
  subst heq
  rcases hab with hlt | ⟨-, hs⟩
  · exact lt_irrefl _ hlt
  · exact lt_irrefl _ hs

theorem Ordered.erase [DecidableEq α] (a : α) :
    Ordered prio stamp (l.erase a) := h.sublist erase_sublist

theorem Ordered.congr (hprio : ∀ x ∈ l, prio' x = prio x) (hstamp : ∀ x ∈ l, stamp' x = stamp x) :
    Ordered prio' stamp' l := by
  refine List.Pairwise.imp_of_mem (fun {a b} ha hb hab => ?_) h
  simpa only [Before, hprio a ha, hprio b hb, hstamp a ha, hstamp b hb] using hab

/-- An insertion that goes by `r` keeps the order when `r` says on which side the entry belongs. -/
theorem ordered_orderedInsert {r : α → α → Prop} [DecidableRel r]
    (hahead : ∀ b ∈ l, r a b → Before prio stamp a b)
    (hbehind : ∀ b ∈ l, ¬ r a b → Before prio stamp b a) :
    Ordered prio stamp (l.orderedInsert r a) := by
  induction l with
  | nil => simp [Ordered]
  | cons b l ih =>
    obtain ⟨hb, hl⟩ := pairwise_cons.mp h
    rw [orderedInsert_cons]
    split
    · rename_i hab
      have hfirst := hahead b (mem_cons_self ..) hab
      refine pairwise_cons.mpr ⟨fun x hx => ?_, h⟩
      rcases mem_cons.mp hx with rfl | hx
      · exact hfirst
      · exact hfirst.trans (hb x hx)
    · rename_i hab
      refine pairwise_cons.mpr ⟨fun x hx => ?_, ih hl
        (fun x hx => hahead x (mem_cons_of_mem _ hx))
        (fun x hx => hbehind x (mem_cons_of_mem _ hx))⟩
      rcases (mem_orderedInsert r).mp hx with rfl | hx
      · exact hbehind b (mem_cons_self ..) hab
      · exact hb x hx

theorem ordered_insert_behind (hstamp : ∀ b ∈ l, stamp b < stamp a) :
    Ordered prio stamp (insert prio false a l) := by
  refine ordered_orderedInsert h (fun b _ hlt => .inl ?_) fun b hb hle => ?_
  · simpa using hlt
  · rcases (not_lt.mp (by simpa using hle)).lt_or_eq with hlt | heq
    · exact .inl hlt
    · exact .inr ⟨heq.symm, hstamp b hb⟩

theorem ordered_insert_ahead (hstamp : ∀ b ∈ l, stamp a < stamp b) :
    Ordered prio stamp (insert prio true a l) := by
  refine ordered_orderedInsert h (fun b hb hle => ?_) fun b _ hlt => .inl ?_
  · have hle : prio b ≤ prio a := by simpa using hle
    rcases hle.lt_or_eq with hlt | heq
    · exact .inl hlt
    · exact .inr ⟨heq.symm, hstamp b hb⟩
  · exact not_le.mp (by simpa using hlt)

end MsmKernel.PriorityList
