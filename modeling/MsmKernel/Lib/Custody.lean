import Mathlib.Data.List.Nodup
import Mathlib.Data.List.Perm.Basic
import Mathlib.Tactic.Common

/-! Custody of resources. What an allocator has handed out is, without repetition, what stands in
the places of a system together with what a running operation has in its hands. -/
namespace MsmKernel.Custody
open List

variable {α β : Type*}

structure Held (out places hands : List α) : Prop where
  nodup : out.Nodup
  perm : out ~ places ++ hands

variable {f : α → List β} {l : List α} {i : Nat} {a b : α}

theorem flatMap_set_perm {xs : List β} (hi : l[i]? = some a) (hf : f a ~ xs ++ f b) :
    l.flatMap f ~ xs ++ (l.set i b).flatMap f := by
  induction l generalizing i with
  | nil => simp at hi
  | cons c l ih =>
    cases i with
    | zero =>
      obtain rfl : c = a := by simpa using hi
      simpa using hf.append_right (l.flatMap f)
    | succ i =>
      have htail := (ih (by simpa using hi)).append_left (f c)
      have hswap : f c ++ xs ~ xs ++ f c := perm_append_comm
      simpa [← append_assoc] using
        htail.trans (by simpa using hswap.append_right ((l.set i b).flatMap f))

theorem flatMap_set_perm_add {xs : List β} (hi : l[i]? = some a) (hf : f b ~ xs ++ f a) :
    (l.set i b).flatMap f ~ xs ++ l.flatMap f := by
  obtain ⟨hlt, ha⟩ := List.getElem?_eq_some_iff.1 hi
  have hb : (l.set i b)[i]? = some b := by simp [hlt]
  have hback : (l.set i b).set i a = l := by simp [← ha]
  simpa only [hback] using flatMap_set_perm hb hf

variable {out places places' hands xs : List α} {x : α}

namespace Held

section
variable (h : Held out places hands)
include h

theorem places_nodup : places.Nodup :=
  (nodup_append.1 (h.perm.nodup_iff.1 h.nodup)).1

theorem hands_nodup : hands.Nodup :=
  (nodup_append.1 (h.perm.nodup_iff.1 h.nodup)).2.1

theorem mem_out : x ∈ out ↔ x ∈ places ∨ x ∈ hands := by
  simp [h.perm.mem_iff]

/-- What is in hand stands in no place. -/
theorem not_mem_places (hx : x ∈ hands) : x ∉ places := fun hp =>
  (nodup_append.1 (h.perm.nodup_iff.1 h.nodup)).2.2 x hp x hx rfl

theorem reorder (hh : hands ~ xs) : Held out places xs :=
  ⟨h.nodup, h.perm.trans (hh.append_left _)⟩

theorem takeOut (hp : places ~ xs ++ places') : Held out places' (xs ++ hands) := by
  have hswap : xs ++ places' ~ places' ++ xs := perm_append_comm
  refine ⟨h.nodup, h.perm.trans ?_⟩
  rw [← append_assoc]
  exact (hp.trans hswap).append_right hands

end

theorem putIn (h : Held out places (xs ++ hands)) (hp : places' ~ xs ++ places) :
    Held out places' hands := by
  have hswap : places ++ xs ~ xs ++ places := perm_append_comm
  refine ⟨h.nodup, h.perm.trans ?_⟩
  rw [← append_assoc]
  exact (hswap.trans hp.symm).append_right hands

theorem acquire (h : Held out places hands) (hx : x ∉ out) : Held (x :: out) places (x :: hands) :=
  ⟨nodup_cons.2 ⟨hx, h.nodup⟩, (h.perm.cons x).trans perm_middle.symm⟩

theorem release [DecidableEq α] (h : Held out places (xs ++ hands)) :
    Held (out.diff xs) places hands := by
  have hsub : out ~ xs ++ (places ++ hands) := by
    have hswap : places ++ xs ~ xs ++ places := perm_append_comm
    simpa [← append_assoc] using h.perm.trans (by simpa using hswap.append_right hands)
  refine ⟨h.nodup.diff, ?_⟩
  have hcancel : (xs ++ (places ++ hands)).diff xs = places ++ hands := by
    clear h hsub
    induction xs with
    | nil => rfl
    | cons x xs ih => simpa using ih
  exact hcancel ▸ hsub.diff_right xs

/-- With empty hands, everything handed out is in exactly one place. -/
theorem count_places [DecidableEq α] (h : Held out places []) (x : α) :
    places.count x = if x ∈ out then 1 else 0 := by
  have hone := nodup_iff_count_le_one.1 h.places_nodup x
  have hmem : x ∈ out ↔ x ∈ places := by simpa using h.mem_out
  split_ifs with hx
  · have hpos := count_pos_iff.2 (hmem.1 hx)
    omega
  · exact count_eq_zero.2 fun hp => hx (hmem.2 hp)

end Held
end MsmKernel.Custody
