import Mathlib.Algebra.BigOperators.Group.List.Basic
import Mathlib.Algebra.Order.BigOperators.Group.List
import Mathlib.Data.List.Perm.Basic
import Mathlib.Tactic.Ring
import MsmKernel.Hab.Pipe

/-! Messages that `hab_msg_alloc` (hab_msg.c) receives into separate pages when no buffer in one
piece is to be had, and what `hab_msg_free` gives back of them. -/
namespace MsmKernel.Hab.Scatter
open Pipe List

def PAGE_SIZE : Nat := 4096

/- Whether each request for memory succeeds, and the pointers granted and freed so far. A pointer is
the number of its request. -/
structure Heap where
  grants : Nat → Bool
  requests : Nat
  granted : List Nat
  freed : List Nat

open Heap

def Heap.start (grants : Nat → Bool) : Heap := ⟨grants, 0, [], []⟩

def Heap.kzalloc (h : Heap) : Option Nat × Heap :=
  if h.grants h.requests then
    (some h.requests, { h with requests := h.requests + 1, granted := h.granted ++ [h.requests] })
  else (none, { h with requests := h.requests + 1 })

def Heap.kfree (h : Heap) (ps : List Nat) : Heap := { h with freed := h.freed ++ ps }

structure HabMessage where
  ptr : Nat
  sizebytes : BitVec 64
  scatter : Bool
  scatterBuf : List Nat

/- The number of a call of `physical_channel_read` and the size that it asks for give the int that
it returns. -/
abbrev Reader := Nat → Nat → BitVec 32

def totalNum (sizebytes : Nat) : Nat :=
  if sizebytes % PAGE_SIZE = 0 then sizebytes / PAGE_SIZE else sizebytes / PAGE_SIZE + 1

def pageBytes (sizebytes i : Nat) : Nat :=
  if i < sizebytes / PAGE_SIZE then PAGE_SIZE else sizebytes % PAGE_SIZE

def allocPages : Nat → Heap → List Nat × Bool × Heap
  | 0, h => ([], true, h)
  | n + 1, h =>
    match h.kzalloc with
    | (none, h) => ([], false, h)
    | (some p, h) => (p :: (allocPages n h).1, (allocPages n h).2)

/- The results are added to a `size_t` with their sign. -/
def readPages (read : Reader) (sizebytes : Nat) : List Nat → BitVec 64 → BitVec 64
  | [], size => size
  | i :: is, size =>
    readPages read sizebytes is (size + (read i (pageBytes sizebytes i)).signExtend 64)

def habScatterMsgAlloc (read : Reader) (sizebytes : Nat) (h : Heap) : Option HabMessage × Heap :=
  if sizebytes ≤ PAGE_SIZE then (none, h)
  else
    match h.kzalloc with
    | (none, h) => (none, h)
    | (some message, h) =>
      match allocPages (totalNum sizebytes) h with
      | (scatterBuf, true, h) =>
        (some
          { ptr := message
            sizebytes := readPages read sizebytes (List.range (totalNum sizebytes)) 0
            scatter := true
            scatterBuf := scatterBuf }, h)
      | (scatterBuf, false, h) => (none, (h.kfree scatterBuf).kfree [message])

def habMsgAlloc (read : Reader) (sizebytes : Nat) (h : Heap) : Option HabMessage × Heap :=
  if habHeaderSizeMax < sizebytes then (none, h)
  else
    match h.kzalloc with
    | (none, h) => habScatterMsgAlloc read sizebytes h
    | (some message, h) =>
      (some
        { ptr := message
          sizebytes := (read 0 sizebytes).signExtend 64
          scatter := false
          scatterBuf := [] }, h)

def freePageNum (sizebytes : BitVec 64) : BitVec 32 :=
  let pageNum := (sizebytes >>> 12).setWidth 32
  if sizebytes % 4096 ≠ 0 then pageNum + 1 else pageNum

/- `beyond` is what the memory behind the array of pages holds. -/
def habMsgFree (beyond : Nat → Nat) (message : HabMessage) (h : Heap) : Heap :=
  let h :=
    if message.scatter then
      h.kfree ((List.range (freePageNum message.sizebytes).toNat).map fun i =>
        message.scatterBuf.getD i (beyond i))
    else h
  h.kfree [message.ptr]

def MayReturn (size : Nat) (r : BitVec 32) : Prop :=
  r.toNat ≤ size ∨ r = 0xFFFFFFFE ∨ r = 0xFFFFFFFF

structure Pages (h h' : Heap) (pages : List Nat) : Prop where
  granted : h'.granted = h.granted ++ pages
  freed : h'.freed = h.freed
  sorted : pages.Pairwise (· < ·)
  fresh : ∀ p ∈ pages, h.requests ≤ p

theorem allocPages_spec (n : Nat) (h : Heap) :
    Pages h (allocPages n h).2.2 (allocPages n h).1 ∧
      ((allocPages n h).2.1 = true → (allocPages n h).1.length = n) := by
  induction n generalizing h with
  | zero => exact ⟨⟨(append_nil _).symm, rfl, .nil, by simp [allocPages]⟩, fun _ => rfl⟩
  | succ n ih =>
    by_cases hgrant : h.grants h.requests = true
    · obtain ⟨hpages, hlen⟩ :=
        ih { h with requests := h.requests + 1, granted := h.granted ++ [h.requests] }
      simp only [allocPages, kzalloc, hgrant, if_true]
      refine ⟨⟨?_, hpages.freed, ?_, ?_⟩, fun hok => ?_⟩
      · rw [hpages.granted, append_assoc, singleton_append]
      · exact List.Pairwise.cons (fun p hp => hpages.fresh p hp) hpages.sorted
      · intro p hp
        rcases mem_cons.1 hp with rfl | hp
        · exact le_rfl
        · exact Nat.le_of_succ_le (hpages.fresh p hp)
      · rw [length_cons, hlen hok]
    · simp only [allocPages, kzalloc, hgrant]
      exact ⟨⟨(append_nil _).symm, rfl, .nil, by simp⟩, by simp⟩

def bytesRead (read : Reader) (sizebytes : Nat) : Int :=
  ((List.range (totalNum sizebytes)).map fun i => (read i (pageBytes sizebytes i)).toInt).sum

theorem readPages_eq (read : Reader) (sizebytes : Nat) (is : List Nat) (x : Int) :
    readPages read sizebytes is (BitVec.ofInt 64 x) =
      BitVec.ofInt 64 (x + (is.map fun i => (read i (pageBytes sizebytes i)).toInt).sum) := by
  induction is generalizing x with
  | nil => rw [map_nil, sum_nil, Int.add_zero, readPages]
  | cons i is ih =>
    rw [readPages, BitVec.signExtend, ← BitVec.ofInt_add, ih, map_cons, sum_cons, Int.add_assoc]

theorem mayReturn_bounds {size : Nat} {r : BitVec 32} (h : MayReturn size r)
    (hsize : size ≤ PAGE_SIZE) : -2 ≤ r.toInt ∧ r.toInt ≤ size := by
  unfold PAGE_SIZE at hsize
  rcases h with h | rfl | rfl
  · rw [BitVec.toInt_eq_toNat_of_lt (by omega)]
    omega
  · have hval : (0xFFFFFFFE : BitVec 32).toInt = -2 := by decide
    omega
  · have hval : (0xFFFFFFFF : BitVec 32).toInt = -1 := by decide
    omega

theorem totalNum_eq (n : Nat) : totalNum n = (n + 4095) / 4096 := by
  unfold totalNum PAGE_SIZE
  split_ifs <;> omega

theorem pageBytes_le (n i : Nat) : pageBytes n i ≤ PAGE_SIZE := by
  unfold pageBytes PAGE_SIZE
  split_ifs <;> omega

theorem sum_pageBytes (n k : Nat) (hk : k ≤ totalNum n) :
    ((List.range k).map fun i => (pageBytes n i : Int)).sum ≤ n ∧
      (k ≤ n / PAGE_SIZE →
        ((List.range k).map fun i => (pageBytes n i : Int)).sum = k * PAGE_SIZE) := by
  rw [totalNum_eq] at hk
  unfold PAGE_SIZE
  induction k with
  | zero => simp
  | succ k ih =>
    obtain ⟨hle, heq⟩ := ih (by omega)
    rw [range_succ, map_append, sum_append, map_singleton, sum_singleton]
    have hfull := heq (by omega)
    rw [hfull, pageBytes, PAGE_SIZE]
    constructor
    · split_ifs <;> omega
    · intro hlt
      rw [if_pos (by omega)]
      omega

theorem bytesRead_bounds {read : Reader} {n : Nat}
    (hread : ∀ i size, MayReturn size (read i size)) :
    -(2 * totalNum n : Int) ≤ bytesRead read n ∧ bytesRead read n ≤ n := by
  have hbounds i := mayReturn_bounds (hread i (pageBytes n i)) (pageBytes_le n i)
  constructor
  · have hconst : ((List.range (totalNum n)).map fun _ => (-2 : Int)).sum = -(2 * totalNum n : Int) := by
      rw [map_const', sum_replicate, length_range, nsmul_eq_mul]
      ring
    rw [← hconst]
    exact sum_le_sum fun i _ => (hbounds i).1
  · exact (sum_le_sum fun i _ => (hbounds i).2).trans (sum_pageBytes n _ le_rfl).1

/-- The pages are counted by the bytes read; a negative count wraps to no page at all. -/
theorem freePageNum_eq {s : Int} (hlow : -4096 < s) (hhigh : s < 2 ^ 43) :
    (freePageNum (BitVec.ofInt 64 s)).toNat = (s.toNat + 4095) / 4096 := by
  have htoNat : (BitVec.ofInt 64 s).toNat = (s % 2 ^ 64).toNat := BitVec.toNat_ofInt ..
  have hshift : (((BitVec.ofInt 64 s) >>> 12).setWidth 32).toNat =
      (BitVec.ofInt 64 s).toNat / 4096 % 2 ^ 32 := by
    rw [BitVec.toNat_setWidth, BitVec.toNat_ushiftRight, Nat.shiftRight_eq_div_pow]
  have hrem : BitVec.ofInt 64 s % 4096 ≠ 0 ↔ (BitVec.ofInt 64 s).toNat % 4096 ≠ 0 := by
    rw [ne_eq, ← BitVec.toNat_inj, BitVec.toNat_umod]
    rfl
  unfold freePageNum
  simp only [hrem]
  split_ifs with hr
  · rw [BitVec.toNat_add, hshift]
    have hone : (1 : BitVec 32).toNat = 1 := rfl
    omega
  · rw [hshift]
    omega

theorem range_map_getD (pages : List Nat) (beyond : Nat → Nat) {k : Nat} (hk : k ≤ pages.length) :
    ((List.range k).map fun i => pages.getD i (beyond i)) = pages.take k := by
  refine ext_getElem (by simp [hk]) fun i h₁ h₂ => ?_
  rw [length_map, length_range] at h₁
  have hi : i < pages.length := by omega
  simp [List.getD, hi]

/- After the message is freed, or when there is none, every pointer that was granted is freed once
and no other. -/
def Balanced (h : Heap) : Prop := h.granted.Nodup ∧ h.freed.Perm h.granted

def FreedExactly (grants : Nat → Bool) (read : Reader) (beyond : Nat → Nat) (sizebytes : Nat) :
    Prop :=
  match habMsgAlloc read sizebytes (Heap.start grants) with
  | (none, h) => Balanced h
  | (some message, h) => Balanced (habMsgFree beyond message h)

def Scattered (grants : Nat → Bool) (read : Reader) (sizebytes : Nat) : Prop :=
  ∃ message h, habMsgAlloc read sizebytes (Heap.start grants) = (some message, h) ∧
    message.scatter = true

/-- What an allocation ends in: no message and nothing kept, one buffer, or a page for each part. -/
theorem alloc_cases (grants : Nat → Bool) (read : Reader) {n : Nat} (hsize : PAGE_SIZE < n)
    (hmax : n ≤ habHeaderSizeMax) :
    (∃ h, habMsgAlloc read n (Heap.start grants) = (none, h) ∧ Balanced h) ∨
      (∃ message h, habMsgAlloc read n (Heap.start grants) = (some message, h) ∧
        message.scatter = false ∧ h.granted = [message.ptr] ∧ h.freed = []) ∨
      ∃ message h, habMsgAlloc read n (Heap.start grants) = (some message, h) ∧
        message.scatter = true ∧ message.scatterBuf.length = totalNum n ∧
        message.sizebytes = BitVec.ofInt 64 (bytesRead read n) ∧
        h.granted = message.ptr :: message.scatterBuf ∧ h.granted.Nodup ∧ h.freed = [] := by
  have hstart : habMsgAlloc read n (Heap.start grants) =
      if grants 0 then
        (some ⟨0, (read 0 n).signExtend 64, false, []⟩, ⟨grants, 1, [0], []⟩)
      else habScatterMsgAlloc read n ⟨grants, 1, [], []⟩ := by
    unfold habMsgAlloc
    rw [if_neg (Nat.not_lt.2 hmax)]
    cases h : grants 0 <;> simp [kzalloc, start, h]
  rw [hstart]
  split_ifs with hfirst
  · exact Or.inr (Or.inl ⟨_, _, rfl, rfl, rfl, rfl⟩)
  · cases hsecond : grants 1 with
    | false =>
      refine Or.inl ⟨⟨grants, 2, [], []⟩, ?_, .nil, .refl _⟩
      simp [habScatterMsgAlloc, Nat.not_le.2 hsize, kzalloc, hsecond]
    | true =>
      obtain ⟨hpages, hlen⟩ := allocPages_spec (totalNum n) ⟨grants, 2, [1], []⟩
      have hscatter : habScatterMsgAlloc read n ⟨grants, 1, [], []⟩ =
          match allocPages (totalNum n) ⟨grants, 2, [1], []⟩ with
          | (pages, true, h) =>
            (some ⟨1, readPages read n (List.range (totalNum n)) 0, true, pages⟩, h)
          | (pages, false, h) => (none, (h.kfree pages).kfree [1]) := by
        simp [habScatterMsgAlloc, Nat.not_le.2 hsize, kzalloc, hsecond]
      rw [hscatter]
      generalize allocPages (totalNum n) ⟨grants, 2, [1], []⟩ = r at hpages hlen
      obtain ⟨pages, ok, h⟩ := r
      have hgranted : h.granted = 1 :: pages := hpages.granted
      have hnodup : h.granted.Nodup := by
        rw [hgranted]
        refine nodup_cons.2 ⟨fun hmem => ?_, hpages.sorted.imp ne_of_lt⟩
        exact absurd (hpages.fresh 1 hmem) (show ¬ 2 ≤ 1 by decide)
      have hfreed : h.freed = [] := hpages.freed
      cases ok with
      | true =>
        refine Or.inr (Or.inr ⟨_, _, rfl, rfl, hlen rfl, ?_, hgranted, hnodup, hfreed⟩)
        have hread := readPages_eq read n (List.range (totalNum n)) 0
        rw [Int.zero_add] at hread
        exact hread
      | false =>
        refine Or.inl ⟨_, rfl, hnodup, ?_⟩
        simp only [kfree, hfreed, hgranted, nil_append]
        exact perm_append_singleton 1 pages

/-- For every size, every pattern of failing requests and all results of the reads: all that was
granted is freed exactly if a message in pages was read into its last page. -/
theorem scatter_freed_exactly (grants : Nat → Bool) (read : Reader) (beyond : Nat → Nat) (n : Nat)
    (hsize : PAGE_SIZE < n) (hmax : n ≤ habHeaderSizeMax)
    (hread : ∀ i size, MayReturn size (read i size)) :
    FreedExactly grants read beyond n ↔
      (Scattered grants read n → ((totalNum n : Int) - 1) * PAGE_SIZE < bytesRead read n) := by
  unfold FreedExactly Scattered
  rcases alloc_cases grants read hsize hmax with ⟨h, halloc, hbal⟩ | ⟨m, h, halloc, hplain, hg, hf⟩ |
    ⟨m, h, halloc, hscatter, hlen, hbytes, hg, hnodup, hf⟩
  · rw [halloc]
    exact iff_of_true hbal fun ⟨_, _, heq, _⟩ => absurd heq (by simp)
  · rw [halloc]
    refine iff_of_true ?_ ?_
    · simp [Balanced, habMsgFree, hplain, kfree, hg, hf]
    · rintro ⟨m', h', heq, hs⟩
      simp only [Prod.mk.injEq, Option.some.injEq] at heq
      rw [← heq.1, hplain] at hs
      exact absurd hs (by decide)
  · rw [halloc]
    have hs : ∃ message h', ((some m, h) : Option HabMessage × Heap) = (some message, h') ∧
        message.scatter = true := ⟨m, h, rfl, hscatter⟩
    simp only [hs, true_implies]
    obtain ⟨hlow, hhigh⟩ := bytesRead_bounds (n := n) hread
    have htotal := totalNum_eq n
    unfold PAGE_SIZE at hsize ⊢
    unfold habHeaderSizeMax at hmax
    have hcount := freePageNum_eq (s := bytesRead read n) (by omega) (by omega)
    rw [← hbytes] at hcount
    have hle : (freePageNum m.sizebytes).toNat ≤ m.scatterBuf.length := by omega
    simp only [Balanced, habMsgFree, hscatter, if_true, kfree, hf, nil_append,
      range_map_getD _ _ hle]
    constructor
    · rintro ⟨-, hperm⟩
      have hlength := hperm.length_eq
      rw [hg, length_append, length_take, length_singleton, length_cons] at hlength
      omega
    · intro hlast
      have hall : (freePageNum m.sizebytes).toNat = m.scatterBuf.length := by omega
      refine ⟨hnodup, ?_⟩
      rw [hall, take_length, hg]
      exact perm_append_singleton m.ptr m.scatterBuf

def fullReads (limit : Nat) : Reader := fun i size =>
  if i < limit ∧ size ≤ PAGE_SIZE then BitVec.ofNat 32 size else 0

theorem fullReads_mayReturn (limit i size : Nat) : MayReturn size (fullReads limit i size) := by
  unfold fullReads
  split_ifs with h
  · exact Or.inl (by rw [BitVec.toNat_ofNat]; exact Nat.mod_le _ _)
  · exact Or.inl (Nat.zero_le _)

theorem scatter_freed_exactly_two_pages :
    FreedExactly (fun i => i ≠ 0) (fullReads 2) (fun _ => 0) 5000 :=
  (scatter_freed_exactly (fun i => i ≠ 0) (fullReads 2) (fun _ => 0) 5000 (by decide) (by decide)
    (fullReads_mayReturn 2)).2 fun _ => by decide

/-- A read that finds nothing for the second page makes `hab_msg_free` forget that page, and with a
mismatch reported for both it frees no page. -/
theorem scatter_page_leaked :
    ¬ FreedExactly (fun i => i ≠ 0) (fullReads 1) (fun _ => 0) 5000 ∧
      ¬ FreedExactly (fun i => i ≠ 0) (fun _ _ => 0xFFFFFFFE) (fun _ => 0) 5000 := by
  constructor
  all_goals
    rintro ⟨-, hperm⟩
    exact absurd hperm.length_eq (by decide)

end MsmKernel.Hab.Scatter
