import Mathlib.Logic.Function.Basic
import MsmKernel.Lib.Ring

/-! Rings of pages. A cursor is a page and one offset per page; it leaves a page only when
bytes of the next one are needed, so after a full page it still rests at that page's end. -/
namespace MsmKernel.PagedRing
open MsmKernel Function List Option Ring
variable {α : Type*} {size pages x y d i page off : Nat}

def flat (size : Nat) (data : Nat → Nat → α) (j : Nat) : α := data (j / size) (j % size)

def next (pages page : Nat) : Nat := if page + 1 = pages then 0 else page + 1

structure Cursor where
  page : Nat
  off : Nat → Nat

def Cursor.advance (size pages : Nat) (c : Cursor) (d : Nat) : Cursor :=
  if c.off c.page + d ≤ size then { c with off := update c.off c.page (c.off c.page + d) }
  else
    { page := next pages c.page
      off := update (update c.off c.page 0) (next pages c.page) (c.off c.page + d - size) }

def fetch (size pages : Nat) (data : Nat → Nat → α) (page off d : Nat) : List α :=
  Ring.copyFrom (data page) off (min (size - off) d) ++
    Ring.copyFrom (data (next pages page)) 0 (d - min (size - off) d)

def store (size pages : Nat) (data : Nat → Nat → α) (page off : Nat) (bytes : List α) :
    Nat → Nat → α :=
  let b := min (size - off) bytes.length
  let data := update data page (Ring.copyTo (data page) off (bytes.take b))
  update data (next pages page) (Ring.copyTo (data (next pages page)) 0 (bytes.drop b))

/-- A cursor that stands behind the first `x` bytes of the stream. -/
structure At (size pages x page off : Nat) : Prop where
  page_lt : page < pages
  off_le : off ≤ size
  off_zero : off = 0 ↔ x = 0
  pos : (page * size + off) % (pages * size) = x % (pages * size)

theorem next_lt (h : page < pages) : next pages page < pages := by
  unfold next
  split_ifs <;> omega

theorem flat_mul_add (data : Nat → Nat → α) (h : i < size) :
    flat size data (page * size + i) = data page i := by
  rw [flat, Nat.add_comm, Nat.add_mul_div_right i page (by omega), Nat.add_mul_mod_self_right,
    Nat.div_eq_of_lt h, Nat.mod_eq_of_lt h, Nat.zero_add]

theorem page_end_le (h : page < pages) : page * size + size ≤ pages * size := by
  rw [← Nat.succ_mul]
  exact Nat.mul_le_mul_right size h

theorem at_start (h : 0 < pages) : At size pages 0 0 0 :=
  ⟨h, Nat.zero_le size, Iff.rfl, by simp⟩

theorem pos_add (h : At size pages x page off) (d : Nat) :
    (x + d) % (pages * size) = (page * size + off + d) % (pages * size) := by
  rw [Nat.add_mod x, ← h.pos, ← Nat.add_mod]

theorem turn_mod (size page pages d : Nat) :
    (page * size + size + d) % (pages * size) = (next pages page * size + d) % (pages * size) := by
  unfold next
  split_ifs with hlast
  · rw [← Nat.succ_mul, Nat.succ_eq_add_one, hlast, Nat.add_mod_left, Nat.zero_mul, Nat.zero_add]
  · rw [← Nat.succ_mul]

section
variable (h : At size pages x page off)
include h

theorem At.stay (hd : off + d ≤ size) : At size pages (x + d) page (off + d) := by
  refine ⟨h.page_lt, hd, ?_, ?_⟩
  · have hzero := h.off_zero
    omega
  · rw [pos_add h, Nat.add_assoc]

theorem At.turn (hd : size < off + d) (hsize : d ≤ size) :
    At size pages (x + d) (next pages page) (off + d - size) := by
  have hoff := h.off_le
  refine ⟨next_lt h.page_lt, by omega, by omega, ?_⟩
  rw [← turn_mod, pos_add h]
  congr 1
  omega

/-- Cursors less than a full turn apart meet only at the same byte. -/
theorem At.eq_iff {page' off' : Nat} (h' : At size pages y page' off') (hxy : x ≤ y)
    (hy : y < x + pages * size) : page = page' ∧ off = off' ↔ x = y := by
  constructor
  · rintro ⟨rfl, rfl⟩
    have hmod : (y - x) % (pages * size) = 0 :=
      Nat.sub_mod_eq_zero_of_mod_eq (h'.pos.symm.trans h.pos)
    rw [Nat.mod_eq_of_lt (by omega)] at hmod
    omega
  · rintro rfl
    have hend : page * size + size ≤ pages * size := page_end_le h.page_lt
    have hend' : page' * size + size ≤ pages * size := page_end_le h'.page_lt
    have hpos := h.pos.trans h'.pos.symm
    have hoff := h.off_le
    have hoff' := h'.off_le
    have hzero := h.off_zero
    have hzero' := h'.off_zero
    have hsize : 0 < size := Nat.pos_of_ne_zero fun hs => by simp [hs] at hy
    -- positions run over one turn: from 0 for the fresh cursor, from 1 for every other one
    have hsame : page * size + off = page' * size + off' := by
      by_cases hx : x = 0
      · have ho : off = 0 := hzero.2 hx
        rwa [Nat.mod_eq_of_lt (by omega), Nat.mod_eq_of_lt (by omega)] at hpos
      · have hlast : ∀ a, 0 < a → a ≤ pages * size →
            a % (pages * size) = if a = pages * size then 0 else a := by
          intro a ha hle
          split_ifs with he
          · rw [he, Nat.mod_self]
          · exact Nat.mod_eq_of_lt (by omega)
        rw [hlast _ (by omega) (by omega), hlast _ (by omega) (by omega)] at hpos
        split_ifs at hpos <;> omega
    have hpage : page = page' := by
      rcases Nat.lt_trichotomy page page' with hlt | heq | hlt
      · have hle : page * size + size ≤ page' * size := page_end_le hlt
        omega
      · exact heq
      · have hle : page' * size + size ≤ page * size := page_end_le hlt
        omega
    subst hpage
    omega

/-- Where the byte `i` behind a cursor lies: on its page, or at the front of the next one. -/
theorem At.spot (hi : i < size) : (x + i) % (pages * size) =
      if off + i < size then page * size + (off + i)
      else next pages page * size + (off + i - size) := by
  have hoff := h.off_le
  rw [pos_add h]
  split_ifs with hnear
  · have hend : page * size + size ≤ pages * size := page_end_le h.page_lt
    rw [Nat.mod_eq_of_lt (by omega), Nat.add_assoc]
  · have hend : next pages page * size + size ≤ pages * size := page_end_le (next_lt h.page_lt)
    have hsplit : page * size + off + i = page * size + size + (off + i - size) := by omega
    rw [hsplit, turn_mod, Nat.mod_eq_of_lt (by omega)]

theorem At.fetch_eq (data : Nat → Nat → α) (hd : d ≤ size) : fetch size pages data page off d =
      Ring.contents (pages * size) (flat size data) (x % (pages * size)) d := by
  have hoff := h.off_le
  have hsum : min (size - off) d + (d - min (size - off) d) = d := by omega
  refine ext_getElem (by simp [fetch, hsum]) fun i h₁ h₂ => ?_
  rw [length_contents] at h₂
  simp only [fetch, copyFrom, contents, getElem_append, getElem_map,
    getElem_range, length_map, length_range, Nat.mod_add_mod,
    h.spot (show i < size by omega)]
  by_cases hnear : off + i < size
  · rw [dif_pos (by omega), if_pos hnear, flat_mul_add data hnear]
  · rw [dif_neg (by omega), if_neg hnear, flat_mul_add data (by omega), Nat.zero_add]
    congr 1
    omega

end

theorem store_apply (data : Nat → Nat → α) (bytes : List α) (q : Nat) {r : Nat} (hr : r < size) :
    store size pages data page off bytes q r =
      if q = next pages page ∧ size - off + r < bytes.length then
        bytes[size - off + r]?.getD (data q r)
      else if q = page ∧ off ≤ r then bytes[r - off]?.getD (data q r) else data q r := by
  have hfirst : update data page (Ring.copyTo (data page) off
      (bytes.take (min (size - off) bytes.length))) q r =
      if q = page ∧ off ≤ r then bytes[r - off]?.getD (data q r) else data q r := by
    by_cases hq : q = page
    · subst hq
      simp only [update_self, copyTo, true_and, List.getElem?_take]
      split_ifs with hoff hlt
      · rfl
      · rw [List.getElem?_eq_none (by omega)]
      · rfl
    · rw [update_of_ne hq, if_neg (by tauto)]
  unfold store
  by_cases hq : q = next pages page
  · subst hq
    simp only [update_self, copyTo, Nat.zero_le, if_true, Nat.sub_zero, List.getElem?_drop,
      true_and]
    rw [hfirst]
    by_cases hlt : size - off + r < bytes.length
    · rw [if_pos hlt, Nat.min_eq_left (by omega), List.getElem?_eq_getElem hlt, getD_some,
        getD_some]
    · rw [if_neg hlt, List.getElem?_eq_none (by omega), getD_none]
  · have hno : ¬ (q = next pages page ∧ size - off + r < bytes.length) := fun h => hq h.1
    rw [update_of_ne hq, hfirst, if_neg hno]

section
variable (h : At size pages x page off) (data : Nat → Nat → α) (bytes : List α)
  (hlen : bytes.length ≤ size)
include h data bytes hlen

theorem store_new (hi : i < bytes.length) :
    flat size (store size pages data page off bytes) ((x + i) % (pages * size)) = bytes[i] := by
  have hoff := h.off_le
  rw [h.spot (by omega)]
  split_ifs with hnear
  · rw [flat_mul_add _ hnear, store_apply data bytes page hnear, if_neg (by omega),
      if_pos (by omega), Nat.add_sub_cancel_left, List.getElem?_eq_getElem hi, getD_some]
  · have hidx : size - off + (off + i - size) = i := by omega
    rw [flat_mul_add _ (by omega), store_apply data bytes _ (by omega), hidx, if_pos ⟨rfl, hi⟩,
      List.getElem?_eq_getElem hi, getD_some]

theorem store_old (hsize : 0 < size) {j : Nat}
    (hj : ∀ i < bytes.length, (x + i) % (pages * size) ≠ j) :
    flat size (store size pages data page off bytes) j = flat size data j := by
  have hoff := h.off_le
  have hr : j % size < size := Nat.mod_lt j hsize
  have hsplit : j / size * size + j % size = j := Nat.div_add_mod' j size
  rw [flat, flat, store_apply data bytes _ hr]
  split_ifs with hfar hnear
  · have hspot := h.spot (show size - off + j % size < size by omega)
    rw [if_neg (by omega), ← hfar.1] at hspot
    exact absurd (hspot.trans (by omega)) (hj _ hfar.2)
  · by_cases hlt : j % size - off < bytes.length
    · have hspot := h.spot (show j % size - off < size by omega)
      rw [if_pos (by omega), ← hnear.1] at hspot
      exact absurd (hspot.trans (by omega)) (hj _ hlt)
    · rw [List.getElem?_eq_none (by omega), getD_none]
  · rfl

end

theorem At.contents_store {k : Nat} (h : At size pages (x + k) page off) (data : Nat → Nat → α)
    (bytes : List α) (hlen : bytes.length ≤ size) (hfit : k + bytes.length ≤ pages * size) :
    Ring.contents (pages * size) (flat size (store size pages data page off bytes))
        (x % (pages * size)) (k + bytes.length) =
      Ring.contents (pages * size) (flat size data) (x % (pages * size)) k ++ bytes := by
  refine ext_getElem (by simp) fun i h₁ h₂ => ?_
  rw [length_contents] at h₁
  simp only [contents, getElem_map, getElem_range, getElem_append,
    length_map, length_range, Nat.mod_add_mod]
  split_ifs with hi
  · refine store_old h data bytes hlen (Nat.pos_of_ne_zero fun hs => by simp [hs] at hfit; omega) ?_
    -- a position written now is less than a turn behind position `i`
    intro i' hi' hmod
    have hzero : (x + k + i' - (x + i)) % (pages * size) = 0 := Nat.sub_mod_eq_zero_of_mod_eq hmod
    rw [Nat.mod_eq_of_lt (by omega)] at hzero
    omega
  · have hidx : x + i = x + k + (i - k) := by omega
    rw [hidx]
    exact store_new h data bytes hlen (by omega)

/-- A cursor whose other pages are all at offset zero. -/
structure Parked (size pages x : Nat) (c : Cursor) : Prop where
  here : At size pages x c.page (c.off c.page)
  others : ∀ k, k ≠ c.page → c.off k = 0

theorem Parked.advance {c : Cursor} (h : Parked size pages x c) (hd : d ≤ size) :
    Parked size pages (x + d) (c.advance size pages d) := by
  unfold Cursor.advance
  split_ifs with hnear
  · refine ⟨by simpa only [update_self] using h.here.stay hnear, ?_⟩
    intro k hk
    dsimp only at hk ⊢
    rw [update_of_ne hk]
    exact h.others k hk
  · refine ⟨by simpa only [update_self] using h.here.turn (by omega) hd, ?_⟩
    · intro k hk
      dsimp only at hk ⊢
      rw [update_of_ne hk]
      by_cases hpage : k = c.page
      · rw [hpage, update_self]
      · rw [update_of_ne hpage]
        exact h.others k hpage

end MsmKernel.PagedRing
