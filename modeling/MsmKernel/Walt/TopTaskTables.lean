import MsmKernel.Lib.Tally
import MsmKernel.Walt.TopTasks

/-! The table, the bitmap and the top index of one tracked window show a tally of load indices, and
each operation of update_top_tasks and of the migration code shows the tally in which one task has
changed its index. -/
namespace MsmKernel.Walt
open Tally Option

/- The index under which a task with this window time is counted, if it is counted at all. -/
def loadKey (load : Nat) : Option Nat := if load ≠ 0 then some (loadToIndex load) else none

theorem loadToIndex_lt (load : Nat) : loadToIndex load < NUM_LOAD_INDICES := by
  simp only [loadToIndex, NUM_LOAD_INDICES]
  omega

theorem loadToIndex_mono {load load' : Nat} (h : load ≤ load') :
    loadToIndex load ≤ loadToIndex load' :=
  min_le_min_right _ (Nat.div_le_div_right h)

theorem loadKey_zero : loadKey 0 = none := rfl

theorem loadKey_of_ne {load : Nat} (h : load ≠ 0) : loadKey load = some (loadToIndex load) :=
  if_pos h

theorem eq_of_loadKey {load i : Nat} (h : loadKey load = some i) :
    load ≠ 0 ∧ i = loadToIndex load := by
  simp only [loadKey] at h
  split_ifs at h with hne
  exact ⟨hne, (some.inj h).symm⟩

namespace Slot

structure Shows (slot : Slot) (n : Nat → Nat) : Prop where
  table : ∀ i, slot.table i = n i
  bitmap : ∀ i, i < NUM_LOAD_INDICES → (slot.bitmap (NUM_LOAD_INDICES - 1 - i) = true ↔ n i ≠ 0)
  top : IsTop n slot.top
  range : ∀ i, n i ≠ 0 → i < NUM_LOAD_INDICES
  fits : ∀ i, n i < 256

section Fields
variable (slot : Slot) (index : Nat)

@[simp] theorem incr_bitmap : (slot.incr index).bitmap = slot.bitmap := rfl

@[simp] theorem decr_bitmap : (slot.decr index).bitmap = slot.bitmap := rfl

@[simp] theorem incr_top : (slot.incr index).top = slot.top := rfl

@[simp] theorem decr_top : (slot.decr index).top = slot.top := rfl

@[simp] theorem clearBitIfZero_table : (slot.clearBitIfZero index).table = slot.table := by
  simp only [clearBitIfZero]
  split_ifs <;> rfl

@[simp] theorem setBitIfOne_table : (slot.setBitIfOne index).table = slot.table := by
  simp only [setBitIfOne]
  split_ifs <;> rfl

@[simp] theorem clearBitIfZero_top : (slot.clearBitIfZero index).top = slot.top := by
  simp only [clearBitIfZero]
  split_ifs <;> rfl

@[simp] theorem setBitIfOne_top : (slot.setBitIfOne index).top = slot.top := by
  simp only [setBitIfOne]
  split_ifs <;> rfl

@[simp] theorem raiseTop_table : (slot.raiseTop index).table = slot.table := by
  simp only [raiseTop]
  split_ifs <;> rfl

@[simp] theorem raiseTop_bitmap : (slot.raiseTop index).bitmap = slot.bitmap := by
  simp only [raiseTop]
  split_ifs <;> rfl

@[simp] theorem raiseTop_top : (slot.raiseTop index).top = max slot.top index := by
  simp only [raiseTop]
  split_ifs with h
  · exact (Nat.max_eq_right (Nat.le_of_lt h)).symm
  · exact (Nat.max_eq_left (Nat.le_of_not_lt h)).symm

variable {i : Nat} (hindex : index < NUM_LOAD_INDICES) (hi : i < NUM_LOAD_INDICES)
include hindex hi

theorem clearBitIfZero_bit : (slot.clearBitIfZero index).bitmap (NUM_LOAD_INDICES - 1 - i) =
      if i = index ∧ slot.table index = 0 then false
      else slot.bitmap (NUM_LOAD_INDICES - 1 - i) := by
  have hbit : NUM_LOAD_INDICES - 1 - i = NUM_LOAD_INDICES - index - 1 ↔ i = index := by omega
  simp only [clearBitIfZero]
  split_ifs <;> simp_all

theorem setBitIfOne_bit : (slot.setBitIfOne index).bitmap (NUM_LOAD_INDICES - 1 - i) =
      if i = index ∧ slot.table index = 1 then true
      else slot.bitmap (NUM_LOAD_INDICES - 1 - i) := by
  have hbit : NUM_LOAD_INDICES - 1 - i = NUM_LOAD_INDICES - index - 1 ↔ i = index := by omega
  simp only [setBitIfOne]
  split_ifs <;> simp_all

end Fields
section Moves
variable {slot : Slot} {n n' : Nat → Nat} {key key' : Option Nat}

theorem moves_at (hm : Moves n n' key key') (i : Nat) :
    n' i + (if key = some i then 1 else 0) = n i + (if key' = some i then 1 else 0) := hm i

theorem incr_table_eq {index : Nat} (h : ∀ i, slot.table i = n i)
    (hm : Moves n n' none (some index)) (hfits : ∀ i, n' i < 256) (i : Nat) :
    (slot.incr index).table i = n' i := by
  have hmi := moves_at hm i
  have hlt := hfits i
  by_cases hi : i = index
  · subst hi
    simp only [reduceCtorEq, if_false, if_true] at hmi
    simp only [incr, Function.update_self, h]
    omega
  · simp only [reduceCtorEq, some.injEq, Ne.symm hi, if_false] at hmi
    simp only [incr, Function.update_of_ne hi, h]
    omega

theorem decr_table_eq {index : Nat} (h : ∀ i, slot.table i = n i)
    (hm : Moves n n' (some index) none) (hfits : ∀ i, n' i < 256) (i : Nat) :
    (slot.decr index).table i = n' i := by
  have hmi := moves_at hm i
  have hlt := hfits i
  by_cases hi : i = index
  · subst hi
    simp only [reduceCtorEq, if_false, if_true] at hmi
    simp only [decr, Function.update_self, h]
    omega
  · simp only [reduceCtorEq, some.injEq, Ne.symm hi, if_false] at hmi
    simp only [decr, Function.update_of_ne hi, h]
    omega

variable {old new : Nat}

theorem exists_between (hm : Moves n n' (some old) (some new)) (hne : old ≠ new) :
    ∃ m, Moves n m (some old) none ∧ Moves m n' none (some new) ∧ ∀ i, m i ≤ n' i := by
  have hold := moves_at hm old
  simp only [some.injEq, hne.symm, if_true, if_false] at hold
  refine ⟨fun i => n i - ind (some old) i, fun i => ?_, fun i => ?_, fun i => ?_⟩
  all_goals
    have hmi := hm i
    simp only [ind, some.injEq, reduceCtorEq, if_false] at hmi ⊢
    by_cases hi : old = i
    · subst hi
      simp only [if_true] at hmi ⊢
      omega
    · simp only [hi, if_false] at hmi ⊢
      omega

theorem move_table_eq (h : ∀ i, slot.table i = n i) (hm : Moves n n' (some old) (some new))
    (hne : old ≠ new) (hfits : ∀ i, n' i < 256) (i : Nat) :
    ((slot.decr old).incr new).table i = n' i := by
  obtain ⟨m, hold, hnew, hle⟩ := exists_between hm hne
  exact incr_table_eq (decr_table_eq h hold fun i => (hle i).trans_lt (hfits i)) hnew hfits i

/- Setting the bit of a count that has become 1, after clearing that of one that has become 0,
brings the bitmap in line with the counts. -/
theorem setBit_clearBit {old new i : Nat} (htable : ∀ i, slot.table i = n' i)
    (hbits : ∀ i, i < NUM_LOAD_INDICES → (slot.bitmap (NUM_LOAD_INDICES - 1 - i) = true ↔ n i ≠ 0))
    (hm : Moves n n' key key') (hkey : ∀ j, key = some j → j = old)
    (hkey' : ∀ j, key' = some j → j = new) (hold : old < NUM_LOAD_INDICES)
    (hnew : new < NUM_LOAD_INDICES) (hi : i < NUM_LOAD_INDICES) :
    ((slot.clearBitIfZero old).setBitIfOne new).bitmap (NUM_LOAD_INDICES - 1 - i) = true ↔
      n' i ≠ 0 := by
  rw [setBitIfOne_bit _ _ hnew hi, clearBitIfZero_bit _ _ hold hi, clearBitIfZero_table, htable,
    htable]
  by_cases hset : i = new ∧ n' new = 1
  · rw [if_pos hset, hset.1, hset.2]
    simp
  · rw [if_neg hset]
    by_cases hclear : i = old ∧ n' old = 0
    · rw [if_pos hclear, hclear.1, hclear.2]
      simp
    · rw [if_neg hclear, hbits i hi]
      refine hm.ne_zero_iff (fun hk hone => ?_) (fun hk hzero => ?_)
      · exact hset ⟨hkey' i hk, hkey' i hk ▸ hone⟩
      · exact hclear ⟨hkey i hk, hkey i hk ▸ hzero⟩

theorem setBit_bits {new i : Nat} (htable : ∀ i, slot.table i = n' i)
    (hbits : ∀ i, i < NUM_LOAD_INDICES → (slot.bitmap (NUM_LOAD_INDICES - 1 - i) = true ↔ n i ≠ 0))
    (hm : Moves n n' none key') (hkey' : ∀ j, key' = some j → j = new)
    (hnew : new < NUM_LOAD_INDICES) (hi : i < NUM_LOAD_INDICES) :
    (slot.setBitIfOne new).bitmap (NUM_LOAD_INDICES - 1 - i) = true ↔ n' i ≠ 0 := by
  rw [setBitIfOne_bit _ _ hnew hi, htable]
  by_cases hset : i = new ∧ n' new = 1
  · rw [if_pos hset, hset.1, hset.2]
    simp
  · rw [if_neg hset, hbits i hi]
    exact hm.ne_zero_iff (fun hk hone => hset ⟨hkey' i hk, hkey' i hk ▸ hone⟩) nofun

theorem clearBit_bits {old i : Nat} (htable : ∀ i, slot.table i = n' i)
    (hbits : ∀ i, i < NUM_LOAD_INDICES → (slot.bitmap (NUM_LOAD_INDICES - 1 - i) = true ↔ n i ≠ 0))
    (hm : Moves n n' (some old) none) (hold : old < NUM_LOAD_INDICES)
    (hi : i < NUM_LOAD_INDICES) :
    (slot.clearBitIfZero old).bitmap (NUM_LOAD_INDICES - 1 - i) = true ↔ n' i ≠ 0 := by
  rw [clearBitIfZero_bit _ _ hold hi, htable]
  by_cases hclear : i = old ∧ n' old = 0
  · rw [if_pos hclear, hclear.1, hclear.2]
    simp
  · rw [if_neg hclear, hbits i hi]
    refine hm.ne_zero_iff nofun fun hk hzero => hclear ?_
    obtain rfl := some.inj hk
    exact ⟨rfl, hzero⟩

section
variable (h : slot.Shows n)
include h

theorem Shows.range_of_moves (hm : Moves n n' key key')
    (hkey' : ∀ j, key' = some j → j < NUM_LOAD_INDICES) (i : Nat) (hi : n' i ≠ 0) :
    i < NUM_LOAD_INDICES := by
  by_cases hk : key' = some i
  · exact hkey' i hk
  · have hmi := moves_at hm i
    rw [if_neg hk] at hmi
    exact h.range i (by omega)

theorem Shows.addTask {load : Nat} (hm : Moves n n' none (loadKey load)) (hfits : ∀ i, n' i < 256) :
    (slot.addTask load).Shows n' := by
  by_cases hload : load = 0
  · rw [hload, loadKey_zero] at hm
    rw [hm.eq, Slot.addTask, if_neg (not_not.2 hload)]
    exact h
  · rw [loadKey_of_ne hload] at hm
    have htable := incr_table_eq h.table hm hfits
    rw [Slot.addTask, if_pos hload]
    refine ⟨?_, fun i hi => ?_, ?_, h.range_of_moves hm fun j hj => ?_, hfits⟩
    · simpa using htable
    · rw [raiseTop_bitmap]
      exact setBit_bits htable h.bitmap hm (fun j hj => (some.inj hj).symm) (loadToIndex_lt load) hi
    · simpa using h.top.raise hm nofun
    · exact some.inj hj ▸ loadToIndex_lt load

/-- After a whole window prev_top is stored without a comparison. -/
theorem Shows.addFullWindow {prevWindow : Nat} (hm : Moves n n' none (loadKey prevWindow))
    (hfits : ∀ i, n' i < 256) (htop : prevWindow ≠ 0 → slot.top ≤ loadToIndex prevWindow) :
    (slot.addFullWindow prevWindow).Shows n' := by
  have hkey j (hj : loadKey prevWindow = some j) : j = loadToIndex prevWindow := (eq_of_loadKey hj).2
  have hrange := h.range_of_moves hm fun j hj => hkey j hj ▸ loadToIndex_lt prevWindow
  by_cases hload : prevWindow = 0
  · have hsame := hm
    rw [hload, loadKey_zero] at hsame
    have htable i : slot.table i = n' i := by rw [hsame.eq, h.table]
    simp only [Slot.addFullWindow, hload, ne_eq, not_true, if_false]
    refine ⟨?_, fun i hi => ?_, ?_, hrange, hfits⟩
    · simpa using htable
    · exact setBit_bits htable h.bitmap hsame nofun (loadToIndex_lt 0) hi
    · rw [setBitIfOne_top, hsame.eq]
      exact h.top
  · rw [loadKey_of_ne hload] at hm
    have htable := incr_table_eq h.table hm hfits
    simp only [Slot.addFullWindow, ne_eq, hload, not_false_eq_true, if_true]
    refine ⟨?_, fun i hi => ?_, ?_, hrange, hfits⟩
    · simpa using htable
    · exact setBit_bits htable h.bitmap hm (fun j hj => (some.inj hj).symm) (loadToIndex_lt _) hi
    · have hraise := h.top.raise hm nofun
      rw [Nat.max_eq_right (htop hload)] at hraise
      simpa using hraise

def relocate (slot : Slot) (old new : Nat) : Slot :=
  let slot := if old ≠ 0 then slot.decr (loadToIndex old) else slot
  (((slot.incr (loadToIndex new)).raiseTop (loadToIndex new)).clearBitIfZero
    (loadToIndex old)).setBitIfOne (loadToIndex new)

theorem Shows.relocate (hm : Moves n n' (loadKey old) (loadKey new)) (hfits : ∀ i, n' i < 256)
    (hnew : new ≠ 0) (hlt : old ≠ 0 → loadToIndex old < loadToIndex new) :
    (slot.relocate old new).Shows n' := by
  have hkey j (hj : loadKey old = some j) : j = loadToIndex old := (eq_of_loadKey hj).2
  rw [loadKey_of_ne hnew] at hm
  obtain ⟨moved, hmoved⟩ : ∃ m, m = (if old ≠ 0 then slot.decr (loadToIndex old)
    else slot).incr (loadToIndex new) := ⟨_, rfl⟩
  have htable i : moved.table i = n' i := by
    rw [hmoved]
    by_cases hold : old = 0
    · rw [if_neg (not_not.2 hold)]
      rw [hold, loadKey_zero] at hm
      exact incr_table_eq h.table hm hfits i
    · rw [if_pos hold]
      rw [loadKey_of_ne hold] at hm
      exact move_table_eq h.table hm (hlt hold).ne hfits i
  have hbitmap : moved.bitmap = slot.bitmap := by
    rw [hmoved, incr_bitmap]
    split_ifs <;> rfl
  have htop : moved.top = slot.top := by
    rw [hmoved, incr_top]
    split_ifs <;> rfl
  have hraise := h.top.raise hm fun j hj => by
    obtain ⟨hold, rfl⟩ := eq_of_loadKey hj
    exact hlt hold
  simp only [Slot.relocate, ← hmoved]
  refine ⟨?_, fun i hi => ?_, ?_, h.range_of_moves hm fun j hj => ?_, hfits⟩
  · simpa using htable
  · refine setBit_clearBit (by simpa using htable) ?_ hm hkey
      (fun j hj => (some.inj hj).symm) (loadToIndex_lt old) (loadToIndex_lt new) hi
    simpa [hbitmap] using h.bitmap
  · simpa [htop] using hraise
  · exact some.inj hj ▸ loadToIndex_lt new

end

theorem relocates_or_stays (hle : old ≤ new) :
    ((loadToIndex old ≠ loadToIndex new ∨ (old = 0 ∧ new ≠ 0)) ∧ new ≠ 0 ∧
      (old ≠ 0 → loadToIndex old < loadToIndex new)) ∨
    (¬ (loadToIndex old ≠ loadToIndex new ∨ (old = 0 ∧ new ≠ 0)) ∧ loadKey old = loadKey new) := by
  have hmono := loadToIndex_mono hle
  by_cases hmoves : loadToIndex old ≠ loadToIndex new ∨ (old = 0 ∧ new ≠ 0)
  · refine .inl ⟨hmoves, ?_, ?_⟩
    · rintro rfl
      rcases hmoves with hne | hne
      · exact hne (by rw [Nat.le_zero.1 hle])
      · exact hne.2 rfl
    · intro hold
      exact lt_of_le_of_ne hmono (hmoves.resolve_right fun h => hold h.1)
  · refine .inr ⟨hmoves, ?_⟩
    rw [not_or, not_not, not_and, not_not] at hmoves
    by_cases hold : old = 0
    · rw [hold, hmoves.2 hold]
    · rw [loadKey_of_ne hold, loadKey_of_ne (by omega), hmoves.1]

theorem Shows.moveTask (h : slot.Shows n) {oldWindow currWindow : Nat}
    (hm : Moves n n' (loadKey oldWindow) (loadKey currWindow)) (hfits : ∀ i, n' i < 256)
    (hle : oldWindow ≤ currWindow) : (slot.moveTask oldWindow currWindow).Shows n' := by
  rcases relocates_or_stays hle with ⟨hmoves, hnew, hlt⟩ | ⟨hstays, hkey⟩
  · have heq : slot.moveTask oldWindow currWindow = slot.relocate oldWindow currWindow := by
      simp only [Slot.moveTask, if_pos hmoves, if_pos hnew, Slot.relocate]
    rw [heq]
    exact h.relocate hm hfits hnew hlt
  · rw [hkey] at hm
    rw [hm.eq]
    simp only [Slot.moveTask, if_neg hstays]
    refine ⟨?_, fun i hi => ?_, ?_, h.range, h.fits⟩
    · simpa using h.table
    · exact setBit_clearBit h.table h.bitmap (moves_refl n none) nofun nofun
        (loadToIndex_lt oldWindow) (loadToIndex_lt currWindow) hi
    · simpa using h.top

theorem Shows.closeWindow (h : slot.Shows n) {oldWindow prevWindow : Nat}
    (hm : Moves n n' (loadKey oldWindow) (loadKey prevWindow)) (hfits : ∀ i, n' i < 256)
    (hle : oldWindow ≤ prevWindow) : (slot.closeWindow oldWindow prevWindow).Shows n' := by
  rcases relocates_or_stays hle with ⟨hmoves, hnew, hlt⟩ | ⟨hstays, hkey⟩
  · have heq : slot.closeWindow oldWindow prevWindow = slot.relocate oldWindow prevWindow := by
      simp only [Slot.closeWindow, if_pos hmoves, Slot.relocate]
    rw [heq]
    exact h.relocate hm hfits hnew hlt
  · rw [hkey] at hm
    rw [hm.eq, Slot.closeWindow]
    simp only [if_neg hstays]
    exact h

theorem closeWindow_self (slot : Slot) (window : Nat) : slot.closeWindow window window = slot := by
  simp [Slot.closeWindow]

end Moves

section Remove
variable {slot : Slot} {n n' : Nat → Nat}

/- No occupied index is above the mirror image of the top: get_top_index starts its search of the
reversed bitmap at the bit numbered like the old top, so it sees no other index. -/
def Findable (slot : Slot) (load : Nat) : Prop :=
  load ≠ 0 → loadToIndex load = slot.top → slot.table slot.top = 1 →
    ∀ i, i < NUM_LOAD_INDICES → i ≠ slot.top → slot.table i ≠ 0 →
      i ≤ NUM_LOAD_INDICES - 1 - slot.top

instance (slot : Slot) (load : Nat) : Decidable (Findable slot load) := by
  unfold Findable
  infer_instance

theorem findNextBit_spec (bitmap : Nat → Bool) {size offset : Nat} (hoffset : offset < size) :
    (findNextBit bitmap size offset = size ∧ ∀ bit, offset ≤ bit → bit < size → bitmap bit = false) ∨
    (offset ≤ findNextBit bitmap size offset ∧ findNextBit bitmap size offset < size ∧
      bitmap (findNextBit bitmap size offset) = true ∧
      ∀ bit, offset ≤ bit → bit < findNextBit bitmap size offset → bitmap bit = false) := by
  cases hsearch : (List.range' offset (size - offset)).find? bitmap with
  | none =>
    refine .inl ⟨by rw [findNextBit, hsearch, getD_none], fun bit hle hlt => ?_⟩
    have hmem : bit ∈ List.range' offset (size - offset) := List.mem_range'_1.2 (by omega)
    simpa using List.find?_eq_none.1 hsearch bit hmem
  | some found =>
    have hfound : findNextBit bitmap size offset = found := by
      rw [findNextBit, hsearch, getD_some]
    obtain ⟨hset, hmem, hfirst⟩ := List.find?_range'_eq_some.1 hsearch
    have hmem := List.mem_range'_1.1 hmem
    rw [hfound]
    exact .inr ⟨hmem.1, by omega, hset, fun bit hle hlt => by simpa using hfirst bit hle hlt⟩

theorem isTop_getTopIndex {bitmap : Nat → Bool} {oldTop : Nat}
    (hbits : ∀ i, i < NUM_LOAD_INDICES → (bitmap (NUM_LOAD_INDICES - 1 - i) = true ↔ n i ≠ 0))
    (hrange : ∀ i, n i ≠ 0 → i < NUM_LOAD_INDICES)
    (hfind : ∀ i, n i ≠ 0 → i ≤ NUM_LOAD_INDICES - 1 - oldTop)
    (holdTop : oldTop < NUM_LOAD_INDICES) : IsTop n (getTopIndex bitmap oldTop) := by
  have hbit {i} (hi : n i ≠ 0) (hclear : bitmap (NUM_LOAD_INDICES - 1 - i) = false) : False := by
    rw [(hbits i (hrange i hi)).2 hi] at hclear
    exact Bool.noConfusion hclear
  obtain ⟨index, hindex⟩ : ∃ k, k = findNextBit bitmap NUM_LOAD_INDICES oldTop := ⟨_, rfl⟩
  have hspec := findNextBit_spec bitmap holdTop
  simp only [getTopIndex]
  rw [← hindex] at hspec ⊢
  rcases hspec with ⟨hend, hclear⟩ | ⟨hle, hlt, hset, hclear⟩
  · rw [if_pos hend]
    refine ⟨fun i hi => (hbit hi (hclear _ ?_ ?_)).elim, fun h => absurd rfl h⟩
    · have := hfind i hi
      omega
    · omega
  · rw [if_neg hlt.ne]
    refine ⟨fun i hi => ?_, fun _ => (hbits _ (by omega)).1 ?_⟩
    · by_contra habove
      have := hfind i hi
      exact hbit hi (hclear _ (by omega) (by omega))
    · rwa [show NUM_LOAD_INDICES - 1 - (NUM_LOAD_INDICES - 1 - index) = index by omega]

theorem Shows.removeTask (h : slot.Shows n) {load : Nat} (hm : Moves n n' (loadKey load) none)
    (hfind : Findable slot load) : (slot.removeTask load).Shows n' := by
  by_cases hload : load = 0
  · rw [hload, loadKey_zero] at hm
    rw [hm.eq, Slot.removeTask, if_neg (not_not.2 hload)]
    exact h
  · rw [loadKey_of_ne hload] at hm
    have hle i : n' i ≤ n i := by
      have := moves_at hm i
      simp only [reduceCtorEq, if_false] at this
      omega
    have hfits i : n' i < 256 := (hle i).trans_lt (h.fits i)
    have hrange := h.range_of_moves hm nofun
    obtain ⟨left, hleft⟩ : ∃ m, m = (slot.decr (loadToIndex load)).clearBitIfZero
      (loadToIndex load) := ⟨_, rfl⟩
    have htable i : left.table i = n' i := by
      rw [hleft, clearBitIfZero_table]
      exact decr_table_eq h.table hm hfits i
    have hdecr := decr_table_eq h.table hm hfits
    have hbits i (hi : i < NUM_LOAD_INDICES) :=
      clearBit_bits hdecr h.bitmap hm (loadToIndex_lt load) hi
    rw [← hleft] at hbits
    have htop : left.top = slot.top := by rw [hleft, clearBitIfZero_top, decr_top]
    simp only [Slot.removeTask, if_pos hload, ← hleft]
    split_ifs with hlast
    · -- The last task at the top index leaves.
      rw [htop, htable] at hlast
      refine ⟨htable, hbits, ?_, hrange, hfits⟩
      have hone : n (loadToIndex load) = 1 := by
        have := moves_at hm (loadToIndex load)
        simp only [reduceCtorEq, if_true, if_false] at this
        omega
      rw [htop]
      refine isTop_getTopIndex hbits hrange (fun i hi => ?_) (hlast.1 ▸ loadToIndex_lt load)
      refine hfind hload hlast.1 ?_ i (hrange i hi) ?_ ?_
      · rw [h.table, ← hlast.1, hone]
      · rintro rfl
        exact hi (hlast.1 ▸ hlast.2)
      · have := hle i
        rw [h.table]
        omega
    · refine ⟨htable, hbits, ?_, hrange, hfits⟩
      rw [htop]
      refine h.top.lower hm fun htopeq hzero => hlast ⟨htopeq.trans htop.symm, ?_⟩
      rw [htable, hzero]

end Remove
end Slot
end MsmKernel.Walt
