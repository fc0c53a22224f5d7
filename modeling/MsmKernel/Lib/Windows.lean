import Mathlib.Tactic.Ring

/-! A clock that is cut into windows: where a reading taken in one window stands relative to
another window of the same grid, and what an account of two windows holds in the windows of an
observer. -/
namespace MsmKernel.Windows
variable {size start prev home reading : Nat}

/-- A reading taken in the window that begins at `home`, seen from the window that begins at
`start` after one of size `prev`. A past reading is from the window just before, or at least a
window size old. -/
structure Seen (size start prev home reading : Nat) : Prop where
  past : home < start → reading < start ∧ (home + prev = start ∨ reading + prev ≤ start)
  ahead : start ≤ home → (∃ j, home = start + j * size) ∧ reading < home + size

variable {k j home' prev' : Nat} {full : Bool}

theorem Seen.advance (h : Seen size start prev home reading) (hk : k ≠ 0) (hsize : 0 < size) :
    Seen size (start + k * size) size home reading := by
  have hone : size ≤ k * size := Nat.le_mul_of_pos_left size (Nat.pos_of_ne_zero hk)
  refine ⟨fun hpast => ?_, fun hahead => ?_⟩
  · by_cases hold : home < start
    · have := (h.past hold).1
      omega
    · obtain ⟨⟨j, hj⟩, hlt⟩ := h.ahead (by omega)
      have hjk : j < k := by
        by_contra hge
        have := Nat.mul_le_mul_right size (Nat.le_of_not_lt hge)
        omega
      have hstep : (j + 1) * size = j * size + size := by ring
      by_cases hlast : j + 1 = k
      · have : k * size = j * size + size := by rw [← hlast, hstep]
        omega
      · have hle : (j + 2) * size ≤ k * size := Nat.mul_le_mul_right size (by omega)
        have hstep2 : (j + 2) * size = j * size + size + size := by ring
        omega
  · obtain ⟨⟨j, hj⟩, hlt⟩ := h.ahead (by omega)
    have hkj : k ≤ j := by
      by_contra hlt'
      have hle : (j + 1) * size ≤ k * size := Nat.mul_le_mul_right size (by omega)
      have hstep : (j + 1) * size = j * size + size := by ring
      omega
    refine ⟨⟨j - k, ?_⟩, hlt⟩
    have hsplit : j * size = k * size + (j - k) * size := by
      rw [← Nat.add_mul, Nat.add_sub_cancel' hkj]
    omega

/-- A reading is ahead of, or in, every window that starts no later on the grid. -/
theorem seen_of_le (hhome : home = start + j * size) (hlt : reading < home + size) :
    Seen size start prev home reading :=
  ⟨fun h => by omega, fun _ => ⟨⟨j, hhome⟩, hlt⟩⟩

/-- A reading is past for every window that starts later on the grid. -/
theorem seen_of_lt (hj : j ≠ 0) (hstart : start = home + j * size) (hlt : reading < home + size)
    (hsize : 0 < size) : Seen size start size home reading := by
  have hone : size ≤ j * size := Nat.le_mul_of_pos_left size (Nat.pos_of_ne_zero hj)
  refine ⟨fun _ => ⟨by omega, ?_⟩, fun h => by omega⟩
  by_cases hj1 : j = 1
  · left
    rw [hstart, hj1]
    omega
  · right
    have hle : 2 * size ≤ j * size := Nat.mul_le_mul_right size (by omega)
    omega

/-- A window that begins no earlier than `start` and whose reading is not beyond the window of
`start` begins there. -/
theorem Seen.eq_start (h : Seen size start prev home reading) (hle : start ≤ home)
    (hhome : home ≤ reading) {now : Nat} (hnow : reading ≤ now) (hlt : now < start + size) :
    home = start := by
  obtain ⟨⟨j, hj⟩, -⟩ := h.ahead hle
  rcases Nat.eq_zero_or_pos j with rfl | hpos
  · omega
  · have hone : size ≤ j * size := Nat.le_mul_of_pos_left size hpos
    omega

inductive Tracked where
  | curr | prev
  deriving DecidableEq

/-- What an account of the window that begins at `home` and the one before it holds in the two
windows of an observer, whose current one begins at `start`. -/
def portion (size start prev home : Nat) (held : Tracked → Nat) : Tracked → Nat
  | .curr => if home = start then held .curr else if home = start + size then held .prev else 0
  | .prev => if home = start then held .prev else if home + prev = start then held .curr else 0

/-- An account holds nothing in a window that the observer has not reached. -/
structure NotAhead (size start home : Nat) (held : Tracked → Nat) : Prop where
  curr : start < home → held .curr = 0
  prev : start + size < home → held .prev = 0

variable {held' : Tracked → Nat}

section Share
variable {held : Tracked → Nat}

theorem portion_curr : portion size start prev home held .curr =
    if home = start then held .curr else if home = start + size then held .prev else 0 := rfl

theorem portion_prev : portion size start prev home held .prev =
    if home = start then held .prev else if home + prev = start then held .curr else 0 := rfl

theorem portion_of_eq (h : home = start) (w : Tracked) : portion size start prev home held w = held w := by
  cases w <;> simp [portion, h]

theorem portion_zero (w : Tracked) : portion size start prev home (fun _ => 0) w = 0 := by
  cases w <;> simp [portion]

theorem portion_size {size' : Nat} (hsize : 0 < size) (hsize' : 0 < size') (hle : home ≤ start)
    (w : Tracked) : portion size' start prev home held w = portion size start prev home held w := by
  cases w with
  | curr =>
    rw [portion_curr, portion_curr, if_neg (c := home = start + size') (by omega),
      if_neg (c := home = start + size) (by omega)]
  | prev => rfl

theorem portion_mono (h : ∀ w, held w ≤ held' w) (w : Tracked) :
    portion size start prev home held w ≤ portion size start prev home held' w := by
  have hcurr := h .curr
  have hprev := h .prev
  cases w <;> simp only [portion] <;> split_ifs <;> omega

theorem NotAhead.mono (h : NotAhead size start home held') (hle : ∀ w, held w ≤ held' w) :
    NotAhead size start home held :=
  ⟨fun hlt => Nat.le_zero.1 ((hle .curr).trans (h.curr hlt).le),
    fun hlt => Nat.le_zero.1 ((hle .prev).trans (h.prev hlt).le)⟩

theorem notAhead_of_le (h : home ≤ start) : NotAhead size start home held :=
  ⟨fun hlt => by omega, fun hlt => by omega⟩

theorem notAhead_zero : NotAhead size start home fun _ => 0 := ⟨fun _ => rfl, fun _ => rfl⟩

section
variable (h : NotAhead size start home held)
include h

theorem NotAhead.advance (k : Nat) : NotAhead size (start + k * size) home held :=
  ⟨fun hlt => h.curr (by omega), fun hlt => h.prev (by omega)⟩

/-- When the observer moves on, what it saw in its current window is what it sees in the previous
one, unless a whole window has passed. -/
theorem portion_advance (hsize : 0 < size) (hk : k ≠ 0) :
    portion size (start + k * size) size home held .curr = 0 ∧
      portion size (start + k * size) size home held .prev =
        if k > 1 then 0 else portion size start prev home held .curr := by
  have hone : size ≤ k * size := Nat.le_mul_of_pos_left size (Nat.pos_of_ne_zero hk)
  refine ⟨?_, ?_⟩
  · simp only [portion]
    split_ifs with hhome hnext
    · exact h.curr (by omega)
    · exact h.prev (by omega)
    · rfl
  · by_cases hfull : k > 1
    · have htwo : 2 * size ≤ k * size := Nat.mul_le_mul_right size hfull
      simp only [portion, if_pos hfull]
      split_ifs with hhome hback
      · exact h.prev (by omega)
      · exact h.curr (by omega)
      · rfl
    · have hk1 : k = 1 := by omega
      subst hk1
      simp only [portion, Nat.one_mul, Nat.add_right_cancel_iff, gt_iff_lt, Nat.lt_irrefl, if_false]
      by_cases hhome : home = start
      · have hne : home ≠ start + size := by omega
        rw [if_neg hne, if_pos hhome, if_pos hhome]
      · rw [if_neg hhome, if_neg hhome]

def rolled (full : Bool) (held : Tracked → Nat) : Tracked → Nat
  | .curr => 0
  | .prev => if full then 0 else held .curr

/- Two windows of one grid: equal starts have the same window before them, and a later start comes
whole windows after the earlier one. -/
structure SameGrid (size start prev start' prev' : Nat) : Prop where
  same : start = start' → prev = prev'
  later : start < start' → prev' = size ∧ ∃ j, start' = start + j * size
  earlier : start' < start → prev = size ∧ ∃ j, start = start' + j * size

theorem notAhead_rolled (hgrid : SameGrid size start prev home' prev')
    (hback : full = false → home + prev' = home') :
    NotAhead size start home' (rolled full held) := by
  refine ⟨fun _ => rfl, fun hlt => ?_⟩
  cases full with
  | true => rfl
  | false =>
    have hprev := (hgrid.later (by omega)).1
    have hhome := hback rfl
    exact h.curr (by omega)

end

/-- An account that goes on to the window beginning at `home'` holds no more than before in the
windows of any observer. -/
theorem portion_rolled_le (hgrid : SameGrid size start prev home' prev') (hlt : home < home')
    (hback : full = false → home + prev' = home') (w : Tracked) :
    portion size start prev home' (rolled full held) w ≤ portion size start prev home held w := by
  cases full with
  | true => cases w <;> simp [portion, rolled]
  | false =>
    have hhome := hback rfl
    cases w with
    | curr =>
      rw [portion_curr, portion_curr]
      by_cases hnext : home' ≠ start ∧ home' = start + size
      · have hprev := (hgrid.later (by omega)).1
        rw [if_neg hnext.1, if_pos hnext.2, if_pos (by omega : home = start)]
        exact Nat.le_refl _
      · have hzero : (if home' = start then rolled false held .curr
            else if home' = start + size then rolled false held .prev else 0) = 0 := by
          split_ifs with hsame hnext'
          · rfl
          · exact absurd ⟨hsame, hnext'⟩ hnext
          · rfl
        rw [hzero]
        exact Nat.zero_le _
    | prev =>
      rw [portion_prev, portion_prev]
      by_cases hsame : home' = start
      · have hprev := hgrid.same hsame.symm
        rw [if_pos hsame, if_neg (by omega : home ≠ start), if_pos (by omega : home + prev = start)]
        exact Nat.le_refl _
      · rw [if_neg hsame]
        split_ifs <;> exact Nat.zero_le _

def trackedStart (start prev : Nat) : Tracked → Nat
  | .curr => start
  | .prev => start - prev

/-- What an account in the window of one observer hands over to another, entered under the starts
of its own two windows, is no more than it held there. -/
theorem entered_le_portion {home : Nat} (hgrid : SameGrid size start prev home prev')
    (hstart : 0 < start) (hhome : 0 < home) (hprev : 0 < prev) (hprev' : 0 < prev') (w : Tracked) :
    (if home = trackedStart start prev w then held .curr else 0) +
      (if home - prev' = trackedStart start prev w then held .prev else 0) ≤
        portion size start prev home held w := by
  have hcurr : trackedStart start prev .curr = start := rfl
  have hback : trackedStart start prev .prev = start - prev := rfl
  have hwhole {j : Nat} (hne : j * size ≠ 0) : size ≤ j * size :=
    Nat.le_mul_of_pos_left size (Nat.pos_of_ne_zero (left_ne_zero_of_mul hne))
  rcases Nat.lt_trichotomy start home with hlt | hsame | hgt
  · obtain ⟨hsize, j, hj⟩ := hgrid.later hlt
    have hone : size ≤ j * size := hwhole (by omega)
    cases w with
    | curr =>
      rw [hcurr, portion_curr, if_neg hlt.ne', if_neg hlt.ne']
      split_ifs <;> omega
    | prev =>
      rw [hback, if_neg (by omega), if_neg (by omega)]
      exact Nat.zero_le _
  · have hsize := hgrid.same hsame
    rw [portion_of_eq hsame.symm]
    cases w with
    | curr =>
      rw [hcurr, if_pos hsame.symm, if_neg (by omega)]
      exact Nat.le_refl _
    | prev =>
      split_ifs <;> omega
  · obtain ⟨hsize, j, hj⟩ := hgrid.earlier hgt
    have hone : size ≤ j * size := hwhole (by omega)
    cases w with
    | curr =>
      rw [hcurr, if_neg (by omega), if_neg (by omega)]
      exact Nat.zero_le _
    | prev =>
      rw [hback, portion_prev, if_neg hgt.ne, if_neg (by omega : home - prev' ≠ start - prev)]
      split_ifs <;> omega

end Share
end MsmKernel.Windows
