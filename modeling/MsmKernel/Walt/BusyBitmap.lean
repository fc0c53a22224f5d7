import MsmKernel.Walt.Frame

/-! The busy bitmap of a pipeline task has one bit for each of its last sixteen milliseconds. An
update may be split at any instant off the millisecond grid without changing the bitmap. -/
namespace MsmKernel.Walt
variable {Cpu : Type}

def NSEC_PER_MSEC : Nat := 1000000
def SCHED_RAVG_8MS_WINDOW : Nat := 8000000
def SCHED_RAVG_12MS_WINDOW : Nat := 12000000
def SCHED_RAVG_16MS_WINDOW : Nat := 16000000

structure PipelineTask where
  pipelineCpu : Int
  busyBitmap : BitVec 16
  periodContribRun : Nat
  lrbPipeline : Bool
deriving DecidableEq

/- `none` is a shift by a negative count, which C leaves undefined. -/
def setBits (nrBits : Int) (setBit : Bool) (bitmap : BitVec 16) : Option (BitVec 16) :=
  let nrBits := if nrBits > 16 then 16 else nrBits
  if nrBits < 0 then none
  else
    let mask := if setBit then 1#16 <<< nrBits.toNat - 1#16 else 0#16
    some (bitmap <<< nrBits.toNat ||| mask)

def nextMsBoundary (markStart : Nat) : Nat :=
  u64 (markStart + (NSEC_PER_MSEC - 1)) / NSEC_PER_MSEC * NSEC_PER_MSEC

/- More than 500us within a millisecond set its bit. -/
def busyMs (contrib : Nat) : Bool := decide (contrib > 500000)

def fillPeriods (periods : Int) (running : Bool) (bitmap : BitVec 16) : Option (BitVec 16) :=
  if periods ≠ 0 then setBits periods running bitmap else some bitmap

/- The update beyond a millisecond boundary: the millisecond of mark_start is closed, the whole
ones up to the wallclock are filled in, and the last one is begun. -/
def exceedMsBoundary (markStart wallclock : Nat) (running : Bool) (p : PipelineTask) :
    Option PipelineTask :=
  let boundary := nextMsBoundary markStart
  let contrib :=
    if running then u32 (p.periodContribRun + elapsed boundary markStart) else p.periodContribRun
  (setBits 1 (busyMs contrib) p.busyBitmap).bind fun closed =>
    (fillPeriods (int32 ((wallclock - boundary) / NSEC_PER_MSEC)) running closed).map fun filled =>
      { p with
        busyBitmap := filled
        periodContribRun := if running then wallclock % NSEC_PER_MSEC else 0 }

def hweight16 (bitmap : BitVec 16) : Nat := (List.range 16).countP bitmap.getLsbD

/- The reasons 2, 3 and 4 for not boosting: too few busy milliseconds in the window. -/
def tooFewBusyMs (activeMs : Fin 3 → Nat) (window : Nat) (bitmap : BitVec 16) : Bool :=
  (window ≤ SCHED_RAVG_8MS_WINDOW &&
    (hweight16 (bitmap &&& 0x00FF#16) < activeMs 0 || activeMs 0 = 0)) ||
  (window = SCHED_RAVG_12MS_WINDOW &&
    (hweight16 (bitmap &&& 0x0FFF#16) < activeMs 1 || activeMs 1 = 0)) ||
  (window ≥ SCHED_RAVG_16MS_WINDOW && (hweight16 bitmap < activeMs 2 || activeMs 2 = 0))

def boostPipeline (c : Call) (activeMs : Fin 3 → Nat) (startTime : Nat) (p : PipelineTask) :
    Nat × PipelineTask :=
  if !(c.queued || c.runnable) || tooFewBusyMs activeMs c.schedRavgWindow p.busyBitmap ||
    startTime ≠ 0 then (startTime, p)
  else (c.wallclock, { p with lrbPipeline := true })

/- The first component is lrb_pipeline_start_time of the task's runqueue. `none` is a WALT_PANIC or
the undefined shift. -/
def updateBusyBitmap (c : Call) (activeMs : Fin 3 → Nat) (t : Wts Cpu)
    (x : Nat × PipelineTask) : Option (Nat × PipelineTask) :=
  let lrbThresholdNs := if c.schedRavgWindow ≤ SCHED_RAVG_8MS_WINDOW then 4000000 else 8000000
  let startTime := if c.wallclock > u64 (x.1 + lrbThresholdNs) then 0 else x.1
  if !c.pipelineInProgress || x.2.pipelineCpu = -1 then some (startTime, x.2)
  else if c.wallclock < t.markStart then none
  else
    let running := accountBusyForCpuTime { c with irqtime := 0 } t.idle
    let p := if c.queued || c.runnable then x.2 else { x.2 with lrbPipeline := false }
    if c.wallclock < nextMsBoundary t.markStart then
      some (startTime,
        if running then
          { p with periodContribRun := u32 (p.periodContribRun + (c.wallclock - t.markStart)) }
        else p)
    else (exceedMsBoundary t.markStart c.wallclock running p).map (boostPipeline c activeMs startTime)

section Bits
variable {p : PipelineTask} {running : Bool} {a b c : Nat}

theorem getLsbD_mask {n i : Nat} (hn : n < 17) (hi : i < 16) :
    (1#16 <<< n - 1#16).getLsbD i = decide (i < n) := by
  have hall : ∀ (n : Fin 17) (i : Fin 16), (1#16 <<< n.val - 1#16).getLsbD i.val =
      decide (i.val < n.val) := by decide
  exact hall ⟨n, hn⟩ ⟨i, hi⟩

theorem setBits_natCast (n : Nat) (setBit : Bool) (bitmap : BitVec 16) :
    ∃ new, setBits n setBit bitmap = some new ∧
      ∀ i < 16, new.getLsbD i = if i < n then setBit else bitmap.getLsbD (i - n) := by
  have hcap : (if (n : Int) > 16 then 16 else (n : Int)) = ((min n 16 : Nat) : Int) := by
    split <;> omega
  have hpos : ¬ ((min n 16 : Nat) : Int) < 0 := by omega
  have hset : setBits n setBit bitmap = some (bitmap <<< min n 16 |||
      if setBit then 1#16 <<< min n 16 - 1#16 else 0#16) := by
    simp only [setBits, hcap, hpos, if_false, Int.toNat_natCast]
  refine ⟨_, hset, fun i hi => ?_⟩
  have hmask : (if setBit then 1#16 <<< min n 16 - 1#16 else 0#16).getLsbD i =
      (setBit && decide (i < min n 16)) := by
    cases setBit with
    | false => simp
    | true => simpa using getLsbD_mask (n := min n 16) (by omega) hi
  rw [BitVec.getLsbD_or, BitVec.getLsbD_shiftLeft, hmask]
  by_cases hin : i < n
  · have hlt : i < min n 16 := by omega
    simp [hin, hlt]
  · have hmin : min n 16 = n := by omega
    simp [hin, hmin, hi]

theorem fillPeriods_int32 {n : Nat} (hn : n < 2 ^ 31) (running : Bool) (bitmap : BitVec 16) :
    ∃ new, fillPeriods (int32 n) running bitmap = some new ∧
      ∀ i < 16, new.getLsbD i = if i < n then running else bitmap.getLsbD (i - n) := by
  rw [int32_eq hn]
  by_cases hzero : n = 0
  · exact ⟨bitmap, by simp [fillPeriods, hzero], by simp [hzero]⟩
  · have hne : (n : Int) ≠ 0 := by omega
    simpa only [fillPeriods, hne, ne_eq, not_false_eq_true, if_true]
      using setBits_natCast n running bitmap

theorem nextMsBoundary_eq (ha : a + 999999 < 2 ^ 64) :
    nextMsBoundary a = (a + 999999) / 1000000 * 1000000 := by
  simp only [nextMsBoundary, u64, NSEC_PER_MSEC]
  rw [Nat.mod_eq_of_lt ha]

theorem nextMsBoundary_bounds (ha : a + 999999 < 2 ^ 64) :
    a ≤ nextMsBoundary a ∧ nextMsBoundary a < 2 ^ 64 := by
  rw [nextMsBoundary_eq ha]
  omega

def closingBit (a : Nat) (running : Bool) (p : PipelineTask) : Bool :=
  busyMs (if running then u32 (p.periodContribRun + (nextMsBoundary a - a)) else p.periodContribRun)

def Extends (old new : BitVec 16) (closing running : Bool) (n : Nat) : Prop :=
  ∀ i < 16, new.getLsbD i =
    if i < n then running else if i = n then closing else old.getLsbD (i - n - 1)

theorem Extends.trans {old mid new : BitVec 16} {closing : Bool} {m n : Nat}
    (hfirst : Extends old mid closing running m) (hsecond : Extends mid new running running n) :
    Extends old new closing running (m + 1 + n) := by
  intro i hi
  rw [hsecond i hi]
  rcases Nat.lt_trichotomy i n with hlo | rfl | hhi
  · rw [if_pos hlo, if_pos (by omega)]
  · rw [if_neg (by omega), if_pos rfl, if_pos (by omega)]
  · rw [if_neg (by omega), if_neg (by omega), hfirst _ (by omega)]
    have hidx : i - n - 1 - m - 1 = i - (m + 1 + n) - 1 := by omega
    have hlt : i - n - 1 < m ↔ i < m + 1 + n := by omega
    have heq : i - n - 1 = m ↔ i = m + 1 + n := by omega
    simp only [hlt, heq, hidx]

theorem exceedMsBoundary_eq : exceedMsBoundary a c running p =
    (setBits 1 (busyMs (if running then u32 (p.periodContribRun + elapsed (nextMsBoundary a) a)
      else p.periodContribRun)) p.busyBitmap).bind fun closed =>
        (fillPeriods (int32 ((c - nextMsBoundary a) / NSEC_PER_MSEC)) running closed).map fun filled =>
          { p with
            busyBitmap := filled
            periodContribRun := if running then c % NSEC_PER_MSEC else 0 } := rfl

theorem exceedMsBoundary_spec (running : Bool) (ha : a + 999999 < 2 ^ 64)
    (hn : (c - nextMsBoundary a) / 1000000 < 2 ^ 31) :
    ∃ new, exceedMsBoundary a c running p = some { p with
        busyBitmap := new
        periodContribRun := if running then c % 1000000 else 0 } ∧
      Extends p.busyBitmap new (closingBit a running p) running ((c - nextMsBoundary a) / 1000000) := by
  obtain ⟨hle, hlt⟩ := nextMsBoundary_bounds ha
  obtain ⟨closed, hclosed, hclosedBits⟩ := setBits_natCast 1 (closingBit a running p) p.busyBitmap
  obtain ⟨new, hnew, hbits⟩ := fillPeriods_int32 hn running closed
  refine ⟨new, ?_, fun i hi => ?_⟩
  · have hclose : setBits 1 (busyMs (if running then
        u32 (p.periodContribRun + elapsed (nextMsBoundary a) a) else p.periodContribRun))
        p.busyBitmap = some closed := by
      rw [elapsed_eq hle hlt]
      exact hclosed
    have hfill : fillPeriods (int32 ((c - nextMsBoundary a) / NSEC_PER_MSEC)) running closed =
        some new := hnew
    rw [exceedMsBoundary_eq, hclose, Option.bind_some, hfill, Option.map_some, NSEC_PER_MSEC]
  · rw [hbits i hi]
    by_cases hin : i < (c - nextMsBoundary a) / 1000000
    · simp [hin]
    · rw [if_neg hin, if_neg hin, hclosedBits _ (by omega)]
      by_cases heq : i = (c - nextMsBoundary a) / 1000000
      · simp [heq]
      · have hge : ¬ i - (c - nextMsBoundary a) / 1000000 < 1 := by omega
        rw [if_neg hge, if_neg heq]

/-- What an update from `a` to `c` makes of the bitmap and of the running time in the millisecond
that has begun. -/
def BitmapUpdated (a c : Nat) (running : Bool) (p q : PipelineTask) : Prop :=
  if c < nextMsBoundary a then
    q.busyBitmap = p.busyBitmap ∧
      q.periodContribRun = if running then u32 (p.periodContribRun + (c - a)) else p.periodContribRun
  else
    Extends p.busyBitmap q.busyBitmap (closingBit a running p) running
        ((c - nextMsBoundary a) / 1000000) ∧
      q.periodContribRun = if running then c % 1000000 else 0

theorem boostPipeline_task (call : Call) (activeMs : Fin 3 → Nat) (startTime : Nat)
    (p : PipelineTask) : ∃ boosted, (boostPipeline call activeMs startTime p).2 =
      { p with lrbPipeline := boosted } := by
  unfold boostPipeline
  split
  · exact ⟨p.lrbPipeline, rfl⟩
  · exact ⟨true, rfl⟩

theorem updateBusyBitmap_spec {call : Call} {t : Wts Cpu} {x : Nat × PipelineTask}
    (activeMs : Fin 3 → Nat) (hpipe : call.pipelineInProgress = true) (hcpu : x.2.pipelineCpu ≠ -1)
    (hle : t.markStart ≤ call.wallclock) (hmark : t.markStart + 999999 < 2 ^ 64)
    (hgap : (call.wallclock - nextMsBoundary t.markStart) / 1000000 < 2 ^ 31) :
    ∃ y, updateBusyBitmap call activeMs t x = some y ∧ y.2.pipelineCpu = x.2.pipelineCpu ∧
      BitmapUpdated t.markStart call.wallclock (accountBusyForCpuTime { call with irqtime := 0 } t.idle)
        x.2 y.2 := by
  generalize hrun : accountBusyForCpuTime { call with irqtime := 0 } t.idle = running
  obtain ⟨flag, hflag⟩ : ∃ flag, (if (call.queued || call.runnable) = true then x.2 else
      { x.2 with lrbPipeline := false }) = { x.2 with lrbPipeline := flag } := by
    split
    · exact ⟨x.2.lrbPipeline, rfl⟩
    · exact ⟨false, rfl⟩
  simp only [updateBusyBitmap, hpipe, hcpu, Bool.not_true, decide_false, Bool.or_false,
    Bool.false_eq_true, if_false, Nat.not_lt.mpr hle, hflag, hrun, BitmapUpdated]
  by_cases hin : call.wallclock < nextMsBoundary t.markStart
  · simp only [hin, if_true]
    cases running <;> simp
  · simp only [hin, if_false]
    obtain ⟨new, hnew, hext⟩ := exceedMsBoundary_spec (p := { x.2 with lrbPipeline := flag })
      running hmark hgap
    rw [hnew, Option.map_some]
    refine ⟨_, rfl, ?_⟩
    obtain ⟨boosted, hboost⟩ := boostPipeline_task call activeMs _ { x.2 with
      lrbPipeline := flag
      busyBitmap := new
      periodContribRun := if running then call.wallclock % 1000000 else 0 }
    rw [hboost]
    exact ⟨rfl, hext, rfl⟩

variable {q r s : PipelineTask}

theorem u32_add_add (n i j : Nat) : u32 (u32 (n + i) + j) = u32 (n + (i + j)) := by
  simp only [u32, Nat.mod_add_mod, Nat.add_assoc]

theorem u32_eq_self {n : Nat} (h : n < 2 ^ 32) : u32 n = n := Nat.mod_eq_of_lt h

/-- Between two boundaries the update may be split anywhere. -/
theorem BitmapUpdated.trans_within (hab : a ≤ b) (hbc : b ≤ c) (hc : c + 999999 < 2 ^ 64)
    (hin : b < nextMsBoundary a) (hfirst : BitmapUpdated a b running p q)
    (hsecond : BitmapUpdated b c running q r) : BitmapUpdated a c running p r := by
  have hbound : nextMsBoundary b = nextMsBoundary a := by
    rw [nextMsBoundary_eq (by omega)] at hin ⊢
    rw [nextMsBoundary_eq (by omega)]
    omega
  simp only [BitmapUpdated, hin, if_true] at hfirst
  obtain ⟨hmap, hcontrib⟩ := hfirst
  have hclosing : closingBit b running q = closingBit a running p := by
    have hsum : b - a + (nextMsBoundary a - b) = nextMsBoundary a - a := by omega
    cases running with
    | false => simp [closingBit, hcontrib]
    | true => simp [closingBit, hcontrib, hbound, u32_add_add, hsum]
  simp only [BitmapUpdated, hbound, hclosing, hmap] at hsecond ⊢
  by_cases hlt : c < nextMsBoundary a
  · have hsum : b - a + (c - b) = c - a := by omega
    simp only [hlt, if_true] at hsecond ⊢
    refine ⟨hsecond.1, hsecond.2.trans ?_⟩
    cases running with
    | false => simpa using hcontrib
    | true => simp [hcontrib, u32_add_add, hsum]
  · simpa only [hlt, if_false] using hsecond

/-- Beyond a boundary the update may be split off the millisecond grid. -/
theorem BitmapUpdated.trans_beyond (hbc : b ≤ c) (hc : c + 999999 < 2 ^ 64)
    (hout : nextMsBoundary a ≤ b) (ha : a + 999999 < 2 ^ 64) (hoff : b % 1000000 ≠ 0)
    (hfirst : BitmapUpdated a b running p q)
    (hsecond : BitmapUpdated b c running q r) : BitmapUpdated a c running p r := by
  have haligned : nextMsBoundary a % 1000000 = 0 := by
    rw [nextMsBoundary_eq ha]
    omega
  have hbound : nextMsBoundary b = b - b % 1000000 + 1000000 := by
    rw [nextMsBoundary_eq (by omega)]
    omega
  simp only [BitmapUpdated, Nat.not_lt.mpr hout, if_false] at hfirst
  obtain ⟨hmap, hcontrib⟩ := hfirst
  have hclosing : closingBit b running q = running := by
    have hrest : b % 1000000 + (nextMsBoundary b - b) = 1000000 := by omega
    cases running with
    | false => simp [closingBit, hcontrib, busyMs]
    | true => simp [closingBit, hcontrib, hrest, busyMs, u32_eq_self]
  have hnot : ¬ c < nextMsBoundary a := by omega
  simp only [BitmapUpdated, hclosing, hnot, if_false] at hsecond ⊢
  by_cases hlt : c < nextMsBoundary b
  · have hcount : (c - nextMsBoundary a) / 1000000 = (b - nextMsBoundary a) / 1000000 := by omega
    have hrest : b % 1000000 + (c - b) = c % 1000000 := by omega
    simp only [hlt, if_true] at hsecond
    rw [hcount, hsecond.1]
    refine ⟨hmap, hsecond.2.trans ?_⟩
    cases running with
    | false => simpa using hcontrib
    | true =>
      have hsmall : c % 1000000 < 2 ^ 32 := by omega
      simp [hcontrib, hrest, u32_eq_self hsmall]
  · have hcount : (c - nextMsBoundary a) / 1000000 =
        (b - nextMsBoundary a) / 1000000 + 1 + (c - nextMsBoundary b) / 1000000 := by omega
    simp only [hlt, if_false] at hsecond
    rw [hcount]
    exact ⟨hmap.trans hsecond.1, hsecond.2⟩

def ShiftedIn (n : Nat) (old new : BitVec 16) : Prop :=
  ∀ i < 16, n ≤ i → new.getLsbD i = old.getLsbD (i - n)

theorem BitmapUpdated.unique (hq : BitmapUpdated a c running p q) (hr : BitmapUpdated a c running p r) :
    q.busyBitmap = r.busyBitmap ∧ q.periodContribRun = r.periodContribRun := by
  unfold BitmapUpdated at hq hr
  split at hq
  · rename_i hlt
    rw [if_pos hlt] at hr
    exact ⟨hq.1.trans hr.1.symm, hq.2.trans hr.2.symm⟩
  · rename_i hlt
    rw [if_neg hlt] at hr
    refine ⟨BitVec.eq_of_getLsbD_eq fun i hi => ?_, hq.2.trans hr.2.symm⟩
    rw [hq.1 i hi, hr.1 i hi]

/-- Off the grid exactly the boundaries in between are counted. -/
theorem BitmapUpdated.shiftedIn (hac : a ≤ c) (ha : a + 999999 < 2 ^ 64) (hoff : a % 1000000 ≠ 0)
    (h : BitmapUpdated a c running p q) :
    ShiftedIn (min (c / 1000000 - a / 1000000) 16) p.busyBitmap q.busyBitmap := by
  intro i hi hle
  have hbound : nextMsBoundary a = a - a % 1000000 + 1000000 := by
    rw [nextMsBoundary_eq ha]
    omega
  unfold BitmapUpdated at h
  split at h
  · have hzero : c / 1000000 - a / 1000000 = 0 := by omega
    rw [h.1, hzero]
    rfl
  · have hcount : c / 1000000 - a / 1000000 = (c - nextMsBoundary a) / 1000000 + 1 := by omega
    have hmin : min (c / 1000000 - a / 1000000) 16 = (c - nextMsBoundary a) / 1000000 + 1 := by omega
    rw [hmin] at hle ⊢
    rw [h.1 i hi, if_neg (by omega), if_neg (by omega), Nat.sub_sub]

/-- An instant on the grid: the update that ends there and the one that starts there both close
the millisecond before it. -/
theorem BitmapUpdated.at_boundary (ha : a + 999999 < 2 ^ 64) (hab : a ≤ b) (hbc : b ≤ c)
    (hc : c + 999999 < 2 ^ 64) (hon : b % 1000000 = 0) (hfirst : BitmapUpdated a b running p q)
    (hsecond : BitmapUpdated b c running q r) (hwhole : BitmapUpdated a c running p s) :
    let m := (b - nextMsBoundary a) / 1000000
    let n := c / 1000000 - b / 1000000
    Extends p.busyBitmap q.busyBitmap (closingBit a running p) running m ∧
      Extends q.busyBitmap r.busyBitmap false running n ∧
      Extends p.busyBitmap s.busyBitmap (closingBit a running p) running (m + n) ∧
      r.periodContribRun = s.periodContribRun := by
  have hbound : nextMsBoundary b = b := by
    rw [nextMsBoundary_eq (by omega)]
    omega
  have hle : nextMsBoundary a ≤ b := by
    rw [nextMsBoundary_eq ha]
    omega
  have haligned : nextMsBoundary a % 1000000 = 0 := by
    rw [nextMsBoundary_eq ha]
    omega
  have hnot : ¬ c < nextMsBoundary a := by omega
  simp only [BitmapUpdated, Nat.not_lt.mpr hle, if_false] at hfirst
  have hclosing : closingBit b running q = false := by
    cases running with
    | false => simp [closingBit, hfirst.2, busyMs]
    | true => simp [closingBit, hfirst.2, hbound, hon, busyMs, u32]
  simp only [BitmapUpdated, hbound, Nat.not_lt.mpr hbc, if_false, hclosing] at hsecond
  simp only [BitmapUpdated, hnot, if_false] at hwhole
  have hn : (c - b) / 1000000 = c / 1000000 - b / 1000000 := by omega
  have hmn : (c - nextMsBoundary a) / 1000000 =
      (b - nextMsBoundary a) / 1000000 + (c / 1000000 - b / 1000000) := by omega
  rw [hn] at hsecond
  rw [hmn] at hwhole
  exact ⟨hfirst.1, hsecond.1, hwhole.1, hsecond.2.trans hwhole.2.symm⟩

section ExtraBit
variable {old mid split whole : BitVec 16} {closing : Bool} {m n : Nat}

/-- A zero bit too many does not show once it has left the bitmap or merged with other zeros. -/
theorem Extends.eq_of_shifted_out (hfirst : Extends old mid closing running m)
    (hsecond : Extends mid split false running n) (hwhole : Extends old whole closing running (m + n))
    (hlong : 16 ≤ if running then n else m + n) : split = whole := by
  refine BitVec.eq_of_getLsbD_eq fun i hi => ?_
  rw [hsecond i hi, hwhole i hi]
  cases running with
  | true =>
    simp only [if_true] at hlong
    rw [if_pos (by omega), if_pos (by omega)]
  | false =>
    simp only [Bool.false_eq_true, if_false] at hlong
    have hall : i < m + n := by omega
    split
    · rfl
    split
    · rfl
    rw [hfirst _ (by omega), if_pos (by omega)]

theorem Extends.ne_of_visible (hfirst : Extends old mid true running m)
    (hsecond : Extends mid split false running n) (hwhole : Extends old whole true running (m + n))
    (hshort : (if running then n else m + n) < 16) : split ≠ whole := by
  intro heq
  cases running with
  | true =>
    have hzero := hsecond n hshort
    have hone := hwhole n hshort
    rw [← heq, hzero] at hone
    by_cases hm : n < m + n
    · simp [hm] at hone
    · simp [show m = 0 by omega] at hone
  | false =>
    simp only [Bool.false_eq_true, if_false] at hshort
    have hzero := hsecond (m + n) hshort
    have hone := hwhole (m + n) hshort
    rw [if_neg (Nat.lt_irrefl _), if_pos rfl, ← heq, hzero, if_neg (by omega)] at hone
    by_cases hm : m = 0
    · simp [hm] at hone
    · rw [if_neg (by omega), hfirst _ (by omega), if_pos (by omega)] at hone
      exact absurd hone (by decide)

end ExtraBit
end Bits

/-- An update at `second` of a task marked at `t.markStart` and the same update split at `first`
leave the same bitmap and running time, and as many bits are shifted in as boundaries are passed. -/
def PathIndependent (activeMs : Fin 3 → Nat) (first second : Call) (t : Wts Cpu) : Prop :=
  ∀ x : Nat × PipelineTask, x.2.pipelineCpu ≠ -1 → ∃ y z,
    (updateBusyBitmap first activeMs t x).bind
        (updateBusyBitmap second activeMs { t with markStart := first.wallclock }) = some y ∧
      updateBusyBitmap second activeMs t x = some z ∧
      y.2.busyBitmap = z.2.busyBitmap ∧ y.2.periodContribRun = z.2.periodContribRun ∧
      ShiftedIn (min (second.wallclock / NSEC_PER_MSEC - t.markStart / NSEC_PER_MSEC) 16)
        x.2.busyBitmap z.2.busyBitmap

section Split
variable {first second : Call} {t : Wts Cpu} {running : Bool}

theorem split_updates (activeMs : Fin 3 → Nat) (hab : t.markStart ≤ first.wallclock)
    (hbc : first.wallclock ≤ second.wallclock) (hc : second.wallclock + 999999 < 2 ^ 64)
    (hgap : second.wallclock / 1000000 - t.markStart / 1000000 < 2 ^ 31)
    (hpipe : first.pipelineInProgress = true) (hpipe' : second.pipelineInProgress = true)
    (hrun : accountBusyForCpuTime { first with irqtime := 0 } t.idle = running)
    (hrun' : accountBusyForCpuTime { second with irqtime := 0 } t.idle = running)
    (x : Nat × PipelineTask) (hcpu : x.2.pipelineCpu ≠ -1) : ∃ y q z,
      (updateBusyBitmap first activeMs t x).bind
          (updateBusyBitmap second activeMs { t with markStart := first.wallclock }) = some y ∧
        updateBusyBitmap second activeMs t x = some z ∧
        BitmapUpdated t.markStart first.wallclock running x.2 q ∧
        BitmapUpdated first.wallclock second.wallclock running q y.2 ∧
        BitmapUpdated t.markStart second.wallclock running x.2 z.2 := by
  have hnextMark := nextMsBoundary_eq (a := t.markStart) (by omega)
  have hnextFirst := nextMsBoundary_eq (a := first.wallclock) (by omega)
  obtain ⟨q, hq, hqcpu, hfirst⟩ := updateBusyBitmap_spec (x := x) activeMs hpipe hcpu hab (by omega)
    (by omega)
  obtain ⟨y, hy, -, hsecond⟩ := updateBusyBitmap_spec (x := q)
    (t := { t with markStart := first.wallclock }) activeMs hpipe' (by rwa [hqcpu]) hbc
    (by simp only; omega) (by simp only; omega)
  obtain ⟨z, hz, -, hwhole⟩ := updateBusyBitmap_spec (x := x) (t := t) activeMs hpipe' hcpu
    (hab.trans hbc) (by omega) (by omega)
  rw [hrun] at hfirst
  rw [hrun'] at hsecond hwhole
  exact ⟨y, q.2, z, by rw [hq]; exact hy, hz, hfirst, hsecond, hwhole⟩

/-- A split point on a boundary adds a zero bit and a mark on a boundary counts that boundary:
neither shows once sixteen further milliseconds have been shifted in. -/
theorem busy_bitmap_path_independent (activeMs : Fin 3 → Nat)
    (hab : t.markStart ≤ first.wallclock) (hbc : first.wallclock ≤ second.wallclock)
    (hc : second.wallclock + 999999 < 2 ^ 64)
    (hgap : second.wallclock / 1000000 - t.markStart / 1000000 < 2 ^ 31)
    (hpipe : first.pipelineInProgress = true) (hpipe' : second.pipelineInProgress = true)
    (hrun : accountBusyForCpuTime { first with irqtime := 0 } t.idle = running)
    (hrun' : accountBusyForCpuTime { second with irqtime := 0 } t.idle = running) :
    PathIndependent activeMs first second t ↔
      (first.wallclock % 1000000 = 0 → 16 ≤ second.wallclock / 1000000 -
        (if running then first.wallclock else t.markStart + 999999) / 1000000) ∧
      (t.markStart % 1000000 = 0 → 16 ≤ second.wallclock / 1000000 - t.markStart / 1000000) := by
  have hupdates := split_updates activeMs hab hbc hc hgap hpipe hpipe' hrun hrun'
  have hnext := nextMsBoundary_eq (a := t.markStart) (by omega)
  -- how far a bit travels after the one that closes the millisecond of `first`
  have htravel : first.wallclock % 1000000 = 0 → (if running then
      second.wallclock / 1000000 - first.wallclock / 1000000 else
      (first.wallclock - nextMsBoundary t.markStart) / 1000000 +
        (second.wallclock / 1000000 - first.wallclock / 1000000)) = second.wallclock / 1000000 -
        (if running then first.wallclock else t.markStart + 999999) / 1000000 := by
    intro hon
    cases running with
    | true => rfl
    | false =>
      simp only [Bool.false_eq_true, if_false]
      omega
  constructor
  · intro hind
    obtain ⟨y, q, z, hy, hz, hfirst, hsecond, hwhole⟩ :=
      hupdates (0, ⟨0, 0#16, 500001, false⟩) (by decide)
    obtain ⟨y', z', hy', hz', hmap, -, hshift⟩ :=
      hind (0, ⟨0, 0#16, 500001, false⟩) (by decide)
    obtain rfl : y' = y := Option.some.inj (hy'.symm.trans hy)
    obtain rfl : z' = z := Option.some.inj (hz'.symm.trans hz)
    have hclosing : closingBit t.markStart running ⟨0, 0#16, 500001, false⟩ = true := by
      have hsmall : 500001 + (nextMsBoundary t.markStart - t.markStart) < 2 ^ 32 := by omega
      cases running with
      | false => simp [closingBit, busyMs]
      | true =>
        simp only [closingBit, busyMs, if_true, u32_eq_self hsmall, decide_eq_true_eq]
        omega
    refine ⟨fun hon => ?_, fun hon => ?_⟩
    · obtain ⟨hm, hn, hmn, -⟩ := BitmapUpdated.at_boundary (by omega) hab hbc hc hon hfirst hsecond hwhole
      rw [hclosing] at hm hmn
      by_contra hshort
      exact hm.ne_of_visible hn hmn (by rw [htravel hon]; omega) hmap
    · by_contra hshort
      have hbound : nextMsBoundary t.markStart = t.markStart := by omega
      have hle : ¬ second.wallclock < t.markStart := by omega
      have hcount : (second.wallclock - t.markStart) / 1000000 =
          second.wallclock / 1000000 - t.markStart / 1000000 := by omega
      simp only [BitmapUpdated, hbound, hle, if_false, hclosing, hcount] at hwhole
      have hbit := hwhole.1 (second.wallclock / 1000000 - t.markStart / 1000000) (by omega)
      have hold := hshift (second.wallclock / 1000000 - t.markStart / 1000000) (by omega)
        (Nat.min_le_left _ _)
      rw [hbit] at hold
      simp at hold
  · rintro ⟨hsplit, hmark⟩ x hcpu
    obtain ⟨y, q, z, hy, hz, hfirst, hsecond, hwhole⟩ := hupdates x hcpu
    have hsame : y.2.busyBitmap = z.2.busyBitmap ∧ y.2.periodContribRun = z.2.periodContribRun := by
      by_cases hon : first.wallclock % 1000000 = 0
      · obtain ⟨hm, hn, hmn, hcontrib⟩ :=
          BitmapUpdated.at_boundary (by omega) hab hbc hc hon hfirst hsecond hwhole
        exact ⟨hm.eq_of_shifted_out hn hmn (by rw [htravel hon]; exact hsplit hon), hcontrib⟩
      · by_cases hin : first.wallclock < nextMsBoundary t.markStart
        · exact (BitmapUpdated.trans_within hab hbc hc hin hfirst hsecond).unique hwhole
        · exact (BitmapUpdated.trans_beyond hbc hc (by omega) (by omega) hon hfirst hsecond).unique hwhole
    refine ⟨y, z, hy, hz, hsame.1, hsame.2, ?_⟩
    by_cases hon : t.markStart % 1000000 = 0
    · intro i hi hle
      simp only [NSEC_PER_MSEC] at hle
      omega
    · exact hwhole.shiftedIn (hab.trans hbc) (by omega) hon

end Split

def pipelineTick (wallclock : Nat) : Call where
  taskExecScale := 1024
  loadBoost := false
  boostedTaskLoad := 0
  waitingOnIo := false
  runnable := true
  statsPolicy := .recent
  pipelineInProgress := true
  trailblazerFeature := false
  rqClock := wallclock
  giantCapacity := 0
  primeCapacity := 0
  event := .taskUpdate
  wallclock := wallclock
  irqtime := 0
  schedRavgWindow := DEFAULT_SCHED_RAVG_WINDOW
  isCurr := true
  currIsIdle := false
  queued := true
  fair := true

def markedTask (markStart : Nat) : Wts Unit := { initNewTaskLoad false with markStart }

/-- A tick inside a millisecond may come between the updates at 0.4 ms and at 3.7 ms. -/
theorem busy_bitmap_split_inside_ms :
    PathIndependent (fun _ => 0) (pipelineTick 1500000) (pipelineTick 3700000) (markedTask 400000) := by
  have hmark : (markedTask 400000).markStart = 400000 := rfl
  have hclock : ∀ wallclock, (pipelineTick wallclock).wallclock = wallclock := fun _ => rfl
  have hrun : ∀ wallclock, accountBusyForCpuTime { pipelineTick wallclock with irqtime := 0 }
      (markedTask 400000).idle = true := fun _ => rfl
  refine (busy_bitmap_path_independent (fun _ => 0) ?_ ?_ ?_ ?_ rfl rfl (hrun 1500000)
    (hrun 3700000)).2 ⟨?_, ?_⟩ <;> simp only [hmark, hclock] <;> omega

/-- A tick exactly at 1 ms shifts in a zero bit that the update at 1.4 ms alone does not; an update
2^32 ms later shifts in one bit only. -/
theorem busy_bitmap_depends_on_ticks :
    ((updateBusyBitmap (pipelineTick 1000000) (fun _ => 0) (markedTask 400000)
        (0, ⟨0, 0#16, 0, false⟩)).bind (updateBusyBitmap (pipelineTick 1400000) (fun _ => 0)
          (markedTask 1000000))).map (fun y => y.2.busyBitmap) = some 2#16 ∧
    (updateBusyBitmap (pipelineTick 1400000) (fun _ => 0) (markedTask 400000)
        (0, ⟨0, 0#16, 0, false⟩)).map (fun y => y.2.busyBitmap) = some 1#16 ∧
    (updateBusyBitmap (pipelineTick 4294967297400000) (fun _ => 0) (markedTask 400000)
        (0, ⟨0, 0#16, 0, false⟩)).map (fun y => y.2.busyBitmap) = some 1#16 := by
  decide +kernel

end MsmKernel.Walt
