import MsmKernel.Lib.Bitmap

/-! The pages that dma-mapping-fast.c takes out of its aperture for the windows of a PCI bridge and
for the reserved regions of the IOMMU. -/
namespace MsmKernel.Iommu.Reservations
open Bitmap

def u32 (n : Nat) : Nat := n % 4294967296

def u64 (n : Nat) : Nat := n % 18446744073709551616

def sub64 (a b : Nat) : Nat := u64 (a + (18446744073709551616 - b))

/- `fast_smmu_init_mapping` keeps the aperture below 4 GB. -/
structure Aperture where
  base : Nat
  size : Nat
  pos : 0 < size
  le : base + size ≤ 4294967296

def Aperture.num4kPages (a : Aperture) : Nat := a.size / 4096

/- The arguments are 32-bit numbers. The loop over whole words takes the length as an int: of a
negative one only the bits of the first word up to the end of the range modulo 64 are set. -/
def bitmapSet (map : Bits) (start nbits : Nat) : Bits :=
  if u32 nbits < 2147483648 then set map (u32 start) (u32 nbits)
  else fun i => map i || (u32 start ≤ i && i / 64 = u32 start / 64 &&
    i % 64 ≤ (u32 start + u32 nbits + 63) % 64)

inductive ResourceType
  | mem
  | io
  | bus
deriving DecidableEq

/- `start` and `stop` are the inclusive bus addresses of the window, after its offset is subtracted. -/
structure Window where
  type : ResourceType
  resStart : Nat
  resEnd : Nat
  offset : Nat
  le : sub64 resStart offset ≤ sub64 resEnd offset

def Window.start (w : Window) : Nat := sub64 w.resStart w.offset

def Window.stop (w : Window) : Nat := sub64 w.resEnd w.offset

def reserveWindow (a : Aperture) (map : Bits) (w : Window) : Bits :=
  if w.type = .bus then map
  else
    let start := max a.base (w.start / 4096 * 4096)
    let stop := min (a.base + a.size) (u64 ((w.stop + 4095) / 4096 * 4096))
    if stop ≤ start then map
    else
      bitmapSet map ((start - a.base) / 4096) ((stop - a.base) / 4096 - (start - a.base) / 4096)

def fastSmmuReservePciWindows (a : Aperture) (windows : List Window) (map : Bits) : Bits :=
  windows.foldl (reserveWindow a) map

structure Region where
  start : Nat
  length : Nat
  le : start + length ≤ 18446744073709551616

section
variable (a : Aperture)

def Region.lo (r : Region) : Nat := sub64 (max a.base r.start) a.base / 4096

def Region.hi (r : Region) : Nat :=
  sub64 (min (a.base + a.size - 1) (sub64 (u64 (r.start + r.length)) 1)) a.base / 4096

def reserveRegion (map : Bits) (r : Region) : Bits :=
  bitmapSet map (r.lo a) (u64 (sub64 (r.hi a) (r.lo a) + 1))

/- What is done to each of the two maps. -/
def fastSmmuReserveIommuRegions (isPci : Bool) (windows : List Window)
    (regions : List Region) (map : Bits) : Bits :=
  regions.foldl (reserveRegion a) (if isPci then fastSmmuReservePciWindows a windows map else map)

/- Page `i` of the aperture has an address from `start` on and below `stop`. -/
def Aperture.Intersects (i start stop : Nat) : Prop :=
  i < a.num4kPages ∧ a.base + i * 4096 < stop ∧ start < a.base + i * 4096 + 4096 ∧ start < stop

def Window.Covers (w : Window) (i : Nat) : Prop :=
  w.type ≠ .bus ∧ a.Intersects i w.start (w.stop + 1)

/- The last address is not the first of a page of the aperture, and rounding it up does not pass
the end of the address space. -/
def WindowOk (w : Window) : Prop :=
  w.type ≠ .bus → (a.base ≤ w.stop → w.stop < a.base + a.size → w.stop % 4096 ≠ 0) ∧
    (w.start < a.base + a.size → w.stop ≤ 18446744073709547520)

end

/- `bitmap_set` sets a bit. -/
def Strays (start nbits : Nat) : Prop :=
  u32 nbits ≠ 0 ∧ (u32 nbits < 2147483648 ∨ u32 start % 64 ≤ (u32 start + u32 nbits + 63) % 64)

/- The region meets the aperture, or the number of its pages wraps to one that sets no bit. -/
def RegionOk (a : Aperture) (r : Region) : Prop :=
  (0 < r.length ∧ r.start < a.base + a.size ∧ a.base < r.start + r.length) ∨
    ¬ Strays (r.lo a) (u64 (sub64 (r.hi a) (r.lo a) + 1))

/- The operation adds the pages of `covers` to every map. -/
def Exact (op : Bits → Bits) (covers : Nat → Prop) : Prop :=
  ∀ map i, op map i = true ↔ map i = true ∨ covers i

theorem reserveWindow_iff (a : Aperture) (map : Bits) {w : Window} (hbus : w.type ≠ .bus) (i : Nat) :
    reserveWindow a map w i = true ↔ map i = true ∨
      (max a.base (w.start / 4096 * 4096) - a.base) / 4096 ≤ i ∧
        i < (min (a.base + a.size) (u64 ((w.stop + 4095) / 4096 * 4096)) - a.base) / 4096 := by
  have hle := a.le
  unfold reserveWindow
  rw [if_neg hbus]
  generalize u64 ((w.stop + 4095) / 4096 * 4096) = stop
  by_cases hempty : min (a.base + a.size) stop ≤ max a.base (w.start / 4096 * 4096)
  · rw [if_pos hempty, or_iff_left]
    omega
  · rw [if_neg hempty, bitmapSet, u32, u32, if_pos (by omega), set_iff]
    refine or_congr_right ?_
    omega

theorem bitmapSet_of_not_strays {start nbits : Nat} (h : ¬ Strays start nbits) (map : Bits) :
    bitmapSet map start nbits = map := by
  unfold Strays at h
  funext i
  rw [Bool.eq_iff_iff]
  unfold bitmapSet
  by_cases hlen : u32 nbits < 2147483648
  · rw [if_pos hlen, set_iff, or_iff_left]
    omega
  · rw [if_neg hlen]
    simp only [Bool.or_eq_true, Bool.and_eq_true, decide_eq_true_eq]
    rw [or_iff_left]
    omega

theorem bitmapSet_of_strays {start nbits : Nat} (h : Strays start nbits) (map : Bits) :
    bitmapSet map start nbits (u32 start) = true := by
  unfold Strays at h
  unfold bitmapSet
  by_cases hlen : u32 nbits < 2147483648
  · rw [if_pos hlen, set_iff]
    exact Or.inr (by omega)
  · rw [if_neg hlen]
    simp only [Bool.or_eq_true, Bool.and_eq_true, decide_eq_true_eq]
    exact Or.inr ⟨⟨Nat.le_refl _, trivial⟩, h.2.resolve_left hlen⟩

section Single
variable {a : Aperture} (hbase : a.base % 4096 = 0) (hsize : a.size % 4096 = 0)
include hbase hsize

theorem window_exact_iff (w : Window) :
    Exact (reserveWindow a · w) (w.Covers a) ↔ WindowOk a w := by
  have hpos := a.pos
  have hle := a.le
  have hwle : w.start ≤ w.stop := w.le
  have hlt : w.stop < 18446744073709551616 := Nat.mod_lt _ (by omega)
  unfold Exact WindowOk Window.Covers
  by_cases hbus : w.type = .bus
  · simp [hbus, reserveWindow]
  · simp only [reserveWindow_iff a _ hbus, hbus, ne_eq, not_false_eq_true, true_and, true_implies,
      Aperture.Intersects, Aperture.num4kPages, u64]
    constructor
    · intro h
      -- the page of the last address, and the first page from the start of the window on
      have hlast := h (fun _ => false) ((w.stop - a.base) / 4096)
      have hfirst := h (fun _ => false) ((max a.base w.start - a.base) / 4096)
      simp only [Bool.false_eq_true, false_or] at hlast hfirst
      constructor
      · omega
      · omega
    · rintro ⟨hstop, hwrap⟩ map i
      refine or_congr_right ?_
      omega

theorem region_exact_iff (r : Region) :
    Exact (reserveRegion a · r) (fun i => a.Intersects i r.start (r.start + r.length)) ↔
      RegionOk a r := by
  have hpos := a.pos
  have hle := a.le
  have hrle := r.le
  by_cases hmeets : 0 < r.length ∧ r.start < a.base + a.size ∧ a.base < r.start + r.length
  · refine iff_of_true (fun map i => ?_) (Or.inl hmeets)
    simp only [reserveRegion, Region.lo, Region.hi, sub64, u64, Aperture.Intersects,
      Aperture.num4kPages]
    rw [bitmapSet, u32, u32, if_pos (by omega), set_iff]
    refine or_congr_right ?_
    omega
  · have hnone (i : Nat) : ¬ a.Intersects i r.start (r.start + r.length) := by
      unfold Aperture.Intersects Aperture.num4kPages
      omega
    unfold Exact RegionOk reserveRegion
    simp only [hnone, or_false, hmeets, false_or]
    constructor
    · intro h hstrays
      exact absurd ((h (fun _ => false) _).1 (bitmapSet_of_strays hstrays _)) (by simp)
    · intro h map i
      rw [bitmapSet_of_not_strays h]

end Single

theorem foldl_exact {α : Type} {op : Bits → α → Bits} {covers : α → Nat → Prop} {l : List α}
    (h : ∀ x ∈ l, Exact (op · x) (covers x)) :
    Exact (l.foldl op) (fun i => ∃ x ∈ l, covers x i) := by
  induction l with
  | nil => simp [Exact]
  | cons x l ih =>
    obtain ⟨hx, hl⟩ := List.forall_mem_cons.1 h
    intro map i
    have hrest := (ih hl (op map x) i).trans (or_congr_left (hx map i))
    simpa [or_assoc] using hrest

def lowAperture : Aperture := ⟨4096, 16384, by decide, by decide⟩

end MsmKernel.Iommu.Reservations
