import MsmKernel.Hab.Grant
import Mathlib.Tactic.Common

/-! The importer of shared pages reads back what the exporter has written. Both loops of the exporter
write runs of frames; the frames are read back in order unless the export begins inside an entry of
the table and goes on behind it, or inside an array. -/
namespace MsmKernel.Hab
open List

def expand (runs : List (Nat × Nat)) : List Nat := runs.flatMap fun r => List.range' r.1 r.2

def regionsOf : List (Nat × Nat) → List Region
  | [] => []
  | [r] => [⟨r.2, 0⟩]
  | r :: r' :: runs => ⟨r.2, toInt ((r'.1 : Int) - (r.1 + r.2))⟩ :: regionsOf (r' :: runs)

def Readable : List (Nat × Nat) → Prop
  | [] => True
  | [r] => 0 < r.2 ∧ r.1 + r.2 ≤ ulong
  | r :: r' :: runs => (0 < r.2 ∧ r.1 + r.2 ≤ ulong) ∧
    (-2147483648 ≤ (r'.1 : Int) - r.1 ∧ (r'.1 : Int) - r.1 < 2147483648) ∧ Readable (r' :: runs)

theorem toInt_of_fits {x : Int} (hlow : -2147483648 ≤ x) (hhigh : x < 2147483648) : toInt x = x :=
  Int.bmod_eq_of_le (by omega) (by omega)

theorem toInt_add_toInt (x y : Int) : toInt (x + toInt y) = toInt (x + y) := by
  simp [toInt]

theorem expand_length_cons (r : Nat × Nat) (runs : List (Nat × Nat)) :
    (expand (r :: runs)).length = r.2 + (expand runs).length := by
  simp [expand]

variable {n : Nat} {r : Nat × Nat} {runs : List (Nat × Nat)}

theorem wrap_range' {s : Nat} (h : s + n ≤ ulong) :
    (List.range n).map (fun j => (s + j) % ulong) = List.range' s n := by
  rw [List.range'_eq_map_range]
  refine map_congr_left fun j hj => Nat.mod_eq_of_lt ?_
  have hlt := mem_range.1 hj
  omega

theorem next_pfn {s s' : Nat} (hs : s' < ulong)
    (hfits : -2147483648 ≤ (s' : Int) - s ∧ (s' : Int) - s < 2147483648) :
    (((s : Int) + toInt ((n : Int) + toInt ((s' : Int) - (s + n)))) % ulong).toNat = s' := by
  have hsum : (n : Int) + ((s' : Int) - (s + n)) = (s' : Int) - s := by omega
  rw [toInt_add_toInt, hsum, toInt_of_fits hfits.1 hfits.2]
  have hback : (s : Int) + ((s' : Int) - s) = (s' : Int) := by omega
  rw [hback, Int.emod_eq_of_lt (by omega) (by omega)]
  rfl

theorem Readable.head (h : Readable (r :: runs)) : 0 < r.2 ∧ r.1 + r.2 ≤ ulong := by
  cases runs with
  | nil => exact h
  | cons r' runs => exact h.1

theorem decodeRegions_regionsOf {payloadCount : Nat} (hread : Readable (r :: runs)) (total : Nat)
    (pages : List Nat) (htotal : total + (expand (r :: runs)).length = payloadCount) :
    decodeRegions payloadCount (regionsOf (r :: runs)) r.1 total pages =
      .ok (pages ++ expand (r :: runs)) := by
  induction runs generalizing r total pages with
  | nil =>
    obtain ⟨hpos, hlt⟩ := hread
    have hdone : total + r.2 = payloadCount := by simpa [expand] using htotal
    have hsize : r.2 ≠ 0 := by omega
    simp [regionsOf, decodeRegions, expand, wrap_range' hlt, hdone, hsize]
  | cons r' runs ih =>
    obtain ⟨⟨hpos, hlt⟩, hfits, hrest⟩ := hread
    rw [expand_length_cons] at htotal
    have hsize : ¬((r.2 : Int) ≤ 0) := by omega
    have hroom : ¬(payloadCount < total + (r.2 : Int).toNat) := by
      omega
    have hstart : r'.1 < ulong := by
      have := hrest.head
      omega
    rw [regionsOf, decodeRegions, if_neg hsize, if_neg hroom, next_pfn hstart hfits, Int.toNat_natCast,
      wrap_range' hlt, ih hrest (total + r.2) _ (by omega)]
    simp [expand]

def clip : List SgEntry → Nat → Nat → List (Nat × Nat)
  | [], _, _ => []
  | s :: sgl, off, count =>
    if s.pages ≤ off then clip sgl (off - s.pages) count
    else if count ≤ s.pages - off then [(s.pfn + off, count)]
    else (s.pfn + off, s.pages - off) :: clip sgl 0 (count - (s.pages - off))

theorem expand_clip (sgl : List SgEntry) (off count : Nat) :
    expand (clip sgl off count) = ((DmaBuf.table sgl).frames.drop off).take count := by
  induction sgl generalizing off count with
  | nil => simp [clip, expand, DmaBuf.frames]
  | cons s sgl ih =>
    have hframes : (DmaBuf.table (s :: sgl)).frames =
        List.range' s.pfn s.pages ++ (DmaBuf.table sgl).frames := rfl
    rw [hframes, drop_append, length_range', drop_range']
    unfold clip
    split_ifs with hskip hlast
    · rw [ih]
      simp [Nat.sub_eq_zero_of_le hskip]
    · have hzero : off - s.pages = 0 := by omega
      simp [expand, hzero, take_append, take_range'_of_length_ge hlast, Nat.sub_eq_zero_of_le hlast]
    · have hzero : off - s.pages = 0 := by omega
      have hwhole : s.pages - off ≤ count := by omega
      have htail := ih 0 (count - (s.pages - off))
      simp only [expand, flatMap_cons] at htail ⊢
      rw [htail]
      simp [hzero, take_append, take_range'_of_length_le hwhole]

theorem SgEntry.pages_lt (s : SgEntry) : s.pages < 1048576 := by
  have hlt := s.lt
  unfold SgEntry.pages pageShift
  omega

theorem regionsOf_ne_nil (r : Nat × Nat) (runs : List (Nat × Nat)) : regionsOf (r :: runs) ≠ [] := by
  cases runs <;> simp [regionsOf]

theorem setSpace_cons (q : Region) {regions : List Region} (hne : regions ≠ []) (space : Int) :
    setSpace (q :: regions) space = q :: setSpace regions space := by
  cases regions with
  | nil => exact absurd rfl hne
  | cons q' regions => rfl

theorem setSpace_regionsOf (runs : List (Nat × Nat)) (r r' : Nat × Nat) :
    setSpace (regionsOf (runs ++ [r])) (toInt ((r'.1 : Int) - (r.1 + r.2))) ++ [⟨r'.2, 0⟩] =
      regionsOf (runs ++ [r, r']) := by
  induction runs with
  | nil => rfl
  | cons q runs ih =>
    cases runs with
    | nil => rfl
    | cons q' runs =>
      simp only [cons_append, regionsOf] at ih ⊢
      rw [setSpace_cons _ (regionsOf_ne_nil q' (runs ++ [r])), cons_append, ih]

section Turns
variable {s : SgEntry} {sgl : List SgEntry} {off count first prePage : Nat} {regions : List Region}

variable (hoff : off < s.pages)
include hoff

theorem size_eq : toInt ((s.pages : Int) - off) = ((s.pages - off : Nat) : Int) := by
  have hlt := s.pages_lt
  rw [toInt_of_fits] <;> omega

theorem compressTable_last (hlast : count ≤ s.pages - off) :
    compressTable (s :: sgl) off count first regions prePage =
      ⟨if regions = [] then s.pfn + off else first,
        setSpace regions (toInt ((s.pfn : Int) - prePage - 1)) ++ [⟨count, 0⟩]⟩ := by
  have hle : (count : Int) ≤ ((s.pages - off : Nat) : Int) := by omega
  rw [compressTable, if_neg (by omega), size_eq hoff, if_pos hle]

theorem compressTable_next (hmore : s.pages - off < count) :
    compressTable (s :: sgl) off count first regions prePage =
      compressTable sgl 0 ((count - (s.pages - off) : Nat) : Int)
        (if regions = [] then s.pfn + off else first)
        (setSpace regions (toInt ((s.pfn : Int) - prePage - 1)) ++ [⟨((s.pages - off : Nat) : Int), 0⟩])
        (s.pfn + (s.pages - off - 1)) := by
  have hlt : ¬((count : Int) ≤ ((s.pages - off : Nat) : Int)) := by omega
  have hcount : (count : Int) - ((s.pages - off : Nat) : Int) =
      ((count - (s.pages - off) : Nat) : Int) := by omega
  have hpre : (((s.pages - off : Nat) : Int) - 1).toNat = s.pages - off - 1 := by omega
  rw [compressTable, if_neg (by omega), size_eq hoff, if_neg hlt, hcount, hpre]

end Turns

theorem frames_length_cons (s : SgEntry) (sgl : List SgEntry) :
    (DmaBuf.table (s :: sgl)).frames.length = s.pages + (DmaBuf.table sgl).frames.length := by
  simp [DmaBuf.frames]

/-- From an entry boundary on, the loop over a table writes the runs that the table has there. -/
theorem compressTable_more {sgl : List SgEntry} {count : Nat} (hpos : 0 < count)
    (hroom : count ≤ (DmaBuf.table sgl).frames.length) (first : Nat) (runs : List (Nat × Nat))
    (r : Nat × Nat) (prePage : Nat) (hpre : prePage + 1 = r.1 + r.2) :
    compressTable sgl 0 count first (regionsOf (runs ++ [r])) prePage =
      ⟨first, regionsOf (runs ++ [r] ++ clip sgl 0 count)⟩ := by
  induction sgl generalizing count runs r prePage with
  | nil =>
    simp [DmaBuf.frames] at hroom
    omega
  | cons s sgl ih =>
    rw [frames_length_cons] at hroom
    have hne : regionsOf (runs ++ [r]) ≠ [] := by
      cases runs with
      | nil => simp [regionsOf]
      | cons q runs => exact regionsOf_ne_nil q (runs ++ [r])
    have hgap : (s.pfn : Int) - prePage - 1 = (s.pfn : Int) - (r.1 + r.2) := by omega
    by_cases hskip : s.pages = 0
    · have hturn : compressTable (s :: sgl) 0 count first (regionsOf (runs ++ [r])) prePage =
          compressTable sgl 0 count first (regionsOf (runs ++ [r])) prePage := by
        rw [compressTable, if_pos (by omega), Nat.zero_sub]
      have hclip : clip (s :: sgl) 0 count = clip sgl 0 count := by
        rw [clip, if_pos (by omega), Nat.zero_sub]
      rw [hturn, hclip]
      exact ih hpos (by omega) runs r prePage hpre
    · have hoff : 0 < s.pages := Nat.pos_of_ne_zero hskip
      by_cases hlast : count ≤ s.pages
      · rw [compressTable_last hoff hlast, if_neg hne, hgap, clip, if_neg (by omega), if_pos (by omega)]
        have hset := setSpace_regionsOf runs r (s.pfn, count)
        simpa using hset
      · rw [compressTable_next hoff (by omega), if_neg hne, hgap, clip, if_neg (by omega),
          if_neg (by omega)]
        have hset := setSpace_regionsOf runs r (s.pfn, s.pages)
        have hleft : 0 < count - s.pages := by omega
        have hmore := ih hleft (by omega) (runs ++ [r]) (s.pfn, s.pages) (s.pfn + (s.pages - 1))
          (by dsimp only; omega)
        simp only [Nat.sub_zero, Nat.add_zero, append_assoc, cons_append, nil_append]
          at hset hmore ⊢
        rw [hset, hmore]

def firstEntry : List SgEntry → Nat → Option (SgEntry × Nat)
  | [], _ => none
  | s :: sgl, off => if s.pages ≤ off then firstEntry sgl (off - s.pages) else some (s, off)

/-- An export that begins at an entry boundary, or ends in the entry in which it begins, is written
as the runs that it covers. -/
theorem compressTable_eq {sgl : List SgEntry} {off count : Nat} (hpos : 0 < count)
    (hroom : off + count ≤ (DmaBuf.table sgl).frames.length)
    (hfirst : ∀ s inEntry, firstEntry sgl off = some (s, inEntry) →
      inEntry = 0 ∨ count ≤ s.pages - inEntry) (first prePage : Nat) :
    ∃ r runs, clip sgl off count = r :: runs ∧
      compressTable sgl off count first [] prePage = ⟨r.1, regionsOf (r :: runs)⟩ := by
  induction sgl generalizing off with
  | nil =>
    simp [DmaBuf.frames] at hroom
    omega
  | cons s sgl ih =>
    rw [frames_length_cons] at hroom
    by_cases hskip : s.pages ≤ off
    · have hentry : firstEntry (s :: sgl) off = firstEntry sgl (off - s.pages) := if_pos hskip
      rw [clip, if_pos hskip, compressTable, if_pos hskip]
      exact ih (by omega) (hentry ▸ hfirst)
    · have hentry : firstEntry (s :: sgl) off = some (s, off) := if_neg hskip
      rw [clip, if_neg hskip]
      by_cases hlast : count ≤ s.pages - off
      · rw [if_pos hlast, compressTable_last (by omega) hlast]
        exact ⟨_, [], rfl, rfl⟩
      · obtain rfl : off = 0 := (hfirst s off hentry).resolve_right hlast
        rw [if_neg hlast, compressTable_next (by omega) (by omega)]
        refine ⟨_, _, rfl, ?_⟩
        exact compressTable_more (by omega) (by omega) _ [] (s.pfn + 0, s.pages - 0) _
          (by dsimp only; omega)

theorem clip_pos {sgl : List SgEntry} {off count : Nat} (hpos : 0 < count) :
    ∀ r ∈ clip sgl off count, 0 < r.2 := by
  induction sgl generalizing off count with
  | nil => simp [clip]
  | cons s sgl ih =>
    unfold clip
    split_ifs with hskip hlast
    · exact ih hpos
    · simpa using hpos
    · intro r hr
      rcases mem_cons.1 hr with rfl | hr
      · dsimp only
        omega
      · exact ih (by omega) r hr

def runsFrom (start size : Nat) : List Nat → List (Nat × Nat)
  | [] => [(start, size)]
  | page :: pages =>
    if page = start + size then runsFrom start (size + 1) pages
    else (start, size) :: runsFrom page 1 pages

theorem expand_runsFrom (start size : Nat) (pages : List Nat) :
    expand (runsFrom start size pages) = List.range' start size ++ pages := by
  induction pages generalizing start size with
  | nil => simp [runsFrom, expand]
  | cons page pages ih =>
    unfold runsFrom
    split_ifs with hnext
    · rw [ih, List.range'_concat, hnext]
      simp
    · have htail := ih page 1
      simp only [expand, flatMap_cons] at htail ⊢
      rw [htail]
      simp

theorem runsFrom_pos {start size : Nat} (hsize : 0 < size) (pages : List Nat) :
    ∀ r ∈ runsFrom start size pages, 0 < r.2 := by
  induction pages generalizing start size with
  | nil => simpa [runsFrom] using hsize
  | cons page pages ih =>
    unfold runsFrom
    split_ifs
    · exact ih (by omega)
    · intro r hr
      rcases mem_cons.1 hr with rfl | hr
      · exact hsize
      · exact ih (by omega) r hr

theorem runsFrom_head (start size : Nat) (pages : List Nat) :
    ∃ n runs, runsFrom start size pages = (start, n) :: runs := by
  induction pages generalizing size with
  | nil => exact ⟨size, [], rfl⟩
  | cons page pages ih =>
    unfold runsFrom
    split_ifs
    · exact ih (size + 1)
    · exact ⟨size, _, rfl⟩

theorem prev_eq_iff (page next : Nat) (hpage : page < ulong) (hnext : 0 < next ∧ next < ulong) :
    (page + (ulong - 1)) % ulong = next - 1 ↔ page = next := by
  unfold ulong at *
  omega

theorem compressArray_eq (start size : Nat) {pages : List Nat} (hsize : 0 < size)
    (hstart : start + size < ulong) (hpages : ∀ page ∈ pages, page + 1 < ulong)
    (regions : List Region) :
    compressArray (start + size - 1) pages size regions =
      regions ++ regionsOf (runsFrom start size pages) := by
  induction pages generalizing start size regions with
  | nil => simp [compressArray, runsFrom, regionsOf]
  | cons page pages ih =>
    have hpage := hpages page (by simp)
    have hrest : ∀ p ∈ pages, p + 1 < ulong := fun p hp => hpages p (by simp [hp])
    have hiff := prev_eq_iff page (start + size) (by omega) (by omega)
    by_cases hnext : page = start + size
    · have hmore := ih start (size + 1) (by omega) (by omega) hrest regions
      rw [compressArray, if_pos (hiff.2 hnext), runsFrom, if_pos hnext, ← hmore, hnext]
      simp
    · have hmore := ih page 1 (by omega) hpage hrest
      have hgap : (page : Int) - ((start + size - 1 : Nat) : Int) - 1 = (page : Int) - (start + size) := by
        omega
      obtain ⟨n, runs, hruns⟩ := runsFrom_head page 1 pages
      rw [compressArray, if_neg (hnext ∘ hiff.1), runsFrom, if_neg hnext, hgap]
      have hone : ((1 : Nat) : Int) = 1 := rfl
      rw [Nat.add_sub_cancel, hone] at hmore
      rw [hmore, hruns]
      simp [regionsOf]

structure Fits (frames : List Nat) : Prop where
  lt : ∀ p ∈ frames, p < 4503599627370496
  fits : ∀ p ∈ frames, ∀ q ∈ frames, -2147483648 ≤ (p : Int) - q ∧ (p : Int) - q < 2147483648

theorem Fits.readable (hpos : ∀ r ∈ runs, 0 < r.2) (h : Fits (expand runs)) : Readable runs := by
  have hmem : ∀ r ∈ runs, ∀ i < r.2, r.1 + i ∈ expand runs := by
    intro r hr i hi
    exact mem_flatMap.2 ⟨r, hr, mem_range'_1.2 (by omega)⟩
  have hone : ∀ r ∈ runs, 0 < r.2 ∧ r.1 + r.2 ≤ ulong := by
    intro r hr
    have hr2 := hpos r hr
    have hend := h.lt _ (hmem r hr (r.2 - 1) (by omega))
    unfold ulong
    omega
  have htwo : ∀ r ∈ runs, ∀ r' ∈ runs,
      -2147483648 ≤ (r'.1 : Int) - r.1 ∧ (r'.1 : Int) - r.1 < 2147483648 := by
    intro r hr r' hr'
    exact h.fits _ (hmem r' hr' 0 (hpos r' hr')) _ (hmem r hr 0 (hpos r hr))
  clear hmem h hpos
  induction runs with
  | nil => trivial
  | cons r runs ih =>
    have htail := ih (fun q hq => hone q (by simp [hq]))
      (fun q hq q' hq' => htwo q (by simp [hq]) q' (by simp [hq']))
    cases runs with
    | nil => exact hone r (by simp)
    | cons r' runs => exact ⟨hone r (by simp), htwo r (by simp) r' (by simp), htail⟩

/- An export of an array begins at its first page; one of a table begins at an entry boundary or
ends in the entry in which it begins. -/
def ExportOk : DmaBuf → Nat → Nat → Prop
  | .array _, off, _ => off = 0
  | .table sgl, off, count => ∀ s inEntry, firstEntry sgl off = some (s, inEntry) →
    inEntry = 0 ∨ count ≤ s.pages - inEntry

theorem compress_runs {buf : DmaBuf} {off count : Nat} {env : ExportEnv} {pfns : CompressedPfns}
    (hpos : 0 < count) (hroom : off + count ≤ buf.frames.length)
    (hfits : Fits ((buf.frames.drop off).take count)) (hok : ExportOk buf off count)
    (hcompress : habmemCompressPfns buf (off <<< pageShift) count env = .ok pfns) :
    ∃ r runs, pfns = ⟨r.1, regionsOf (r :: runs)⟩ ∧ Readable (r :: runs) ∧
      expand (r :: runs) = (buf.frames.drop off).take count := by
  have hoff : (off <<< pageShift) >>> pageShift = off := Nat.shiftLeft_shiftRight off pageShift
  unfold habmemCompressPfns at hcompress
  rw [if_neg (by omega)] at hcompress
  cases buf with
  | table sgl =>
    split_ifs at hcompress
    obtain rfl := Except.ok.inj hcompress
    rw [hoff]
    obtain ⟨r, runs, hclip, hwritten⟩ := compressTable_eq hpos hroom hok 0 0
    have hexpand := expand_clip sgl off count
    refine ⟨r, runs, hwritten, ?_, hclip ▸ hexpand⟩
    rw [← hclip]
    exact Fits.readable (clip_pos hpos) (hexpand ▸ hfits)
  | array pages =>
    obtain rfl : off = 0 := hok
    obtain rfl := Except.ok.inj hcompress
    have hlength : (pages.take count).length = count :=
      length_take_of_le (by simpa [DmaBuf.frames] using hroom)
    obtain ⟨first, rest, htake⟩ : ∃ first rest, pages.take count = first :: rest :=
      exists_cons_of_length_pos (by omega)
    have hhead : pages.headD 0 = first := by
      cases pages with
      | nil => simp at htake
      | cons p ps =>
        cases count with
        | zero => simp at hpos
        | succ n => exact (List.cons.inj htake).1
    have hexpand : expand (runsFrom first 1 rest) = pages.take count := by
      simp [expand_runsFrom, htake]
    obtain ⟨n, runs, hruns⟩ := runsFrom_head first 1 rest
    have hlt : ∀ p ∈ first :: rest, p + 1 < ulong := by
      intro p hp
      have hp' := hfits.lt p (htake ▸ hp)
      unfold ulong
      omega
    have hrest : ∀ p ∈ rest, p + 1 < ulong := fun p hp => hlt p (by simp [hp])
    have hwritten := compressArray_eq first 1 (by omega) (hlt first (by simp)) hrest []
    refine ⟨(first, n), runs, ?_, ?_, hruns ▸ hexpand⟩
    · rw [hhead, htake, ← hruns]
      simpa using hwritten
    · rw [← hruns]
      exact Fits.readable (runsFrom_pos (by omega) rest) (hexpand ▸ hfits)

theorem pagesListCreate_regionsOf {count : Nat} (hread : Readable (r :: runs))
    (hlength : (expand (r :: runs)).length = count) (env : ImportEnv) :
    pagesListCreate ⟨count, ⟨r.1, regionsOf (r :: runs)⟩⟩ env =
      if env.pfnValid r.1 = false ∨ env.pageIsRam r.1 = false then .error EINVAL
      else if env.vmalloc = false ∨ env.kzalloc = false then .error ENOMEM
      else .ok (expand (r :: runs)) := by
  have htotal : 0 + (expand (r :: runs)).length = count := by omega
  have hdecode := decodeRegions_regionsOf hread 0 [] htotal
  simp only [pagesListCreate, hdecode, nil_append]

def ExportEnv.succeeds (env : ExportEnv) : Prop :=
  env.addExport = true ∧ env.kzalloc = true ∧ env.attach = true ∧ env.mapAttachment = true

def ImportEnv.succeeds (env : ImportEnv) (pfn : Nat) : Prop :=
  env.pfnValid pfn = true ∧ env.pageIsRam pfn = true ∧ env.vmalloc = true ∧ env.kzalloc = true

def twoEntries : DmaBuf := .table [⟨100, 16384, by decide⟩, ⟨200, 16384, by decide⟩]

def allExports : ExportEnv := ⟨true, true, true, true⟩
def allImports : ImportEnv := ⟨fun _ => true, fun _ => true, true, true⟩

end MsmKernel.Hab
