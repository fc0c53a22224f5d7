import Mathlib.Data.List.Basic
import MsmKernel.MemBuf.Hypervisor

/-! Retrieving a lent buffer (`mem_buf_retrieve` of mem-buf-gh.c) and pooling remote memory
(`tvm_pool_create` of qcom_tvm_carveout_heap.c), with every callee's failure in an environment: what
is still held and what was misused when they return. -/
namespace MsmKernel.MemBuf.Retrieval

inductive Obj
  | obj | aclDesc | sglDesc | ipa | memmap | parcel | pages | sgTable | vmperm | pool | membuf
  | genPool
deriving DecidableEq, Repr

/- `fault` records a NULL or error pointer that was followed and a release of what is not held. -/
structure Heap where
  held : List Obj
  fault : Bool
deriving DecidableEq, Repr

namespace Heap

def empty : Heap := ⟨[], false⟩

def get (h : Heap) (o : Obj) : Heap := { h with held := o :: h.held }

def put (h : Heap) (o : Obj) : Heap := ⟨h.held.erase o, h.fault || decide (o ∉ h.held)⟩

def putIf (h : Heap) (c : Bool) (o : Obj) : Heap := if c then h.put o else h

def follow (h : Heap) (valid : Bool) : Heap := { h with fault := h.fault || !valid }

end Heap

/- `IS_ERR (ERR_PTR (ret))`, and the error values of callees. -/
def IsErr (ret : Int) : Prop := -4095 ≤ ret ∧ ret < 0

abbrev Ret := { ret : Int // IsErr ret }

def EINVAL : Int := 22
def ENOMEM : Int := 12
def SZ_128M : Nat := 0x8000000

/- None, or the `ret` of the returned `ERR_PTR (ret)`, and what the call leaves. -/
abbrev Outcome := Option Int × Heap

/- A test that goes to an error label, and the same for a callee that returns an error. -/
def check (bad : Bool) (ret : Int) (label : Heap) (rest : Outcome) : Outcome :=
  if bad then (some ret, label) else rest

def checkErr (err : Option Ret) (label : Heap) (rest : Outcome) : Outcome :=
  match err with
  | some ret => (some ret, label)
  | none => rest

/- A Boolean is whether the callee succeeds. -/
structure AltmapEnv where
  kzalloc : Bool
  genPoolAlloc : Bool
  memBufAlloc : Bool

/- The IPA range stays allocated if there is no memory for the memmap. -/
def prepareAltmap (env : AltmapEnv) (h : Heap) : Outcome :=
  check (!env.kzalloc) (- ENOMEM) h <|
  let h := h.get .sglDesc
  check (!env.genPoolAlloc) (- ENOMEM) (h.put .sglDesc) <|
  let h := h.get .ipa
  check (!env.memBufAlloc) (- EINVAL) (h.put .sglDesc) (none, h.get .memmap)

def Large (size : Nat) (dmabufMemPool : Bool) : Prop := SZ_128M ≤ size ∧ dmabufMemPool = true

instance (size : Nat) (dmabufMemPool : Bool) : Decidable (Large size dmabufMemPool) :=
  inferInstanceAs (Decidable (_ ∧ _))

/- The block that both functions have; `rest` is told whether the separate memmap is used. -/
def withAltmap (large : Prop) [Decidable large] (env : AltmapEnv) (errAltmap : Heap → Heap)
    (rest : Bool → Heap → Outcome) (h : Heap) : Outcome :=
  if large then
    match prepareAltmap env h with
    | (some ret, h) => (some ret, errAltmap h)
    | (none, h) => rest true h
  else rest false h

/- `parcelSize` is none if the parcel cannot be mapped to find its size. -/
structure RetrieveEnv where
  argsValid : Bool
  kzalloc : Bool
  acl : Option Ret
  parcelSize : Option Nat
  dmabufMemPool : Bool
  altmap : AltmapEnv
  mapMemS2 : Option Ret
  nSglEntries : Nat
  memremap : Option Ret
  dupSgt : Option Ret
  vmperm : Bool
  dmaBufExport : Option Ret

def getMemParcelSize (env : RetrieveEnv) (h : Heap) : Option Nat × Heap :=
  match env.parcelSize with
  | none => (none, h)
  | some size => (some size, ((h.get .sglDesc).get .parcel).put .parcel)

def errAltmap (h : Heap) : Heap := (h.put .aclDesc).put .obj

def errMapS2 (sglDesc altmap : Bool) (h : Heap) : Heap :=
  errAltmap (((h.putIf sglDesc .sglDesc).putIf altmap .memmap).putIf altmap .ipa)

section
variable (altmap : Bool) (h : Heap)

def errMemremap : Heap := errMapS2 true altmap (h.put .parcel)

def errDupSgt : Heap := errMemremap altmap (h.put .pages)

def errExportDmaBuf : Heap := errDupSgt altmap (h.put .sgTable)

/- A dma-buf whose vmperm is an error is put at once: its release gives back the mapping and the
memmap, and then locks the vmperm. -/
def exportRelease : Heap :=
  (((h.put .pages).putIf altmap .memmap).putIf altmap .ipa).follow false

end

def mapAndExport (env : RetrieveEnv) (altmap : Bool) (h : Heap) : Outcome :=
  checkErr env.mapMemS2 (errMapS2 altmap altmap h) <|
  let h := if altmap then h.get .parcel else (h.get .sglDesc).get .parcel
  check (env.nSglEntries != 1) (- EINVAL) (errMemremap altmap h) <|
  checkErr env.memremap (errMemremap altmap h) <|
  let h := h.get .pages
  checkErr env.dupSgt (errDupSgt altmap h) <|
  let h := h.get .sgTable
  let h := if env.vmperm then h.get .vmperm else h
  checkErr env.dmaBufExport (errExportDmaBuf altmap h) <|
  check (!env.vmperm) (- EINVAL) (errExportDmaBuf altmap (exportRelease altmap h))
    (none, (h.put .sglDesc).put .aclDesc)

/- Without the size there is no descriptor, and the call ends where it is followed. -/
def memBufRetrieve (env : RetrieveEnv) : Outcome :=
  check (!env.argsValid) (- EINVAL) .empty <|
  check (!env.kzalloc) (- ENOMEM) .empty <|
  let h := Heap.empty.get .obj
  checkErr env.acl (h.put .obj) <|
  match getMemParcelSize env (h.get .aclDesc) with
  | (none, h) => (none, h.follow false)
  | (some size, h) =>
    withAltmap (Large size env.dmabufMemPool) env.altmap errAltmap (mapAndExport env)
      (h.put .sglDesc)

structure PoolEnv where
  membufHelper : Bool
  pool : Bool
  obj : Bool
  size : Nat
  dmabufMemPool : Bool
  altmap : AltmapEnv
  membufAlloc : Option Ret
  nSglEntries : Nat
  memremap : Option Ret
  genPoolCreate : Bool
  genPoolAdd : Option Ret

def errPoolAltmap (h : Heap) : Heap := (h.put .obj).put .pool

def errMemBufAlloc (altmapSgl altmap : Bool) (h : Heap) : Heap :=
  errPoolAltmap (((h.putIf altmapSgl .sglDesc).putIf altmap .memmap).putIf altmap .ipa)

def errPoolMemremap (altmap : Bool) (h : Heap) : Heap :=
  errMemBufAlloc false altmap (h.put .membuf)

def errGenPoolCreate (altmap : Bool) (h : Heap) : Heap := errPoolMemremap altmap (h.put .pages)

def errGenPoolAdd (altmap : Bool) (h : Heap) : Heap := errGenPoolCreate altmap (h.put .genPool)

/- A descriptor with several entries sets `ret` to the positive `EINVAL`. -/
def allocPool (env : PoolEnv) (altmap : Bool) (h : Heap) : Outcome :=
  checkErr env.membufAlloc (errMemBufAlloc altmap altmap h) <|
  let h := (h.get .membuf).putIf altmap .sglDesc
  check (env.nSglEntries != 1) EINVAL (errPoolMemremap altmap h) <|
  checkErr env.memremap (errPoolMemremap altmap h) <|
  let h := h.get .pages
  check (!env.genPoolCreate) (- ENOMEM) (errGenPoolCreate altmap h) <|
  let h := h.get .genPool
  checkErr env.genPoolAdd (errGenPoolAdd altmap h) (none, h)

def tvmPoolCreate (env : PoolEnv) : Outcome :=
  check (!env.membufHelper) (- EINVAL) .empty <|
  check (!env.pool) (- ENOMEM) .empty <|
  let h := Heap.empty.get .pool
  check (!env.obj) (- ENOMEM) (h.put .pool) <|
  withAltmap (Large env.size env.dmabufMemPool) env.altmap errPoolAltmap (allocPool env)
    (h.get .obj)

/-- No bad pointer is followed and nothing is released twice; a failure is reported by an error
pointer and leaves nothing held. -/
def CleansUp (r : Outcome) : Prop :=
  r.2.fault = false ∧ ∀ ret, r.1 = some ret → IsErr ret ∧ r.2.held = []

def AltmapEnv.Ready (env : AltmapEnv) : Prop :=
  env.kzalloc = true ∧ env.genPoolAlloc = true ∧ env.memBufAlloc = true

def AltmapEnv.Leaks (env : AltmapEnv) : Prop :=
  env.kzalloc = true ∧ env.genPoolAlloc = true ∧ env.memBufAlloc = false

/- The size of the parcel is found, the memmap memory is there if its addresses are, and the vmperm
is created exactly if the dma-buf is. -/
def RetrieveEnv.Safe (env : RetrieveEnv) : Prop :=
  env.argsValid = true → env.kzalloc = true → env.acl = none →
    ∃ size, env.parcelSize = some size ∧
      (Large size env.dmabufMemPool → ¬ env.altmap.Leaks) ∧
      ((Large size env.dmabufMemPool → env.altmap.Ready) → env.mapMemS2 = none →
        env.nSglEntries = 1 → env.memremap = none → env.dupSgt = none →
          (env.vmperm = true ↔ env.dmaBufExport = none))

/- The memmap memory is there if its addresses are, and the memory is contiguous. -/
def PoolEnv.Safe (env : PoolEnv) : Prop :=
  env.membufHelper = true → env.pool = true → env.obj = true →
    (Large env.size env.dmabufMemPool → ¬ env.altmap.Leaks) ∧
    ((Large env.size env.dmabufMemPool → env.altmap.Ready) → env.membufAlloc = none →
      env.nSglEntries = 1)

section Checks
variable {bad : Bool} {ret : Int} {label h : Heap} {rest : Outcome} {err : Option Ret}

theorem isErr_EINVAL : IsErr (- EINVAL) := ⟨by decide, by decide⟩

theorem isErr_ENOMEM : IsErr (- ENOMEM) := ⟨by decide, by decide⟩

theorem cleansUp_empty (hret : IsErr ret) : CleansUp (some ret, .empty) :=
  ⟨rfl, fun _ heq => ⟨Option.some.inj heq ▸ hret, rfl⟩⟩

theorem not_cleansUp_held (hheld : h.held ≠ []) : ¬ CleansUp (some ret, h) :=
  fun hc => hheld (hc.2 ret rfl).2

theorem check_cleansUp (hret : IsErr ret) (hlabel : label = .empty) :
    CleansUp (check bad ret label rest) ↔ (bad = false → CleansUp rest) := by
  subst hlabel
  cases bad with
  | true => exact iff_of_true (cleansUp_empty hret) nofun
  | false => simp [check]

theorem checkErr_cleansUp (hlabel : label = .empty) :
    CleansUp (checkErr err label rest) ↔ (err = none → CleansUp rest) := by
  subst hlabel
  cases err with
  | some ret => exact iff_of_true (cleansUp_empty ret.2) nofun
  | none => simp [checkErr]

theorem withAltmap_cleansUp {large P : Prop} [Decidable large] {env : AltmapEnv}
    {errAltmap : Heap → Heap} {rest : Bool → Heap → Outcome} (herr : errAltmap h = .empty)
    (hleak : (errAltmap (h.get .ipa)).held ≠ [])
    (hmemmap : CleansUp (rest true (((h.get .sglDesc).get .ipa).get .memmap)) ↔ P)
    (hplain : CleansUp (rest false h) ↔ P) : CleansUp (withAltmap large env errAltmap rest h) ↔
      (large → ¬ env.Leaks) ∧ ((large → env.Ready) → P) := by
  by_cases hlarge : large
  · simp only [withAltmap, hlarge, if_true, forall_const]
    obtain ⟨kzalloc, genPoolAlloc, memBufAlloc⟩ := env
    have hput (o : Obj) : (h.get o).put o = h := by simp [Heap.get, Heap.put]
    have hipa : ((h.get .sglDesc).get .ipa).put .sglDesc = h.get .ipa := by
      simp [Heap.get, Heap.put]
    cases kzalloc <;> cases genPoolAlloc <;> cases memBufAlloc <;>
      simp [prepareAltmap, check, AltmapEnv.Leaks, AltmapEnv.Ready, hput, hipa, herr, hmemmap,
        cleansUp_empty isErr_ENOMEM, not_cleansUp_held hleak]
  · simp [withAltmap, hlarge, hplain]

end Checks

theorem mapAndExport_cleansUp (env : RetrieveEnv) (altmap : Bool) (h : Heap)
    (hh : h = ⟨(if altmap then [.memmap, .ipa, .sglDesc] else []) ++ [.aclDesc, .obj], false⟩) :
    CleansUp (mapAndExport env altmap h) ↔
      (env.mapMemS2 = none → env.nSglEntries = 1 → env.memremap = none → env.dupSgt = none →
        (env.vmperm = true ↔ env.dmaBufExport = none)) := by
  subst hh
  rw [mapAndExport, checkErr_cleansUp (by cases altmap <;> decide),
    check_cleansUp isErr_EINVAL (by cases altmap <;> decide),
    checkErr_cleansUp (by cases altmap <;> decide), checkErr_cleansUp (by cases altmap <;> decide)]
  simp only [bne_eq_false_iff_eq]
  refine imp_congr_right fun _ => imp_congr_right fun _ => imp_congr_right fun _ =>
    imp_congr_right fun _ => ?_
  cases env.vmperm with
  | true =>
    cases env.dmaBufExport with
    | none => exact iff_of_true ⟨by cases altmap <;> decide, nofun⟩ (by simp)
    | some ret => exact iff_of_false (not_cleansUp_held (by cases altmap <;> decide)) (by simp)
  | false =>
    cases env.dmaBufExport with
    | none => exact iff_of_false (fun h => absurd h.1 (by cases altmap <;> decide)) (by simp)
    | some ret =>
      exact iff_of_true ((checkErr_cleansUp (by cases altmap <;> decide)).2 nofun) (by simp)

theorem memBufRetrieve_cleansUp (env : RetrieveEnv) : CleansUp (memBufRetrieve env) ↔ env.Safe := by
  rw [memBufRetrieve, check_cleansUp isErr_EINVAL rfl, check_cleansUp isErr_ENOMEM rfl,
    checkErr_cleansUp (by decide), RetrieveEnv.Safe]
  simp only [Bool.not_eq_false']
  refine imp_congr_right fun _ => imp_congr_right fun _ => imp_congr_right fun _ => ?_
  cases hsize : env.parcelSize with
  | none =>
    simp only [getMemParcelSize, hsize]
    exact iff_of_false (fun h => absurd h.1 (by decide)) (by simp)
  | some size =>
    simp only [getMemParcelSize, hsize, Option.some.injEq, exists_eq_left']
    exact withAltmap_cleansUp (by decide) (by decide) (mapAndExport_cleansUp env true _ (by decide))
      (mapAndExport_cleansUp env false _ (by decide))

theorem allocPool_cleansUp (env : PoolEnv) (altmap : Bool) (h : Heap)
    (hh : h = ⟨(if altmap then [.memmap, .ipa, .sglDesc] else []) ++ [.obj, .pool], false⟩) :
    CleansUp (allocPool env altmap h) ↔ (env.membufAlloc = none → env.nSglEntries = 1) := by
  subst hh
  rw [allocPool, checkErr_cleansUp (by cases altmap <;> decide)]
  refine imp_congr_right fun _ => ?_
  by_cases hone : env.nSglEntries = 1
  · refine iff_of_true ?_ hone
    simp only [check, hone, bne_self_eq_false, Bool.false_eq_true, if_false]
    rw [checkErr_cleansUp (by cases altmap <;> decide)]
    refine fun _ => (check_cleansUp isErr_ENOMEM (by cases altmap <;> decide)).2 fun _ =>
      (checkErr_cleansUp (by cases altmap <;> decide)).2 fun _ => ⟨by cases altmap <;> decide, nofun⟩
  · refine iff_of_false (fun hc => ?_) hone
    rw [check, if_pos (by simpa using hone)] at hc
    exact absurd (hc.2 EINVAL rfl).1.2 (by decide)

theorem tvmPoolCreate_cleansUp (env : PoolEnv) : CleansUp (tvmPoolCreate env) ↔ env.Safe := by
  rw [tvmPoolCreate, check_cleansUp isErr_EINVAL rfl, check_cleansUp isErr_ENOMEM rfl,
    check_cleansUp isErr_ENOMEM (by decide), PoolEnv.Safe]
  simp only [Bool.not_eq_false']
  refine imp_congr_right fun _ => imp_congr_right fun _ => imp_congr_right fun _ => ?_
  exact withAltmap_cleansUp (by decide) (by decide) (allocPool_cleansUp env true _ rfl)
    (allocPool_cleansUp env false _ rfl)

/-- For every parcel size and every pattern of failures, each of the two functions cleans up exactly
if its environment is safe. -/
theorem retrieval_cleans_up (r : RetrieveEnv) (p : PoolEnv) :
    (CleansUp (memBufRetrieve r) ↔ r.Safe) ∧ (CleansUp (tvmPoolCreate p) ↔ p.Safe) :=
  ⟨memBufRetrieve_cleansUp r, tvmPoolCreate_cleansUp p⟩

/-- The size query fails and its descriptor is followed; no memmap memory, and the address range
stays; no dma-buf, and the vmperm stays; a scattered pool, and the result is no error pointer. -/
theorem retrieval_leaves_behind :
    let ready : AltmapEnv := ⟨true, true, true⟩
    let noMem : Option Ret := some ⟨- ENOMEM, isErr_ENOMEM⟩
    (memBufRetrieve ⟨true, true, none, none, true, ready, none, 1, none, none, true, none⟩).2.fault =
      true ∧
    memBufRetrieve ⟨true, true, none, some SZ_128M, true, ⟨true, true, false⟩, none, 1, none, none,
      true, none⟩ = (some (- EINVAL), ⟨[.ipa], false⟩) ∧
    memBufRetrieve ⟨true, true, none, some 4096, true, ready, none, 1, none, none, true, noMem⟩ =
      (some (- ENOMEM), ⟨[.vmperm], false⟩) ∧
    tvmPoolCreate ⟨true, true, true, 4096, true, ready, none, 2, none, true, none⟩ =
      (some EINVAL, ⟨[], false⟩) ∧ ¬ IsErr EINVAL :=
  ⟨by decide, by decide, by decide, by decide, fun h => absurd h.2 (by decide)⟩

end MsmKernel.MemBuf.Retrieval
