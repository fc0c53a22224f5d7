import MsmKernel.MemBuf.Vmperm

/-! The lending state machine: references, records, handle index and permissions of the lent
buffers agree in every state that any interleaving of the steps can reach. -/
namespace MsmKernel.MemBuf
open Run List Bufs
variable {currentVmid : Vmid}

/-- What holds of one record: its references are accounted for, a handle belongs to a flag, the
record is what the hypervisor was told, and a pinned buffer keeps the permissions it was pinned
with. -/
structure Vmperm.Ok (v : Vmperm) : Prop where
  refs : v.kref = v.watch.opened.toNat + v.watch.lookups + (v.lendshare || v.accept).toNat +
    v.watch.errMarks
  flags : ¬ (v.lendshare = true ∧ v.accept = true)
  hdl : v.memparcelHdl ≠ memBufMemparcelInvalid → v.lendshare = true ∨ v.accept = true
  given : v.watch.lastFailed = false → v.acl = v.watch.given
  unpinned : v.mapcount = 0 → v.watch.pinRead = false ∧ v.watch.pinWrite = false
  pinned : v.mapcount ≠ 0 → v.err = false →
    (v.watch.pinRead = true → v.currentVmPerms &&& permRead ≠ 0) ∧
    (v.watch.pinWrite = true → v.currentVmPerms &&& permWrite ≠ 0)

variable {v w : Vmperm} {xa : XArray Nat}

variable {kind : AllocKind} {arg : Acl} {hdl : UInt32} {insert : Option Errno} {f : Vmperm → Bufs}

theorem ok_allocFlags (hkind : ∀ acl hdl, kind = .accept acl hdl →
    hdl ≠ memBufMemparcelInvalid) : (memBufVmpermAllocFlags currentVmid kind).Ok := by
  cases kind with
  | plain | staticvm acl => exact ⟨rfl, by simp [memBufVmpermAllocFlags, AllocKind.acceptFlag],
      fun h => absurd rfl h, fun _ => rfl, fun _ => ⟨rfl, rfl⟩, fun h => absurd rfl h⟩
  | accept acl hdl =>
    have hne := hkind acl hdl rfl
    refine ⟨?_, by simp [memBufVmpermAllocFlags], fun _ => .inr rfl, fun _ => rfl,
      fun _ => ⟨rfl, rfl⟩, fun h => absurd rfl h⟩
    simp [memBufVmpermAllocFlags, AllocKind.hdl, AllocKind.acceptFlag, hne]

/-- What a locked section can do to a record and to the index: leave handle, loan and index alone,
or give the handle up. -/
inductive Change (v w : Vmperm) (xa : XArray Nat) : XArray Nat → Prop
  | quiet (hhdl : w.memparcelHdl = v.memparcelHdl) (hlend : w.lendshare = v.lendshare)
      (hrec : w.watch.reclaims = v.watch.reclaims) : Change v w xa xa
  | gone (hhdl : w.memparcelHdl = memBufMemparcelInvalid)
      (hrec : w.watch.reclaims = v.watch.reclaims + 1 ∨
        v.lendshare = false ∧ w.lendshare = false ∧ w.watch.reclaims = v.watch.reclaims) :
      Change v w xa (xa.erase v.memparcelHdl.toNat)

theorem ok_pin (hv : v.Ok) : (memBufVmpermPin v).Ok := by
  refine ⟨hv.refs, hv.flags, hv.hdl, hv.given, fun h => ?_, fun h herr => ?_⟩
  · have h0 : v.mapcount + 1 = 0 := h
    simp [memBufVmpermPin, h0]
  · -- a permission seen by an earlier pin is still there, one seen by this pin is there now
    have hold : v.watch.pinRead = true ∨ v.watch.pinWrite = true → v.mapcount ≠ 0 := by
      intro hpin h0
      have hun := hv.unpinned h0
      simp [hun] at hpin
    simp only [memBufVmpermPin, Bool.and_eq_true, Bool.or_eq_true, bne_iff_ne]
    refine ⟨fun hr => ?_, fun hw => ?_⟩
    · rcases hr.2 with hpin | hnow
      · exact (hv.pinned (hold (.inl hpin)) herr).1 hpin
      · exact hnow
    · rcases hw.2 with hpin | hnow
      · exact (hv.pinned (hold (.inr hpin)) herr).2 hpin
      · exact hnow

theorem ok_unpin (hv : v.Ok) : (memBufVmpermUnpin v).Ok := by
  unfold memBufVmpermUnpin
  split_ifs with h0
  · exact hv
  · refine ⟨hv.refs, hv.flags, hv.hdl, hv.given, fun h => ?_, fun h herr => ?_⟩
    · have h1 : v.mapcount - 1 = 0 := h
      simp [h1]
    · have hp := hv.pinned h0 herr
      simp only [Bool.and_eq_true]
      exact ⟨fun hr => hp.1 hr.2, fun hr => hp.2 hr.2⟩

/-- A section that ends with a good record and an allowed change. -/
def Sound (v : Vmperm) (xa : XArray Nat) (r : Option Errno × Vmperm × XArray Nat) : Prop :=
  r.2.1.Ok ∧ Change v r.2.1 xa r.2.2

theorem sound_reclaim (hv : v.Ok) (hlend : v.lendshare = true) (unassign : Option Errno)
    (xa : XArray Nat) : Sound v xa (memBufVmpermReclaim currentVmid unassign v xa) := by
  have hacc : v.accept = false := by simpa [hlend] using hv.flags
  cases unassign with
  | some e =>
    simp only [memBufVmpermReclaim]
    exact ⟨⟨hv.refs, hv.flags, hv.hdl, fun h => absurd h (by simp), hv.unpinned, hv.pinned⟩,
      .quiet rfl rfl rfl⟩
  | none =>
    have hperm : currentPerms currentVmid
        [(currentVmid, permRead ||| permWrite ||| permExec)] = 7 := by
      simp only [currentPerms, foldl_cons, foldl_nil, if_true]
      decide
    have hrw : (7 : UInt32) &&& permRead ≠ 0 ∧ (7 : UInt32) &&& permWrite ≠ 0 := by decide
    simp only [memBufVmpermReclaim, memBufVmpermUpdateState, hperm]
    refine ⟨⟨?_, fun h => absurd h.1 (by simp), fun h => absurd rfl h, fun _ => rfl, hv.unpinned,
      fun _ _ => ⟨fun _ => hrw.1, fun _ => hrw.2⟩⟩, .gone rfl (.inl rfl)⟩
    have hrefs := hv.refs
    simp only [hlend, hacc, Bool.or_false, Bool.toNat_true, Bool.toNat_false] at hrefs ⊢
    omega

theorem sound_relinquish (hv : v.Ok) (hlend : v.lendshare = false) (hacc : v.accept = true)
    (unmap : Option Errno) (xa : XArray Nat) : Sound v xa (memBufVmpermRelinquish unmap v xa) := by
  cases unmap with
  | some e => exact ⟨hv, .quiet rfl rfl rfl⟩
  | none =>
    simp only [memBufVmpermRelinquish]
    refine ⟨⟨?_, fun h => absurd h.2 (by simp), fun h => absurd rfl h, hv.given, hv.unpinned,
      hv.pinned⟩, .gone rfl (.inr ⟨hlend, hlend, rfl⟩)⟩
    have hrefs := hv.refs
    simp only [hlend, hacc, Bool.or_false, Bool.or_true, Bool.toNat_true, Bool.toNat_false]
      at hrefs ⊢
    omega

theorem Sound.zombie {r : Option Errno × Vmperm × XArray Nat} (hr : Sound v xa r) (b : Bool) :
    Sound v xa (r.1, if b then { r.2.1 with zombie := true } else r.2.1, r.2.2) := by
  obtain ⟨ret, w, xa'⟩ := r
  obtain ⟨hw, hc⟩ := hr
  cases b with
  | false => exact ⟨hw, hc⟩
  | true =>
    refine ⟨⟨hw.refs, hw.flags, hw.hdl, hw.given, hw.unpinned, hw.pinned⟩, ?_⟩
    cases hc with
    | quiet h₁ h₂ h₃ => exact .quiet h₁ h₂ h₃
    | gone h₁ h₂ => exact .gone h₁ h₂

theorem sound_tryReclaim (hv : v.Ok) (fromNotifier : Bool) (env : ReclaimEnv) (xa : XArray Nat) :
    Sound v xa (memBufVmpermTryReclaim currentVmid fromNotifier env v xa) := by
  have hv' : Vmperm.Ok { v with dtor := false } :=
    ⟨hv.refs, hv.flags, hv.hdl, hv.given, hv.unpinned, hv.pinned⟩
  have hstart : ∀ {r}, Sound { v with dtor := false } xa r → Sound v xa r := by
    rintro ⟨ret, w, xa'⟩ ⟨hw, hc⟩
    refine ⟨hw, ?_⟩
    cases hc with
    | quiet h₁ h₂ h₃ => exact .quiet h₁ h₂ h₃
    | gone h₁ h₂ => exact .gone h₁ h₂
  unfold memBufVmpermTryReclaim
  by_cases hearly : (fromNotifier && !v.zombie) = true
  · rw [if_pos hearly]
    exact ⟨hv, .quiet rfl rfl rfl⟩
  · rw [if_neg hearly]
    refine hstart (Sound.zombie ?_ _)
    generalize (if v.dtor = true then env.dtor else none) = ret
    split_ifs with hlend hacc
    · exact sound_reclaim hv' hlend env.unassign xa
    · exact sound_relinquish hv' (by simpa using hlend) hacc env.unmap xa
    · exact ⟨hv', .quiet rfl rfl rfl⟩

/-- The last entry that names the current VM grants reading and writing. -/
def Grants (currentVmid : Vmid) (arg : Acl) : Prop :=
  currentPerms currentVmid arg &&& (permRead ||| permWrite) = permRead ||| permWrite

theorem read_write_of_grants {p : UInt32}
    (hp : p &&& (permRead ||| permWrite) = permRead ||| permWrite) :
    p &&& permRead ≠ 0 ∧ p &&& permWrite ≠ 0 := by
  have hr : p &&& permRead = permRead := by
    calc p &&& permRead = p &&& ((permRead ||| permWrite) &&& permRead) := by rfl
      _ = permRead := by rw [← UInt32.and_assoc, hp]; rfl
  have hw : p &&& permWrite = permWrite := by
    calc p &&& permWrite = p &&& ((permRead ||| permWrite) &&& permWrite) := by rfl
      _ = permWrite := by rw [← UInt32.and_assoc, hp]; rfl
  rw [hr, hw]
  decide

theorem lendLocked_spec (hv : v.Ok) (op : UInt32) (env : LendEnv)
    (hpin : validateLendVmids currentVmid arg op = true → v.mapcount ≠ 0 →
      permits currentVmid arg = true → Grants currentVmid arg) :
    match memBufLendLocked currentVmid op arg env v with
    | (.error _, w) => w.Ok ∧ ∀ xa, Change v w xa xa
    | (.ok hdl, w) => w.Ok ∧ v.lendshare = false ∧ v.accept = false ∧ w.lendshare = true ∧
        w.memparcelHdl = hdl ∧ w.watch.reclaims = v.watch.reclaims ∧ env.assign = .ok hdl := by
  unfold memBufLendLocked
  split_ifs with h₁ h₂ herr hst hlend hacc hmap
  all_goals try exact ⟨hv, fun _ => .quiet rfl rfl rfl⟩
  cases hres : memBufVmpermResize arg.length env.kcalloc v with
  | none => exact ⟨hv, fun _ => .quiet rfl rfl rfl⟩
  | some u =>
    have hu : ∃ n, u = { v with maxAclEntries := n } := by
      unfold memBufVmpermResize at hres
      split_ifs at hres
      · exact ⟨v.maxAclEntries, (Option.some.inj hres).symm⟩
      · exact ⟨arg.length, (Option.some.inj hres).symm⟩
    obtain ⟨n, rfl⟩ := hu
    cases env.assign with
    | error e =>
      dsimp only
      split_ifs
      · refine ⟨⟨?_, hv.flags, hv.hdl, fun h => absurd h (by simp [memBufVmpermSetErr]), hv.unpinned,
          fun _ h => absurd h (by simp [memBufVmpermSetErr])⟩, fun _ => .quiet rfl rfl rfl⟩
        have hrefs := hv.refs
        simp only [memBufVmpermSetErr]
        omega
      · exact ⟨⟨hv.refs, hv.flags, hv.hdl, fun h => absurd h (by simp), hv.unpinned, hv.pinned⟩,
          fun _ => .quiet rfl rfl rfl⟩
    | ok hdl =>
      have hlend' : v.lendshare = false := by simpa using hlend
      have hacc' : v.accept = false := by simpa using hacc
      refine ⟨⟨?_, fun h => hacc h.2, fun _ => .inl rfl, fun _ => rfl, hv.unpinned, fun h _ => ?_⟩,
        hlend', hacc', rfl, rfl, rfl, rfl⟩
      · have hrefs := hv.refs
        simp only [hlend', hacc', Bool.or_false, Bool.toNat_true, Bool.toNat_false,
          memBufVmpermUpdateState] at hrefs ⊢
        omega
      · have hper : permits currentVmid arg = true := by
          simpa [validateLendMapcount, show v.mapcount ≠ 0 from h] using hmap
        obtain ⟨hr, hw⟩ := read_write_of_grants (hpin (by simpa using h₂) h hper)
        exact ⟨fun _ => hr, fun _ => hw⟩

def Lend.Current (l : Lend) (v : Vmperm) : Prop :=
  v.watch.reclaims = l.epoch → v.lendshare = true ∧ v.memparcelHdl = l.hdl

structure Lent (s : Bufs) : Prop where
  ok : ∀ (i : Nat) (v : Vmperm), s.vmperms[i]? = some v → v.Ok
  distinct : ∀ (i j : Nat) (v w : Vmperm), s.vmperms[i]? = some v → s.vmperms[j]? = some w →
    v.memparcelHdl = w.memparcelHdl → v.memparcelHdl ≠ memBufMemparcelInvalid → i = j
  index : ∀ h i, s.vmpermXa.load h = some i → ∃ v, s.vmperms[i]? = some v ∧
    v.memparcelHdl.toNat = h ∧ v.memparcelHdl ≠ memBufMemparcelInvalid
  loans : ∀ l ∈ s.lends ++ s.returned, ∃ v, s.vmperms[l.buf]? = some v ∧ l.Current v ∧
    l.epoch ≤ v.watch.reclaims
  registered : ∀ l ∈ s.returned, ∀ v, s.vmperms[l.buf]? = some v → v.watch.reclaims = l.epoch →
    l.hdl ≠ memBufMemparcelInvalid → s.vmpermXa.load l.hdl.toNat = some l.buf

variable {ls : List Lend}

theorem xaInsert_eq_ok {i : Nat} {xa' : XArray Nat} (h : xaInsert xa hdl i insert = .ok xa') :
    xa.load hdl.toNat = none ∧ xa' = xa.store hdl.toNat i := by
  unfold xaInsert at h
  split at h
  · cases h
  · split_ifs at h with hload
    cases h
    exact ⟨by simpa using hload, rfl⟩

theorem load_store_of_load {k h i j : Nat} (hnone : xa.load k = none) (hl : xa.load h = some j) :
    (xa.store k i).load h = some j := by
  rw [XArray.load_store, if_neg]
  · exact hl
  · rintro rfl
    simp [hnone] at hl

section Steps
variable {s t : Bufs} {i : Nat} {xa' : XArray Nat}

theorem getElem?_put (s : Bufs) {i : Nat} {v : Vmperm} (hv : s.vmperms[i]? = some v) (w : Vmperm)
    (j : Nat) : (s.put i w).vmperms[j]? = if j = i then some w else s.vmperms[j]? := by
  have hi : i < s.vmperms.length := (List.getElem?_eq_some_iff.1 hv).1
  simp only [put, List.getElem?_set, hi, if_true]
  by_cases hj : j = i
  · simp [hj]
  · simp [hj, Ne.symm hj]

/-- One record is replaced or added. What is asked of it: its handle is its own, the index agrees
with it, and its loans that are still current are those of the old record. -/
theorem Lent.replace (hI : Lent s)
    (hget : ∀ j, t.vmperms[j]? = if j = i then some w else s.vmperms[j]?)
    (hret : t.returned = s.returned) (hw : w.Ok)
    (hdist : ∀ (j : Nat) (u : Vmperm), j ≠ i → s.vmperms[j]? = some u →
      u.memparcelHdl = w.memparcelHdl → u.memparcelHdl = memBufMemparcelInvalid)
    (hself : ∀ h, t.vmpermXa.load h = some i →
      w.memparcelHdl.toNat = h ∧ w.memparcelHdl ≠ memBufMemparcelInvalid)
    (hload : ∀ h j, j ≠ i → (t.vmpermXa.load h = some j ↔ s.vmpermXa.load h = some j))
    (hloan : ∀ v, s.vmperms[i]? = some v → ∀ l : Lend, l.Current v →
      l.epoch ≤ v.watch.reclaims → l.Current w ∧ l.epoch ≤ w.watch.reclaims ∧
      (w.watch.reclaims = l.epoch → v.watch.reclaims = l.epoch ∧ t.vmpermXa = s.vmpermXa))
    (hls : ∀ l ∈ t.lends, l ∈ s.lends ∨ l.buf = i ∧ l.Current w ∧ l.epoch ≤ w.watch.reclaims) :
    Lent t := by
  refine ⟨fun j u hu => ?_, fun j k u x hu hx he hne => ?_, fun h j hl => ?_, fun l hl => ?_,
    fun l hl u hu he hne => ?_⟩
  · rw [hget] at hu
    split_ifs at hu
    · cases hu
      exact hw
    · exact hI.ok j u hu
  · rw [hget] at hu hx
    split_ifs at hu hx with hj hk hk
    · rw [hj, hk]
    · cases hu
      exact absurd (he.trans (hdist k x hk hx he.symm)) hne
    · cases hx
      exact absurd (hdist j u hj hu he) hne
    · exact hI.distinct j k u x hu hx he hne
  · rw [hget]
    split_ifs with hj
    · exact ⟨w, rfl, hself h (hj ▸ hl)⟩
    · exact hI.index h j ((hload h j hj).1 hl)
  · rw [hret] at hl
    have hnew : l ∈ s.lends ++ s.returned ∨ l.buf = i ∧ l.Current w ∧
        l.epoch ≤ w.watch.reclaims := by
      rcases mem_append.1 hl with hl | hl
      · exact (hls l hl).imp_left (mem_append_left _)
      · exact .inl (mem_append_right _ hl)
    rw [hget]
    rcases hnew with hold | ⟨hj, hcur, hep⟩
    · obtain ⟨u, hu, hcur, hep⟩ := hI.loans l hold
      split_ifs with hj
      · obtain ⟨h₁, h₂, -⟩ := hloan u (hj ▸ hu) l hcur hep
        exact ⟨w, rfl, h₁, h₂⟩
      · exact ⟨u, hu, hcur, hep⟩
    · rw [if_pos hj]
      exact ⟨w, rfl, hcur, hep⟩
  · rw [hret] at hl
    rw [hget] at hu
    split_ifs at hu with hj
    · cases hu
      obtain ⟨v, hv, hcur, hep⟩ := hI.loans l (mem_append_right _ hl)
      obtain ⟨hepv, hxa⟩ := (hloan v (hj ▸ hv) l hcur hep).2.2 he
      exact hxa ▸ hI.registered l hl v hv hepv hne
    · exact (hload _ _ hj).2 (hI.registered l hl u hu he hne)

section
variable (hI : Lent s) (hv : s.vmperms[i]? = some v)
include hI hv

theorem Lent.change (hw : w.Ok) (hc : Change v w s.vmpermXa xa') (hls : ∀ l ∈ ls, l ∈ s.lends) :
    Lent { s.put i w with vmpermXa := xa', lends := ls } := by
  cases hc with
  | quiet hhdl hlend hrec =>
    refine hI.replace (getElem?_put s hv w) rfl hw (fun j u hj hu he => ?_) (fun h hl => ?_)
      (fun _ _ _ => .rfl) (fun x hx l hcur hep => ?_) (fun l hl => .inl (hls l hl))
    · by_contra hne
      exact hj (hI.distinct j i u v hu hv (he.trans hhdl) hne)
    · obtain ⟨u, hu, hrest⟩ := hI.index h i hl
      obtain rfl : u = v := Option.some.inj (hu.symm.trans hv)
      rwa [hhdl]
    · obtain rfl : x = v := Option.some.inj (hx.symm.trans hv)
      rw [Lend.Current, hhdl, hlend, hrec]
      exact ⟨hcur, hep, fun he => ⟨he, rfl⟩⟩
  | gone hhdl hrec =>
    have hown : ∀ j, s.vmpermXa.load v.memparcelHdl.toNat = some j → j = i := by
      intro j hl
      obtain ⟨u, hu, hh, hne⟩ := hI.index _ j hl
      exact hI.distinct j i u v hu hv (UInt32.toNat_inj.1 hh) hne
    refine hI.replace (getElem?_put s hv w) rfl hw (fun j u hj hu he => he.trans hhdl)
      (fun h hl => ?_) (fun h j hj => ?_) (fun x hx l hcur hep => ?_)
      (fun l hl => .inl (hls l hl))
    · simp only [XArray.load_erase] at hl
      split_ifs at hl with hh
      obtain ⟨u, hu, hu', -⟩ := hI.index h i hl
      obtain rfl : u = v := Option.some.inj (hu.symm.trans hv)
      exact absurd hu'.symm hh
    · simp only [XArray.load_erase]
      split_ifs with hh
      · exact iff_of_false (by simp) fun hl => hj (hown j (hh ▸ hl))
      · exact .rfl
    · obtain rfl : x = v := Option.some.inj (hx.symm.trans hv)
      rcases hrec with hrec | ⟨hvl, -, hrec⟩
      · exact ⟨fun he => by omega, by omega, fun he => by omega⟩
      · have hno : x.watch.reclaims ≠ l.epoch := fun he => absurd (hcur he).1 (by simp [hvl])
        exact ⟨fun he => absurd (hrec ▸ he) hno, hrec ▸ hep, fun he => absurd (hrec ▸ he) hno⟩

theorem Lent.quiet (hw : w.Ok) (hc : ∀ xa, Change v w xa xa) : Lent (s.put i w) :=
  hI.change hv hw (hc s.vmpermXa) fun _ hl => hl

theorem Lent.lend (hw : w.Ok) (hlend : v.lendshare = false) (hacc : v.accept = false)
    (hwl : w.lendshare = true) (hwh : w.memparcelHdl = hdl)
    (hrec : w.watch.reclaims = v.watch.reclaims)
    (hfresh : hdl ≠ memBufMemparcelInvalid → ∀ u ∈ s.vmperms, u.memparcelHdl ≠ hdl) :
    Lent { s.put i w with lends := ⟨i, hdl, w.watch.reclaims⟩ :: s.lends } := by
  have hvh : v.memparcelHdl = memBufMemparcelInvalid := by
    by_contra hne
    rcases (hI.ok i v hv).hdl hne with h | h
    · simp [hlend] at h
    · simp [hacc] at h
  refine hI.replace (getElem?_put s hv w) rfl hw (fun j u _ hu he => ?_) (fun h hl => ?_)
    (fun _ _ _ => .rfl) (fun x hx l hcur hep => ?_) (fun l hl => ?_)
  · by_contra hne
    rw [hwh] at he
    exact hfresh (he ▸ hne) u (mem_of_getElem? hu) he
  · obtain ⟨u, hu, -, hne⟩ := hI.index h i hl
    obtain rfl : u = v := Option.some.inj (hu.symm.trans hv)
    exact absurd hvh hne
  · -- the buffer was not lent, so that none of its earlier loans is current
    obtain rfl : x = v := Option.some.inj (hx.symm.trans hv)
    have hno : x.watch.reclaims ≠ l.epoch := fun he => absurd (hcur he).1 (by simp [hlend])
    exact ⟨fun he => absurd (hrec ▸ he) hno, hrec ▸ hep, fun he => absurd (hrec ▸ he) hno⟩
  · rcases mem_cons.1 hl with rfl | hl
    · exact .inr ⟨rfl, fun _ => ⟨hwl, hwh⟩, Nat.le_refl _⟩
    · exact .inl hl

end

theorem Lent.register {l : Lend} (hI : Lent s) (hl : l ∈ s.lends)
    (hv : s.vmperms[l.buf]? = some v) (insert : Option Errno) (env : ReclaimEnv) :
    Lent (s.registerHandle currentVmid l v insert env) := by
  have hsub : ∀ k ∈ s.lends.erase l, k ∈ s.lends := fun k hk => mem_of_mem_erase hk
  have hloans : ∀ k ∈ s.lends.erase l ++ l :: s.returned, k ∈ s.lends ++ s.returned := by
    simp only [mem_append, mem_cons]
    rintro k (hk | rfl | hk)
    · exact .inl (hsub k hk)
    · exact .inl hl
    · exact .inr hk
  obtain ⟨u, hu, hcur, -⟩ := hI.loans l (mem_append_left _ hl)
  obtain rfl : u = v := Option.some.inj (hu.symm.trans hv)
  unfold registerHandle
  by_cases hinv : u.memparcelHdl = memBufMemparcelInvalid
  · rw [if_neg (not_not.2 hinv)]
    refine ⟨hI.ok, hI.distinct, hI.index, fun k hk => hI.loans k (hloans k hk),
      fun k hk x hx he hne => ?_⟩
    rcases mem_cons.1 hk with rfl | hk
    · obtain rfl : x = u := Option.some.inj (hx.symm.trans hu)
      exact absurd ((hcur he).2 ▸ hinv) hne
    · exact hI.registered k hk x hx he hne
  · rw [if_pos hinv]
    cases hins : xaInsert s.vmpermXa u.memparcelHdl l.buf insert with
    | error e =>
      have hs : Sound u s.vmpermXa (memBufVmpermTryReclaim currentVmid false env u s.vmpermXa) :=
        sound_tryReclaim (hI.ok l.buf u hu) false env s.vmpermXa
      exact hI.change hu hs.1 hs.2 hsub
    | ok xa' =>
      obtain ⟨hnone, rfl⟩ := xaInsert_eq_ok hins
      refine ⟨hI.ok, hI.distinct, fun h j hload => ?_, fun k hk => hI.loans k (hloans k hk),
        fun k hk x hx he hne => ?_⟩
      · rw [XArray.load_store] at hload
        split_ifs at hload with hh
        · cases hload
          exact ⟨u, hu, hh.symm, hinv⟩
        · exact hI.index h j hload
      · rcases mem_cons.1 hk with rfl | hk
        · obtain rfl : x = u := Option.some.inj (hx.symm.trans hu)
          rw [XArray.load_store, if_pos (congrArg UInt32.toNat (hcur he).2.symm)]
        · exact load_store_of_load hnone (hI.registered k hk x hx he hne)

theorem Lent.append (hI : Lent s) (hw : w.Ok)
    (hself : ∀ h, xa'.load h = some s.vmperms.length →
      w.memparcelHdl.toNat = h ∧ w.memparcelHdl ≠ memBufMemparcelInvalid)
    (hload : ∀ h j, j ≠ s.vmperms.length → (xa'.load h = some j ↔ s.vmpermXa.load h = some j))
    (hfresh : w.memparcelHdl ≠ memBufMemparcelInvalid →
      ∀ u ∈ s.vmperms, u.memparcelHdl ≠ w.memparcelHdl) :
    Lent { s with vmperms := s.vmperms ++ [w], vmpermXa := xa' } := by
  refine hI.replace (i := s.vmperms.length) (fun j => ?_) rfl hw (fun j u _ hu he => ?_) hself hload
    (fun v hv => by simp at hv) fun l hl => .inl hl
  · rcases Nat.lt_trichotomy j s.vmperms.length with hlt | rfl | hgt
    · simp [List.getElem?_append_left hlt, Nat.ne_of_lt hlt]
    · simp
    · rw [if_neg (Nat.ne_of_gt hgt), getElem?_eq_none (Nat.le_of_lt hgt), getElem?_eq_none]
      rw [length_append]
      exact hgt
  · by_contra hne
    exact hfresh (he ▸ hne) u (mem_of_getElem? hu) he

end Steps

/-- A handle that the hypervisor returns is not that of another record. -/
def FreshHandle (s : Bufs) (env : LendEnv) : Prop :=
  match env.assign with
  | .error _ => True
  | .ok hdl => hdl ≠ memBufMemparcelInvalid → ∀ u ∈ s.vmperms, u.memparcelHdl ≠ hdl

/-- The condition on a step: handles are fresh, and a list that shares a pinned buffer and grants
the current VM reading and writing somewhere does so in the last entry that names it. -/
def Disciplined (currentVmid : Vmid) (s : Bufs) : BufEvent → Prop
  | .alloc (.accept _ hdl) _ =>
    hdl ≠ memBufMemparcelInvalid ∧ ∀ u ∈ s.vmperms, u.memparcelHdl ≠ hdl
  | .lend _ _ env => FreshHandle s env
  | .share i arg _ env => FreshHandle s env ∧
      ∀ v ∈ s.vmperms[i]?, v.mapcount ≠ 0 → permits currentVmid arg = true → Grants currentVmid arg
  | _ => True

instance (s : Bufs) (env : LendEnv) : Decidable (FreshHandle s env) :=
  match h : env.assign with
  | .error _ => .isTrue (by simp [FreshHandle, h])
  | .ok hdl => decidable_of_iff (hdl ≠ memBufMemparcelInvalid →
      ∀ u ∈ s.vmperms, u.memparcelHdl ≠ hdl) (by simp [FreshHandle, h])

instance (arg : Acl) : Decidable (Grants currentVmid arg) := inferInstanceAs (Decidable (_ = _))

instance (s : Bufs) (e : BufEvent) : Decidable (Disciplined currentVmid s e) := by
  cases e with
  | alloc k _ => cases k <;> (dsimp only [Disciplined]; infer_instance)
  | _ => dsimp only [Disciplined]; infer_instance

theorem currentPerms_append (arg : Acl) (p : UInt32) :
    currentPerms currentVmid (arg ++ [(currentVmid, p)]) = p := by
  simp [currentPerms]

section
variable {s : Bufs} {i : Nat} (hI : Lent s) (hv : s.vmperms[i]? = some v)
include hI hv

theorem lent_lendInternal {op : UInt32} {env : LendEnv} (hfresh : FreshHandle s env)
    (hpin : validateLendVmids currentVmid arg op = true → v.mapcount ≠ 0 → permits currentVmid arg = true → Grants currentVmid arg) :
    Lent (s.memBufLendInternal currentVmid i v op arg env) := by
  have hspec := lendLocked_spec (hI.ok i v hv) op env hpin
  unfold memBufLendInternal
  cases hr : memBufLendLocked currentVmid op arg env v with
  | mk res w =>
    rw [hr] at hspec
    cases res with
    | error e => exact hI.quiet hv hspec.1 hspec.2
    | ok hdl =>
      obtain ⟨hw, hlend, hacc, hwl, hwh, hrec, hassign⟩ := hspec
      rw [FreshHandle, hassign] at hfresh
      exact hI.lend hv hw hlend hacc hwl hwh hrec hfresh

theorem lent_tryReclaim (fromNotifier : Bool) (env : ReclaimEnv) :
    Lent (s.tryReclaim currentVmid i v fromNotifier env) := by
  have hs : Sound v s.vmpermXa (memBufVmpermTryReclaim currentVmid fromNotifier env v s.vmpermXa) :=
    sound_tryReclaim (hI.ok i v hv) fromNotifier env s.vmpermXa
  exact hI.change hv hs.1 hs.2 fun _ hl => hl

end

theorem lent_alloc {s : Bufs} (hI : Lent s) (hok : Disciplined currentVmid s (.alloc kind insert)) :
    Lent (s.memBufVmpermAlloc currentVmid kind insert) := by
  have hw : (memBufVmpermAllocFlags currentVmid kind).Ok := by
    refine ok_allocFlags fun acl hdl hk => ?_
    subst hk
    exact hok.1
  unfold memBufVmpermAlloc
  split_ifs with hhdl
  · cases hins : xaInsert s.vmpermXa kind.hdl s.vmperms.length insert with
    | error e => exact hI
    | ok xa' =>
      obtain ⟨hnone, rfl⟩ := xaInsert_eq_ok hins
      refine hI.append hw (fun h hl => ?_) (fun h j hj => ⟨fun hl => ?_, load_store_of_load hnone⟩)
        fun _ => ?_
      · rw [XArray.load_store] at hl
        split_ifs at hl with hh
        · exact ⟨hh.symm, hhdl⟩
        · obtain ⟨u, hu, -⟩ := hI.index h _ hl
          simp at hu
      · rw [XArray.load_store] at hl
        split_ifs at hl with hh
        · exact absurd (Option.some.inj hl).symm hj
        · exact hl
      · cases kind with
        | plain | staticvm => exact absurd rfl hhdl
        | accept acl hdl => exact hok.2
  · refine hI.append hw (fun h hl => ?_) (fun h j hj => .rfl) fun hne => absurd hne hhdl
    obtain ⟨u, hu, -⟩ := hI.index h _ hl
    simp at hu

theorem exists_of_opened_map {s t : Bufs} {i : Nat} (h : (s.opened i).map f = some t) :
    ∃ v, s.vmperms[i]? = some v ∧ v.watch.opened = true ∧ t = f v := by
  obtain ⟨v, hv, rfl⟩ := Option.map_eq_some_iff.1 h
  obtain ⟨hmem, hop⟩ := Option.filter_eq_some_iff.1 hv
  exact ⟨v, hmem, by simpa using hop, rfl⟩

theorem exists_of_lookups_map {s t : Bufs} {i : Nat}
    (h : (s.vmperms[i]?.filter (0 < ·.watch.lookups)).map f = some t) :
    ∃ v, s.vmperms[i]? = some v ∧ 0 < v.watch.lookups ∧ t = f v := by
  obtain ⟨v, hv, rfl⟩ := Option.map_eq_some_iff.1 h
  obtain ⟨hmem, hpos⟩ := Option.filter_eq_some_iff.1 hv
  exact ⟨v, hmem, by simpa using hpos, rfl⟩

theorem grants_shareArg (h : permits currentVmid arg = true → Grants currentVmid arg)
    (hper : permits currentVmid (shareArg currentVmid arg) = true) :
    Grants currentVmid (shareArg currentVmid arg) := by
  unfold shareArg at hper ⊢
  split_ifs at hper ⊢
  · exact h hper
  · unfold Grants
    rw [currentPerms_append]
    decide

theorem not_permits_of_lend (hval : validateLendVmids currentVmid arg ghRmTransTypeLend = true) :
    permits currentVmid arg = false := by
  have hno : names currentVmid arg = false := by
    by_contra hn
    simp [validateLendVmids, hn] at hval
  simp only [names, any_eq_false, decide_eq_true_eq] at hno
  simp only [permits, any_eq_false, Bool.and_eq_true, decide_eq_true_eq, not_and]
  exact fun e he hcur => absurd hcur (hno e he)

theorem lent_step {s t : Bufs} {e : BufEvent} (hI : Lent s) (hok : Disciplined currentVmid s e)
    (hs : Bufs.step currentVmid s e = some t) : Lent t := by
  cases e with
  | alloc kind insert =>
    cases hs
    exact lent_alloc hI hok
  | lend i arg env =>
    obtain ⟨v, hv, -, rfl⟩ := exists_of_opened_map hs
    refine lent_lendInternal hI hv hok fun hval _ hper => ?_
    simp [not_permits_of_lend hval] at hper
  | share i arg kmalloc env =>
    obtain ⟨v, hv, -, rfl⟩ := exists_of_opened_map hs
    split_ifs
    · exact lent_lendInternal hI hv hok.1 fun _ hmap => grants_shareArg (hok.2 v hv hmap)
    · exact hI
  | register l insert env =>
    simp only [Bufs.step] at hs
    split_ifs at hs with hl
    obtain ⟨v, hv, rfl⟩ := Option.map_eq_some_iff.1 hs
    exact hI.register hl hv insert env
  | reclaim i unassign =>
    obtain ⟨v, hv, -, rfl⟩ := exists_of_opened_map hs
    unfold memBufReclaim
    split_ifs with hst hlend hacc
    · exact hI
    · exact hI
    · exact hI
    · have hr : Sound v s.vmpermXa (memBufVmpermReclaim currentVmid unassign v s.vmpermXa) :=
        sound_reclaim (hI.ok i v hv) (by simpa using hlend) unassign s.vmpermXa
      exact hI.change hv hr.1 hr.2 fun _ hl => hl
  | pin i =>
    obtain ⟨v, hv, -, rfl⟩ := exists_of_opened_map hs
    exact hI.quiet hv (ok_pin (hI.ok i v hv)) fun _ => .quiet rfl rfl rfl
  | unpin i =>
    obtain ⟨v, hv, -, rfl⟩ := exists_of_opened_map hs
    refine hI.quiet hv (ok_unpin (hI.ok i v hv)) fun _ => ?_
    unfold memBufVmpermUnpin
    split_ifs
    · exact .quiet rfl rfl rfl
    · exact .quiet rfl rfl rfl
  | setDestructor i =>
    obtain ⟨v, hv, -, rfl⟩ := exists_of_opened_map hs
    have hok' := hI.ok i v hv
    exact hI.quiet hv ⟨hok'.refs, hok'.flags, hok'.hdl, hok'.given, hok'.unpinned, hok'.pinned⟩
      fun _ => .quiet rfl rfl rfl
  | close i env =>
    obtain ⟨v, hv, -, rfl⟩ := exists_of_opened_map hs
    exact lent_tryReclaim hI hv false env
  | closePut i =>
    obtain ⟨v, hv, hop, rfl⟩ := exists_of_opened_map hs
    have hok' := hI.ok i v hv
    refine hI.quiet hv ⟨?_, hok'.flags, hok'.hdl, hok'.given, hok'.unpinned, hok'.pinned⟩
      fun _ => .quiet rfl rfl rfl
    have hrefs := hok'.refs
    simp only [hop, Bool.toNat_true, Bool.toNat_false] at hrefs ⊢
    omega
  | notify hdl =>
    cases hs
    unfold vmpermLookup
    split
    · exact hI
    · split
      · exact hI
      · rename_i v hv
        split_ifs
        · exact hI
        · have hok' := hI.ok _ v hv
          refine hI.quiet hv ⟨?_, hok'.flags, hok'.hdl, hok'.given, hok'.unpinned, hok'.pinned⟩
            fun _ => .quiet rfl rfl rfl
          have hrefs := hok'.refs
          simp only
          omega
  | notifierReclaim i env =>
    obtain ⟨v, hv, -, rfl⟩ := exists_of_lookups_map hs
    exact lent_tryReclaim hI hv true env
  | notifierPut i =>
    obtain ⟨v, hv, hpos, rfl⟩ := exists_of_lookups_map hs
    have hok' := hI.ok i v hv
    refine hI.quiet hv ⟨?_, hok'.flags, hok'.hdl, hok'.given, hok'.unpinned, hok'.pinned⟩
      fun _ => .quiet rfl rfl rfl
    have hrefs := hok'.refs
    simp only
    omega

theorem lent_empty : Lent .empty :=
  ⟨fun _ _ h => by simp [empty] at h, fun _ _ _ _ h => by simp [empty] at h,
    fun _ _ h => by simp [empty] at h, fun _ h => absurd h not_mem_nil,
    fun _ h => absurd h not_mem_nil⟩

/-- In every run of disciplined steps: the extra references of a buffer are those of its flags and
error markings, its record is what the hypervisor was last told, the index maps handles to live
buffers that have them and has every loan that was returned with a handle and not reclaimed, and a
pinned buffer keeps the reading and writing permissions it was pinned with. -/
theorem lending_relations_hold {s : Bufs} {es : List BufEvent}
    (hok : Along (Bufs.step currentVmid) (Disciplined currentVmid) .empty es)
    (hrun : run (Bufs.step currentVmid) .empty es = some s) :
    (∀ v ∈ s.vmperms, v.kref = v.watch.opened.toNat + v.watch.lookups +
      (v.lendshare || v.accept).toNat + v.watch.errMarks) ∧
    (∀ v ∈ s.vmperms, v.watch.lastFailed = false → v.acl = v.watch.given) ∧
    (∀ h i, s.vmpermXa.load h = some i → ∃ v, s.vmperms[i]? = some v ∧ 0 < v.kref ∧
      v.memparcelHdl.toNat = h) ∧
    (∀ l ∈ s.returned, l.hdl ≠ memBufMemparcelInvalid → ∃ v, s.vmperms[l.buf]? = some v ∧
      (v.watch.reclaims = l.epoch →
        v.memparcelHdl = l.hdl ∧ s.vmpermXa.load l.hdl.toNat = some l.buf)) ∧
    ∀ v ∈ s.vmperms, v.mapcount ≠ 0 → v.err = false →
      (v.watch.pinRead = true → v.currentVmPerms &&& permRead ≠ 0) ∧
      (v.watch.pinWrite = true → v.currentVmPerms &&& permWrite ≠ 0) := by
  have hI : Lent s := run_invariant (fun _ _ _ hI hok hs => lent_step hI hok hs) lent_empty hok hrun
  have hall : ∀ v ∈ s.vmperms, v.Ok := by
    intro v hv
    obtain ⟨i, hi⟩ := mem_iff_getElem?.1 hv
    exact hI.ok i v hi
  refine ⟨fun v hv => (hall v hv).refs, fun v hv => (hall v hv).given, fun h i hload => ?_,
    fun l hl hne => ?_, fun v hv => (hall v hv).pinned⟩
  · obtain ⟨v, hv, hh, hne⟩ := hI.index h i hload
    have hv' := hI.ok i v hv
    refine ⟨v, hv, ?_, hh⟩
    have hflag : (v.lendshare || v.accept) = true := by simpa using hv'.hdl hne
    have hrefs := hv'.refs
    rw [hflag, Bool.toNat_true] at hrefs
    omega
  · obtain ⟨v, hv, hcur, -⟩ := hI.loans l (mem_append_right _ hl)
    exact ⟨v, hv, fun he => ⟨(hcur he).2, hI.registered l hl v hv he hne⟩⟩

/-! The host pins a buffer and shares it with the trusted VM. -/
section Runs

def sharePinned : List BufEvent :=
  [.alloc .plain none, .pin 0, .share 0 [(vmidTvm, 6)] true ⟨true, .ok 5⟩,
    .register ⟨0, 5, 0⟩ none ⟨none, none, none⟩]

theorem lending_relations_hold_on_share :
    ∃ s, run (Bufs.step vmidHlos) .empty sharePinned = some s ∧ s.vmpermXa.load 5 = some 0 ∧
      ∀ v ∈ s.vmperms, v.mapcount ≠ 0 → v.err = false →
        (v.watch.pinRead = true → v.currentVmPerms &&& permRead ≠ 0) ∧
        (v.watch.pinWrite = true → v.currentVmPerms &&& permWrite ≠ 0) :=
  exists_run_and (by decide) fun _ hrun _ => (lending_relations_hold (by decide) hrun).2.2.2.2

/-- The list grants the host everything first and nothing last: the check looks at the first entry,
the record keeps the last. -/
theorem second_entry_revokes_pinned_buffer :
    ∃ s, run (Bufs.step vmidHlos) .empty [.alloc .plain none, .pin 0,
        .share 0 [(vmidHlos, 7), (vmidTvm, 6), (vmidHlos, 0)] true ⟨true, .ok 5⟩] = some s ∧
      ∃ v ∈ s.vmperms, v.mapcount = 1 ∧ v.err = false ∧ v.watch.pinRead = true ∧
        v.watch.pinWrite = true ∧ v.currentVmPerms = 0 :=
  exists_run_of_map (by decide)

end Runs

end MsmKernel.MemBuf
