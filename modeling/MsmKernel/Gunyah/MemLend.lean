import Mathlib

/-! Lending memory to another VM (gh_rm_iface.c): a list of any length goes to the resource manager
in one initial request and appends, and a handle that cannot be completed is reclaimed. -/
namespace MsmKernel.Gunyah.Mem

def GH_RM_MEM_TYPE_NORMAL : UInt8 := 0
def GH_RM_MEM_TYPE_IO : UInt8 := 1
def GH_RM_MEM_LEND_APPEND : UInt8 := 2
def GH_RM_MEM_APPEND_END : UInt8 := 1
def GH_RM_MEM_APPEND_VALID_FLAGS : UInt8 := GH_RM_MEM_APPEND_END
def GH_RM_MEM_MAX_SGL_ENTRIES : Nat := 512

def EINVAL : Int := 22
def ENOMEM : Int := 12

inductive ShareFn
  | lend | share | donate

/- The SANITIZE flag of each call. -/
def ShareFn.validFlags : ShareFn → UInt8
  | .lend | .share | .donate => 1

structure AclEntry where
  vmid : UInt16
  perms : UInt8

structure SglEntry where
  ipaBase : UInt64
  size : UInt64

structure MemAttrEntry where
  attr : UInt16
  vmid : UInt16

inductive RmCall
  | memShare (fn : ShareFn) (memType flags : UInt8) (label : UInt32) (acl : List AclEntry)
    (sgl : List SglEntry) (attrs : List MemAttrEntry)
  | memAppend (handle : UInt32) (flags : UInt8) (sgl : List SglEntry)
  | memReclaim (handle : UInt32) (flags : UInt8)

/- The outcomes that may differ from call to call, given the calls made before: an allocation, and
the return value, the reply's size and the handle in a reply of a handle's size. -/
structure Env where
  kmalloc : List RmCall → Bool
  ghRmCall : List RmCall → RmCall → Int × Nat × UInt32

/- What an append returns for a reply, which has to be empty. -/
def appendRet (reply : Int × Nat × UInt32) : Int :=
  if reply.1 ≠ 0 then reply.1 else if reply.2.1 ≠ 0 then -EINVAL else 0

def ghRmMemAppend (env : Env) (calls : List RmCall) (handle : UInt32) (flags : UInt8)
    (sgl : List SglEntry) : Int × List RmCall :=
  if flags &&& ~~~GH_RM_MEM_APPEND_VALID_FLAGS ≠ 0 ∨ sgl.length > GH_RM_MEM_MAX_SGL_ENTRIES then
    (-EINVAL, calls)
  else if env.kmalloc calls = false then (-ENOMEM, calls)
  else
    let call := .memAppend handle flags sgl
    (appendRet (env.ghRmCall calls call), calls ++ [call])

/- Indices are of 32 bits. -/
def nextIdx (n idx : Nat) : Nat := min ((idx + GH_RM_MEM_MAX_SGL_ENTRIES) % 2 ^ 32) n

/- The loop over the entries from `idx` on; `none` if the fuel runs out. -/
def appendLoop (env : Env) (handle : UInt32) (sgl : List SglEntry) :
    Nat → Nat → List RmCall → Option (Int × List RmCall)
  | 0, _, _ => none
  | fuel + 1, idx, calls =>
    if idx < sgl.length then
      let next := nextIdx sgl.length idx
      let appendFlags := if next = sgl.length then GH_RM_MEM_APPEND_END else 0
      let (ret, calls) :=
        ghRmMemAppend env calls handle appendFlags ((sgl.drop idx).take (next - idx))
      if ret ≠ 0 then some (ret, calls) else appendLoop env handle sgl fuel next calls
    else some (0, calls)

/- The initial request, the appends from `idx` on, and the reclaim of a handle that they cannot
complete. The result is the return value, `*handle` and the calls made. -/
def sendRequests (env : Env) (call : RmCall) (sgl : List SglEntry) (idx : Nat)
    (handle : Option UInt32) : Option (Int × Option UInt32 × List RmCall) :=
  match env.ghRmCall [] call with
  | (ret, respPayloadSize, memparcelHandle) =>
    if ret ≠ 0 then some (ret, handle, [call])
    else if respPayloadSize ≠ 4 then some (-EINVAL, handle, [call])
    else
      match appendLoop env memparcelHandle sgl (sgl.length + 1) idx [call] with
      | none => none
      | some (ret, calls) =>
        if ret ≠ 0 then some (ret, handle, calls ++ [.memReclaim memparcelHandle 0])
        else some (0, some memparcelHandle, calls)

/- The flags and the number of entries of the initial request. -/
def initialCut (flags : UInt8) (n : Nat) : UInt8 × Nat :=
  if n > GH_RM_MEM_MAX_SGL_ENTRIES then (flags ||| GH_RM_MEM_LEND_APPEND, GH_RM_MEM_MAX_SGL_ENTRIES)
  else (flags, n)

/- Descriptors and `handle` may be NULL. -/
def ghRmMemShareLendHelper (env : Env) (fn : ShareFn) (memType flags : UInt8) (label : UInt32)
    (aclDesc : Option (List AclEntry)) (sglDesc : Option (List SglEntry))
    (memAttrDesc : Option (List MemAttrEntry)) (handle : Option UInt32) :
    Option (Int × Option UInt32 × List RmCall) :=
  match aclDesc, sglDesc, handle with
  | some acl, some sgl, some _ =>
    if memType ≠ GH_RM_MEM_TYPE_NORMAL ∧ memType ≠ GH_RM_MEM_TYPE_IO ∨
        flags &&& ~~~fn.validFlags ≠ 0 ∨ acl.isEmpty ∨ sgl.isEmpty ∨
        memAttrDesc.any List.isEmpty then
      some (-EINVAL, handle, [])
    else if env.kmalloc [] = false then some (-ENOMEM, handle, [])
    else
      let (flags, reqSglEntries) := initialCut flags sgl.length
      -- gh_rm_populate_sgl_desc
      let sent := sgl.take (min GH_RM_MEM_MAX_SGL_ENTRIES sgl.length)
      sendRequests env (.memShare fn memType flags label acl sent (memAttrDesc.getD [])) sgl
        reqSglEntries handle
  | _, _, _ => some (-EINVAL, handle, [])

/-- Appends of at most 512 entries that carry a list in order, marked as the end where nothing is
left to append. -/
inductive Appended (handle : UInt32) : List SglEntry → List RmCall → Prop
  | none : Appended handle [] []
  | more {sgl rest : List SglEntry} {flags : UInt8} {calls : List RmCall} : sgl ≠ [] →
      sgl.length ≤ 512 → flags = (if rest.isEmpty then GH_RM_MEM_APPEND_END else 0) →
      Appended handle rest calls →
      Appended handle (sgl ++ rest) (.memAppend handle flags sgl :: calls)

def RmCall.isReclaim : RmCall → Bool
  | .memReclaim _ _ => true
  | _ => false

/- The handle that the resource manager has created in answer to the first call. -/
def created (env : Env) : List RmCall → Option UInt32
  | [] => none
  | call :: _ =>
    match env.ghRmCall [] call with
    | (0, 4, handle) => some handle
    | _ => none

/-- The initial request `call` is made, the entries `rest` are appended, and the handle is stored. -/
def Sent (env : Env) (call : RmCall) (rest : List SglEntry) (out : Option UInt32)
    (calls : List RmCall) : Prop :=
  ∃ handle appends, calls = call :: appends ∧ Appended handle rest appends ∧
    created env calls = some handle ∧ out = some handle

/-- The handle that was created, if any, is passed to reclaim once, and `*handle` is as before. -/
def Undone (env : Env) (handle out : Option UInt32) (calls : List RmCall) : Prop :=
  out = handle ∧ calls.filter RmCall.isReclaim =
    (created env calls).toList.map fun h => .memReclaim h 0

variable {env : Env} {sgl : List SglEntry}

theorem initialCut_spec {fn : ShareFn} {flags : UInt8} (hflags : flags &&& ~~~fn.validFlags = 0)
    (sgl : List SglEntry) : (initialCut flags sgl.length).2 ≤ sgl.length ∧
      sgl.drop (initialCut flags sgl.length).2 = sgl.drop 512 ∧
      ((initialCut flags sgl.length).1 &&& GH_RM_MEM_LEND_APPEND ≠ 0 ↔ 512 < sgl.length) := by
  simp only [initialCut]
  split_ifs with hlong
  · refine ⟨Nat.le_of_lt hlong, rfl, iff_of_true ?_ hlong⟩
    have habsorb : (flags ||| GH_RM_MEM_LEND_APPEND) &&& GH_RM_MEM_LEND_APPEND =
        GH_RM_MEM_LEND_APPEND := by
      rw [UInt8.eq_iff_toBitVec_eq, UInt8.toBitVec_and, UInt8.toBitVec_or]
      ext i
      simp only [BitVec.getElem_and, BitVec.getElem_or, Bool.and_eq_right_iff_imp, Bool.or_eq_true]
      exact .inr
    rw [habsorb]
    decide
  · have hshort : sgl.length ≤ 512 := Nat.le_of_not_lt hlong
    refine ⟨Nat.le_refl _, ?_, iff_of_false (not_not.2 ?_) hlong⟩
    · rw [List.drop_length, List.drop_eq_nil_of_le hshort]
    · have hpart : ~~~fn.validFlags &&& GH_RM_MEM_LEND_APPEND = GH_RM_MEM_LEND_APPEND := by
        cases fn <;> rfl
      rw [← hpart, ← UInt8.and_assoc, hflags, UInt8.zero_and]

theorem appendLoop_spec {handle : UInt32} (hn : sgl.length < 2 ^ 31) {fuel idx : Nat}
    (hidx : idx ≤ sgl.length) (hfuel : sgl.length - idx < fuel) (calls : List RmCall) :
    ∃ ret sent, appendLoop env handle sgl fuel idx calls = some (ret, calls ++ sent) ∧
      (ret = 0 → Appended handle (sgl.drop idx) sent) ∧ sent.filter RmCall.isReclaim = [] := by
  induction fuel generalizing idx calls with
  | zero => omega
  | succ fuel ih =>
    by_cases hmore : idx < sgl.length
    · obtain ⟨next, hdef⟩ : ∃ next, next = nextIdx sgl.length idx := ⟨_, rfl⟩
      have hnext : next = min (idx + 512) sgl.length := by
        rw [hdef, nextIdx, GH_RM_MEM_MAX_SGL_ENTRIES, Nat.mod_eq_of_lt (by omega)]
      obtain ⟨chunk, hchunk⟩ : ∃ chunk, chunk = (sgl.drop idx).take (next - idx) := ⟨_, rfl⟩
      have hlen : chunk.length = next - idx := by
        rw [hchunk, List.length_take, List.length_drop]
        omega
      have hrest : sgl.drop idx = chunk ++ sgl.drop next := by
        have hdrop : (sgl.drop idx).drop (next - idx) = sgl.drop next := by
          rw [List.drop_drop, Nat.add_sub_cancel' (by omega)]
        rw [hchunk, ← hdrop, List.take_append_drop]
      obtain ⟨flags, hflags⟩ : ∃ flags, flags =
          if next = sgl.length then GH_RM_MEM_APPEND_END else 0 := ⟨_, rfl⟩
      have hend : flags = if (sgl.drop next).isEmpty then GH_RM_MEM_APPEND_END else 0 := by
        simp only [hflags, List.isEmpty_iff, List.drop_eq_nil_iff]
        exact if_congr (by omega) rfl rfl
      have hvalid : ¬ (flags &&& ~~~GH_RM_MEM_APPEND_VALID_FLAGS ≠ 0 ∨
          chunk.length > GH_RM_MEM_MAX_SGL_ENTRIES) := by
        rw [not_or, not_not, GH_RM_MEM_MAX_SGL_ENTRIES]
        refine ⟨?_, by omega⟩
        rw [hflags]
        split_ifs <;> decide
      simp only [appendLoop, if_pos hmore, ← hdef, ← hflags, ← hchunk, ghRmMemAppend, if_neg hvalid]
      by_cases halloc : env.kmalloc calls = false
      · exact ⟨-ENOMEM, [], by simp [halloc, ENOMEM], fun hok => absurd hok (by decide), rfl⟩
      · rw [if_neg halloc]
        generalize appendRet _ = ret
        by_cases hret : ret = 0
        · obtain ⟨ret', sent, hloop, hsent, hno⟩ := ih (show next ≤ _ by omega) (by omega)
            (calls ++ [.memAppend handle flags chunk])
          refine ⟨ret', .memAppend handle flags chunk :: sent, ?_, fun hok => ?_, hno⟩
          · simp [hret, hloop]
          · rw [hrest]
            exact .more (List.ne_nil_of_length_pos (by omega)) (by omega) hend (hsent hok)
        · exact ⟨ret, [.memAppend handle flags chunk], by simp [hret],
            fun hok => absurd hok hret, rfl⟩
    · refine ⟨0, [], by simp [appendLoop, hmore], fun _ => ?_, rfl⟩
      rw [List.drop_eq_nil_of_le (by omega)]
      exact .none

theorem sendRequests_spec {call : RmCall} (hcall : call.isReclaim = false) (hn : sgl.length < 2 ^ 31)
    {idx : Nat} (hidx : idx ≤ sgl.length) (handle : Option UInt32) :
    ∃ ret out calls, sendRequests env call sgl idx handle = some (ret, out, calls) ∧
      (ret = 0 → Sent env call (sgl.drop idx) out calls) ∧ (ret ≠ 0 → Undone env handle out calls) := by
  obtain ⟨ret, size, mp, hreply⟩ : ∃ ret size mp, env.ghRmCall [] call = (ret, size, mp) :=
    ⟨_, _, _, rfl⟩
  simp only [sendRequests, hreply]
  split_ifs with hret hsize
  · exact ⟨_, _, _, rfl, fun h => absurd h hret, fun _ => ⟨rfl, by simp [created, hreply, hret, hcall]⟩⟩
  · exact ⟨_, _, _, rfl, fun h => absurd h (by decide), fun _ =>
      ⟨rfl, by simp [created, hreply, hsize, hcall]⟩⟩
  · rw [not_not] at hret hsize
    have hcreated (calls : List RmCall) : created env (call :: calls) = some mp := by
      simp [created, hreply, hret, hsize]
    obtain ⟨ret', sent, hloop, hsent, hno⟩ := @appendLoop_spec env sgl mp hn _ _ hidx
      (Nat.lt_succ_of_le (Nat.sub_le ..)) [call]
    rw [hloop]
    by_cases hret' : ret' = 0
    · exact ⟨0, some mp, call :: sent, by simp [hret'], fun _ =>
        ⟨mp, sent, rfl, hsent hret', hcreated sent, rfl⟩, fun h => absurd rfl h⟩
    · refine ⟨ret', handle, call :: (sent ++ [.memReclaim mp 0]), by simp [hret'],
        fun h => absurd h hret', fun _ => ⟨rfl, ?_⟩⟩
      rw [hcreated, List.filter_cons_of_neg (by simp [hcall]), List.filter_append, hno]
      rfl

def granting : Env where
  kmalloc _ := true
  ghRmCall
    | _, .memShare .. => (0, 4, 5)
    | _, _ => (0, 0, 0)

end MsmKernel.Gunyah.Mem
