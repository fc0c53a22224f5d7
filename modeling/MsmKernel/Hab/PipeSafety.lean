import MsmKernel.Hab.Pipe
import MsmKernel.Lib.Run

/-! The copies of hab_pipe.c stay inside the rings, whatever the other VM writes to the region. -/
namespace MsmKernel.Hab.Pipe
open Run

def Access.InRing (bufSize : BitVec 32) (a : Access) : Prop :=
  ∀ i < a.count, a.index + i < bufSize.toNat

def Machine.InRing (bufSize : BitVec 32) (m : Machine) : Prop :=
  ∀ a ∈ m.accesses, a.InRing bufSize

variable {bufSize index numBytes : BitVec 32} {m : Machine}

theorem memcpy_inRing {count : BitVec 32} (hm : m.InRing bufSize)
    (hcount : index.toNat + count.toNat ≤ bufSize.toNat) : (m.memcpy index count).InRing bufSize := by
  intro a ha
  rcases List.mem_append.1 ha with ha | ha
  · exact hm a ha
  · rw [List.mem_singleton.1 ha]
    intro i hi
    exact Nat.lt_of_lt_of_le (Nat.add_lt_add_left hi _) hcount

theorem firstCount_le (hindex : index < bufSize) :
    index.toNat + (firstCount bufSize index numBytes).toNat ≤ bufSize.toNat := by
  unfold firstCount
  split_ifs <;> bv_omega

theorem firstCount_pos (hindex : index < bufSize) (hbytes : numBytes ≠ 0) :
    0 < firstCount bufSize index numBytes := by
  unfold firstCount
  split_ifs <;> bv_omega

theorem wrapIndex_zero (hleft : 0 < numBytes - firstCount bufSize index numBytes) :
    wrapIndex bufSize (index + firstCount bufSize index numBytes) = 0 := by
  have hfirst : firstCount bufSize index numBytes = bufSize - index := by
    refine if_neg fun hfits => ?_
    rw [firstCount, if_pos hfits, BitVec.sub_self] at hleft
    exact absurd hleft (by decide)
  have hend : index + (bufSize - index) = bufSize := by bv_omega
  rw [hfirst, hend]
  exact if_pos (BitVec.le_refl bufSize)

theorem secondCount_le : (numBytes - firstCount bufSize index numBytes).toNat ≤ numBytes.toNat := by
  unfold firstCount
  split_ifs <;> bv_omega

theorem firstPart_inRing (hm : m.InRing bufSize) (hindex : index < bufSize) (hbytes : numBytes ≠ 0) :
    (m.firstPart bufSize index (firstCount bufSize index numBytes)).2.InRing bufSize ∧
    (0 < numBytes - firstCount bufSize index numBytes →
      (m.firstPart bufSize index (firstCount bufSize index numBytes)).1 = 0) := by
  rw [Machine.firstPart, if_pos (firstCount_pos hindex hbytes)]
  exact ⟨memcpy_inRing hm (firstCount_le hindex), wrapIndex_zero⟩

theorem secondPart_inRing {count2 : BitVec 32} (hm : m.InRing bufSize)
    (hcount : 0 < count2 → index = 0 ∧ count2 ≤ bufSize) :
    (m.secondPart index count2).InRing bufSize := by
  unfold Machine.secondPart
  split_ifs with hpos
  · obtain ⟨rfl, hle⟩ := hcount hpos
    exact memcpy_inRing hm ((Nat.zero_add _).trans_le (BitVec.le_def.1 hle))
  · exact hm

theorem habPipeWrite_inRing {p : Bool} (hm : m.InRing bufSize)
    (hindex : m.contents.txIndex ≠ bufSize) : (habPipeWrite bufSize p numBytes m).2.InRing bufSize := by
  unfold habPipeWrite
  dsimp only
  split_ifs with hcounts hspace hbounds
  · exact hm
  · exact hm
  · exact hm
  · have hlt : m.contents.txIndex < bufSize := by bv_omega
    have hbytes : numBytes ≠ 0 := fun h => hspace (.inr (.inr h))
    have hle : numBytes ≤ bufSize := BitVec.not_lt.1 fun h => hbounds (.inr h)
    have htick : m.tick.tick.tick.InRing bufSize := hm
    obtain ⟨hfirst, hzero⟩ := firstPart_inRing htick hlt hbytes
    exact secondPart_inRing hfirst fun hpos => ⟨hzero hpos, secondCount_le.trans hle⟩

theorem retry_inRing {count1 epRxIndex count2 : BitVec 32} {left : Nat} {head : List (BitVec 8)}
    (hm : m.InRing bufSize) (hfirst : index.toNat + count1.toNat ≤ bufSize.toNat)
    (hsecond : 0 < count2 → epRxIndex - count2 = 0 ∧ count2 ≤ bufSize) :
    (retry index count1 epRxIndex count2 left head m).2.InRing bufSize := by
  induction left generalizing head m with
  | zero =>
    unfold retry
    split_ifs <;> exact hm
  | succ left ih =>
    have hcopied := secondPart_inRing (memcpy_inRing hm hfirst) hsecond
    unfold retry
    dsimp only
    split_ifs
    · exact ih hcopied
    · exact hcopied
    · exact hm

theorem habPipeRead_inRing {p : Option (List (BitVec 8))} {size : BitVec 32} {clear : Bool}
    (hm : m.InRing bufSize) (hsize : size ≤ bufSize) (hindex : m.contents.rxIndex ≠ bufSize) :
    (habPipeRead bufSize p size clear m).2.InRing bufSize := by
  unfold habPipeRead
  dsimp only
  generalize m.tick.contents.rxWrCount - m.tick.tick.contents.rxRdCount = avail
  by_cases hnone : p = none ∨ avail = 0 ∨ size = 0 ∨ bufSize < m.contents.rxIndex
  · rw [if_pos hnone]
    exact hm
  generalize htoRead : (if avail < size then avail else size) = toRead
  have hbytes : toRead ≠ 0 := by
    rw [← htoRead]
    split_ifs
    · exact fun h => hnone (.inr (.inl h))
    · exact fun h => hnone (.inr (.inr (.inl h)))
  have hle : toRead ≤ bufSize := by
    rw [← htoRead]
    split_ifs with havail
    · exact BitVec.le_trans (BitVec.le_of_lt havail) hsize
    · exact hsize
  have hlt : m.contents.rxIndex < bufSize := by
    bv_omega
  have htick : m.tick.tick.tick.InRing bufSize := hm
  obtain ⟨hfirst, hzero⟩ := firstPart_inRing htick hlt hbytes
  have hcount1 : m.contents.rxIndex.toNat + (firstCount bufSize m.contents.rxIndex toRead).toNat ≤
      bufSize.toNat := firstCount_le hlt
  have hcount2 : toRead - firstCount bufSize m.contents.rxIndex toRead ≤ bufSize :=
    BitVec.le_trans secondCount_le hle
  have hsecond := secondPart_inRing hfirst fun hpos => ⟨hzero hpos, hcount2⟩
  split_ifs
  all_goals first
    | exact hsecond
    | exact retry_inRing hsecond hcount1 fun hpos => ⟨by rw [hzero hpos]; simp, hcount2⟩

theorem habPipeWrite_region (bufSize : BitVec 32) (p : Bool) (numBytes : BitVec 32) (m : Machine) :
    (habPipeWrite bufSize p numBytes m).2.region = m.region := by
  unfold habPipeWrite Machine.secondPart Machine.firstPart
  dsimp only
  split_ifs <;> rfl

/-- A send reads the index twice: for its header behind the two counts, and for its payload behind the
three reads of the first write and its copies. -/
theorem shmemPhysicalChannelSend_inRing {sizebytes : BitVec 32} {payload profile : Bool}
    (hm : m.InRing pipeShmemSize) (hindex : ∀ k, (m.region k).txIndex ≠ pipeShmemSize) :
    (shmemPhysicalChannelSend sizebytes payload profile m).2.InRing pipeShmemSize := by
  have hhead : (habPipeWrite pipeShmemSize true sizeofHeader m.tick.tick).2.InRing pipeShmemSize :=
    habPipeWrite_inRing hm (hindex _)
  have hregion : (habPipeWrite pipeShmemSize true sizeofHeader m.tick.tick).2.region = m.region :=
    habPipeWrite_region ..
  have hbody : (habPipeWrite pipeShmemSize payload sizebytes
      (habPipeWrite pipeShmemSize true sizeofHeader m.tick.tick).2).2.InRing pipeShmemSize := by
    refine habPipeWrite_inRing hhead ?_
    rw [Machine.contents, hregion]
    exact hindex _
  unfold shmemPhysicalChannelSend
  dsimp only
  split_ifs
  · exact hm
  · exact hm
  · exact hhead
  · exact hhead
  · exact hhead
  · exact hbody
  · exact hbody

inductive Call where
  | write (p : Bool) (numBytes : BitVec 32)
  | read (p : Option (List (BitVec 8))) (size : BitVec 32) (clear : Bool)

def step (m : Machine) : Call → Option Machine
  | .write p numBytes => some (habPipeWrite pipeShmemSize p numBytes m).2
  | .read p size clear => some (habPipeRead pipeShmemSize p size clear m).2

def requestMax : Nat := habHeaderSizeMax + sizeofHeader.toNat

/- A call asks for at most a message with its header, and the index that it reads is not the size of the
ring. -/
def IndexOk (m : Machine) : Call → Prop
  | .write _ numBytes => numBytes.toNat ≤ requestMax ∧ m.contents.txIndex ≠ pipeShmemSize
  | .read _ size _ => size.toNat ≤ requestMax ∧ m.contents.rxIndex ≠ pipeShmemSize

instance (m : Machine) (call : Call) : Decidable (IndexOk m call) := by
  unfold IndexOk
  split <;> infer_instance

theorem step_inRing {m' : Machine} {call : Call} (hm : m.InRing pipeShmemSize)
    (hok : IndexOk m call) (hstep : step m call = some m') : m'.InRing pipeShmemSize := by
  cases call with
  | write p numBytes =>
    cases hstep
    exact habPipeWrite_inRing hm hok.2
  | read p size clear =>
    cases hstep
    have hsize : size ≤ pipeShmemSize := BitVec.le_def.2 (hok.1.trans (by decide))
    exact habPipeRead_inRing hm hsize hok.2

def stillRegion (index count : BitVec 32) (_ : Nat) : Shared where
  txWrCount := 0
  txIndex := index
  rxIndex := index
  txRdCount := 0
  rxRdCount := 0
  rxWrCount := count
  rxSize := pipeShmemSize
  rxData _ := 0

theorem shmem_send_at_end :
    (shmemPhysicalChannelSend 20 true false ⟨stillRegion 524280 20, 0, [], false⟩).2.InRing
      pipeShmemSize :=
  shmemPhysicalChannelSend_inRing (fun _ ha => (List.not_mem_nil ha).elim)
    fun _ => show (524280 : BitVec 32) ≠ pipeShmemSize by decide

def bothCalls : List Call := [.write true 20, .read (some []) 20 false]

end MsmKernel.Hab.Pipe
