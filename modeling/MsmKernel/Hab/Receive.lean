import MsmKernel.Hab.Pipe

/-! `hab_msg_recv` (hab_msg.c) behind the header of a message: which channel it belongs to, what the
handler of its type reads, and what is left in the physical channel. Memory is always granted. -/
namespace MsmKernel.Hab.Receive
open List
open Pipe (habHeaderSizeMax)

def EINVAL : Int := 22
def EIO : Int := 5
def ENODEV : Int := 19

abbrev Byte := BitVec 8

inductive PayloadType where
  | msg
  | init
  | initAck
  | initDone
  | exportDesc
  | exportAck
  | profile
  | close
  | initCancel
  | scheMsg
  | scheMsgAck
  | scheResultReq
  | scheResultRsp
  | importReq
  | importAck
  | importAckFail
  | unimport
  | unknown (code : Nat)
  deriving DecidableEq

def PayloadType.ofCode : Nat → PayloadType
  | 0 => .msg
  | 1 => .init
  | 2 => .initAck
  | 3 => .initDone
  | 4 => .exportDesc
  | 5 => .exportAck
  | 6 => .profile
  | 7 => .close
  | 8 => .initCancel
  | 9 => .scheMsg
  | 10 => .scheMsgAck
  | 11 => .scheResultReq
  | 12 => .scheResultRsp
  | 13 => .importReq
  | 14 => .importAck
  | 15 => .importAckFail
  | 16 => .unimport
  | code => .unknown code

structure HabHeader where
  idType : BitVec 32
  payloadSize : BitVec 32
  sessionId : BitVec 32

def HabHeader.type (h : HabHeader) : PayloadType :=
  .ofCode (((h.idType &&& 0x000F0000) >>> 16) ||| ((h.idType &&& 0x0000000F) <<< 4)).toNat

def HabHeader.vchanId (h : HabHeader) : BitVec 32 := ((h.idType &&& 0xFFF00000) >>> 20) &&& 0x00000FFF

def HabHeader.size (h : HabHeader) : Nat := h.payloadSize.toNat

/- `closedLater` is `otherend_closed` as it is read again after the lookup. -/
structure VirtualChannel where
  id : BitVec 32
  sessionId : BitVec 32
  otherendId : BitVec 32
  otherendClosed : Bool
  closed : Bool
  refcount : Nat
  closedLater : Bool

/- `expTaken` says whether an export id is in the tree of imports already. -/
structure PhysicalChannel where
  vchanIdr : BitVec 32 → Option VirtualChannel
  memProto : Nat
  expTaken : BitVec 32 → Bool

def habVchanGet (pchan : PhysicalChannel) (h : HabHeader) : Option VirtualChannel :=
  match pchan.vchanIdr (h.vchanId &&& 0x00000FFF) with
  | none => none
  | some vchan =>
    if vchan.sessionId ≠ h.sessionId then none
    else if vchan.otherendId = 0 then none
    else if vchan.otherendClosed ∨ vchan.closed then none
    else if vchan.refcount = 0 then none
    else some vchan

inductive Received where
  | nothing
  | dropped
  | message (data : List Byte)
  | openRequest (type : PayloadType) (data : List Byte)
  | openCancel (data : List Byte)
  | exported (data : List Byte)
  | invalidAck (exportId : BitVec 32)
  | exportAck (data : List Byte)
  | close
  | importReq (data : List Byte)
  | importAckFail (data : List Byte)
  | unimport (data : List Byte)
  deriving DecidableEq

structure Result where
  ret : Int
  received : Received
  channel : List Byte
  deriving DecidableEq

def sizeofOpenSendData : Nat := 24
def sizeofExportAck : Nat := 12
def sizeofImportData : Nat := 12
def sizeofXingVmStat : Nat := 32

def expDescSizeExpected : Nat := 88 + 1 + 16
def maxExpPayloadCount : Int := 0xFFFFF

def word (data : List Byte) (i : Nat) : BitVec 32 :=
  data.getD (i + 3) 0 ++ data.getD (i + 2) 0 ++ data.getD (i + 1) 0 ++ data.getD i 0

def habMsgDrop (sizebytes : Nat) (channel : List Byte) : List Byte :=
  if habHeaderSizeMax < sizebytes then channel else channel.drop sizebytes

def habMsgAlloc (sizebytes : Nat) (channel : List Byte) : Result :=
  if habHeaderSizeMax < sizebytes then ⟨0, .nothing, channel⟩
  else ⟨0, .message (channel.take sizebytes), channel.drop sizebytes⟩

def habRecvUnimportMsg (channel : List Byte) : Result :=
  ⟨0, .unimport (channel.take 4), channel.drop 4⟩

def habOpenRequestAdd (type : PayloadType) (sizebytes : Nat) (channel : List Byte) : Result :=
  if (channel.take sizebytes).length ≠ sizebytes then ⟨- EIO, .nothing, channel.drop sizebytes⟩
  else ⟨0, .openRequest type (channel.take sizebytes), channel.drop sizebytes⟩

def habOpenReceiveCancel (sizebytes : Nat) (channel : List Byte) : Result :=
  if (channel.take sizebytes).length ≠ sizebytes then ⟨- EIO, .nothing, channel.drop sizebytes⟩
  else ⟨0, .openCancel (channel.take sizebytes), channel.drop sizebytes⟩

/- The checks of a descriptor that was read. Its number of regions is an `int`, so the bounds by
`SIZE_MAX` hold. -/
def exportDescValid (vchan : VirtualChannel) (data : List Byte) : Bool :=
  let nregions := (word data 96).toInt
  let payloadCount := (word data 84).toInt
  vchan.id = word data 44 && 0 < nregions && nregions ≤ payloadCount &&
    payloadCount ≤ maxExpPayloadCount && (data.length : Int) = expDescSizeExpected + nregions * 8

def habReceiveExportDesc (pchan : PhysicalChannel) (vchan : VirtualChannel) (sizebytes : Nat)
    (channel : List Byte) : Result :=
  if habHeaderSizeMax < sizebytes ∨ sizebytes < expDescSizeExpected then
    ⟨- EINVAL, .nothing, channel⟩
  else
    let data := channel.take sizebytes
    let channel := channel.drop sizebytes
    if data.length ≠ sizebytes then ⟨- EIO, .nothing, channel⟩
    else if exportDescValid vchan data = false then
      ⟨- EINVAL, if pchan.memProto = 1 then .invalidAck (word data 0) else .nothing, channel⟩
    else if pchan.expTaken (word data 0) then
      ⟨- EINVAL, if pchan.memProto = 1 then .invalidAck (word data 0) else .nothing, channel⟩
    else ⟨0, .exported data, channel⟩

/- A longer acknowledgement is not read, a shorter one is read and thrown away. -/
def habReceiveCreateExportAck (sizebytes : Nat) (channel : List Byte) : Result :=
  if sizeofExportAck < sizebytes then ⟨- EINVAL, .nothing, channel⟩
  else
    let data := channel.take sizebytes
    let channel := channel.drop sizebytes
    if data.length ≠ sizebytes then ⟨- EIO, .nothing, channel⟩
    else if sizeofExportAck = sizebytes then ⟨0, .exportAck data, channel⟩
    else ⟨- EINVAL, .nothing, channel⟩

def habRecvImpReq (channel : List Byte) : Result :=
  let data := channel.take sizeofImportData
  let channel := channel.drop sizeofImportData
  if data.length ≠ sizeofImportData then ⟨0, .nothing, channel⟩ else ⟨0, .importReq data, channel⟩

inductive Lookup where
  | returned (r : Result)
  | open
  | found (vchan : VirtualChannel)

def isOpen : PayloadType → Bool
  | .init | .initAck | .initDone | .initCancel => true
  | _ => false

def habTryGetVchan (pchan : PhysicalChannel) (h : HabHeader) (channel : List Byte) : Lookup :=
  let dropped := if h.size ≠ 0 then habMsgDrop h.size channel else channel
  if isOpen h.type = false then
    match habVchanGet pchan h with
    | none =>
      if h.type = .unimport then .returned (habRecvUnimportMsg channel)
      else .returned ⟨- EINVAL, .dropped, dropped⟩
    | some vchan =>
      if vchan.closedLater then .returned ⟨- ENODEV, .dropped, dropped⟩ else .found vchan
  else if h.size ≠ sizeofOpenSendData then .returned ⟨- ENODEV, .dropped, dropped⟩
  else .open

def recvFound (pchan : PhysicalChannel) (vchan : VirtualChannel) (h : HabHeader)
    (channel : List Byte) : Result :=
  match h.type with
  | .msg | .scheResultReq | .scheResultRsp => habMsgAlloc h.size channel
  | .exportDesc | .importAck => habReceiveExportDesc pchan vchan h.size channel
  | .exportAck => habReceiveCreateExportAck h.size channel
  | .close => ⟨0, .close, channel⟩
  | .profile =>
    if h.size < sizeofXingVmStat then ⟨0, .nothing, channel⟩ else habMsgAlloc h.size channel
  | .scheMsg | .scheMsgAck =>
    if h.size < 8 then ⟨0, .nothing, channel⟩ else habMsgAlloc h.size channel
  | .importReq => habRecvImpReq channel
  | .importAckFail => ⟨0, .importAckFail (channel.take 4), channel.drop 4⟩
  | .unimport => habRecvUnimportMsg channel
  | _ => ⟨0, .nothing, channel⟩

def habMsgRecv (pchan : PhysicalChannel) (h : HabHeader) (channel : List Byte) : Result :=
  match habTryGetVchan pchan h channel with
  | .returned r => r
  | .open =>
    if h.type = .initCancel then habOpenReceiveCancel h.size channel
    else habOpenRequestAdd h.type h.size channel
  | .found vchan => recvFound pchan vchan h channel

inductive Addressee where
  | missing
  | closed
  | live
  deriving DecidableEq

def addressee (pchan : PhysicalChannel) (h : HabHeader) : Addressee :=
  match habVchanGet pchan h with
  | none => .missing
  | some vchan => if vchan.closedLater then .closed else .live

/- The sizes for which the handler of a type reads the payload, no more and no less. A handler that
reads a fixed number of bytes may also meet the end of what was sent. -/
def PayloadType.Drains (rest : List Byte) (size : Nat) : PayloadType → Prop
  | .exportDesc | .importAck => size = 0 ∨ expDescSizeExpected ≤ size
  | .exportAck => size ≤ sizeofExportAck
  | .profile => size = 0 ∨ sizeofXingVmStat ≤ size
  | .scheMsg | .scheMsgAck => size = 0 ∨ 8 ≤ size
  | .importReq => size = sizeofImportData ∨ (size < sizeofImportData ∧ rest = [])
  | .importAckFail | .unimport => size = 4 ∨ (size < 4 ∧ rest = [])
  | .close | .unknown _ => size = 0
  | _ => True

/- Messages without an addressee are dropped with their payload, except for `UNIMPORT`. -/
def Drains (pchan : PhysicalChannel) (h : HabHeader) (rest : List Byte) : Prop :=
  (isOpen h.type = false ∧ (addressee pchan h = .live ∨
      (addressee pchan h = .missing ∧ h.type = .unimport))) →
    h.type.Drains rest h.size

section Reads
variable {payload rest : List Byte} {size : Nat}

section
variable (hlen : payload.length = size)
include hlen

theorem drop_iff (k : Nat) :
    (payload ++ rest).drop k = rest ↔ k = size ∨ (size < k ∧ rest = []) := by
  constructor
  · intro h
    have hlength := congrArg List.length h
    rw [length_drop, length_append] at hlength
    by_cases hrest : rest = []
    · subst hrest
      simp only [and_true]
      omega
    · have hpos := length_pos_iff.2 hrest
      exact Or.inl (by omega)
  · rintro (rfl | ⟨hlt, rfl⟩)
    · rw [← hlen, drop_left]
    · rw [append_nil]
      exact drop_eq_nil_of_le (by omega)

theorem keep_iff : payload ++ rest = rest ↔ size = 0 := by
  rw [← hlen, length_eq_zero_iff]
  exact append_left_eq_self

theorem drop_size : (payload ++ rest).drop size = rest := by
  rw [← hlen, drop_left]

theorem channel_msgAlloc (hmax : size ≤ habHeaderSizeMax) :
    (habMsgAlloc size (payload ++ rest)).channel = rest := by
  rw [habMsgAlloc, if_neg (Nat.not_lt.2 hmax)]
  exact drop_size hlen

end

theorem channel_exportDesc (pchan : PhysicalChannel) (vchan : VirtualChannel) (size : Nat)
    (channel : List Byte) (hmax : size ≤ habHeaderSizeMax) :
    (habReceiveExportDesc pchan vchan size channel).channel =
      if size < expDescSizeExpected then channel else channel.drop size := by
  unfold habReceiveExportDesc
  simp only [Nat.not_lt.2 hmax, false_or]
  split_ifs <;> rfl

theorem channel_exportAck (size : Nat) (channel : List Byte) :
    (habReceiveCreateExportAck size channel).channel =
      if sizeofExportAck < size then channel else channel.drop size := by
  unfold habReceiveCreateExportAck
  dsimp only
  split_ifs <;> rfl

theorem channel_impReq (channel : List Byte) :
    (habRecvImpReq channel).channel = channel.drop sizeofImportData := by
  unfold habRecvImpReq
  dsimp only
  split_ifs <;> rfl

theorem ite_channel_iff (hlen : payload.length = size) (c : Prop) [Decidable c] :
    (if c then payload ++ rest else (payload ++ rest).drop size) = rest ↔ size = 0 ∨ ¬ c := by
  split_ifs with hc
  · rw [keep_iff hlen]
    simp [hc]
  · simp [drop_size hlen, hc]

theorem msgAlloc_iff (hlen : payload.length = size) (hmax : size ≤ habHeaderSizeMax) (least : Nat) :
    (if size < least then ⟨0, .nothing, payload ++ rest⟩
      else habMsgAlloc size (payload ++ rest) : Result).channel = rest ↔ size = 0 ∨ least ≤ size := by
  split_ifs with hsmall
  · rw [keep_iff hlen]
    omega
  · exact iff_of_true (channel_msgAlloc hlen hmax) (Or.inr (Nat.le_of_not_lt hsmall))

end Reads

section Framing
variable {pchan : PhysicalChannel} {h : HabHeader} {payload rest : List Byte}

theorem recvFound_iff (vchan : VirtualChannel) (hlen : payload.length = h.size)
    (hmax : h.size ≤ habHeaderSizeMax) (hopen : isOpen h.type = false) :
    (recvFound pchan vchan h (payload ++ rest)).channel = rest ↔ h.type.Drains rest h.size := by
  have halloc : (habMsgAlloc h.size (payload ++ rest)).channel = rest := channel_msgAlloc hlen hmax
  have hexport := channel_exportDesc pchan vchan h.size (payload ++ rest) hmax
  unfold recvFound
  generalize h.type = type at hopen
  cases type with
  | msg | scheResultReq | scheResultRsp => exact iff_of_true halloc trivial
  | exportDesc | importAck =>
    rw [hexport, ite_channel_iff hlen, Nat.not_lt]
    rfl
  | exportAck =>
    rw [channel_exportAck, ite_channel_iff hlen, Nat.not_lt, PayloadType.Drains]
    omega
  | close => exact keep_iff hlen
  | profile | scheMsg | scheMsgAck => exact msgAlloc_iff hlen hmax _
  | importReq =>
    dsimp only [PayloadType.Drains]
    rw [channel_impReq, drop_iff hlen, eq_comm]
  | importAckFail =>
    dsimp only [PayloadType.Drains]
    rw [drop_iff hlen, eq_comm]
  | unimport =>
    dsimp only [PayloadType.Drains, habRecvUnimportMsg]
    rw [drop_iff hlen, eq_comm]
  | unknown code => exact keep_iff hlen
  | _ => exact absurd hopen (by decide)

theorem dropped_eq (hlen : payload.length = h.size) (hmax : h.size ≤ habHeaderSizeMax) :
    (if h.size ≠ 0 then habMsgDrop h.size (payload ++ rest) else payload ++ rest) = rest := by
  split_ifs with hsize
  · rw [habMsgDrop, if_neg (Nat.not_lt.2 hmax), drop_size hlen]
  · exact (keep_iff hlen).2 (not_not.1 hsize)

theorem recv_channel_iff (pchan : PhysicalChannel) (h : HabHeader) (payload rest : List Byte)
    (hlen : payload.length = h.size) (hmax : h.size ≤ habHeaderSizeMax) :
    (habMsgRecv pchan h (payload ++ rest)).channel = rest ↔ Drains pchan h rest := by
  have hdropped : (if h.size ≠ 0 then habMsgDrop h.size (payload ++ rest) else payload ++ rest) =
      rest := dropped_eq hlen hmax
  unfold habMsgRecv habTryGetVchan Drains addressee
  rw [hdropped]
  cases hopen : isOpen h.type with
  | true =>
    refine iff_of_true ?_ (by simp)
    by_cases hsize : h.size = sizeofOpenSendData
    · simp only [Bool.true_eq_false, if_false, hsize, ne_eq, not_true_eq_false]
      rw [hsize] at hlen
      split_ifs
      · unfold habOpenReceiveCancel
        split_ifs <;> exact drop_size hlen
      · unfold habOpenRequestAdd
        split_ifs <;> exact drop_size hlen
    · simp [hsize]
  | false =>
    cases hget : habVchanGet pchan h with
    | none =>
      by_cases htype : h.type = .unimport
      · simp only [htype, if_true, PayloadType.Drains, habRecvUnimportMsg, drop_iff hlen]
        simp [eq_comm]
      · simp [htype]
    | some vchan =>
      cases hclosed : vchan.closedLater with
      | true => simp [hclosed]
      | false => simp [hclosed, recvFound_iff vchan hlen hmax hopen]

end Framing

section Dispatch

def decodeHeader (bytes : List Byte) : HabHeader := ⟨word bytes 0, word bytes 4, word bytes 8⟩

structure Message where
  header : List Byte
  payload : List Byte
  header_length : header.length = 20
  payload_length : payload.length = (decodeHeader header).size
  size_le : (decodeHeader header).size ≤ habHeaderSizeMax

def stream (ms : List Message) : List Byte := ms.flatMap fun m => m.header ++ m.payload

/- The loop of `shmem_physical_channel_rx_dispatch` over bytes that are all there, with the headers
that it reads. The state of the channels is given for each message. -/
def rxDispatch (pchan : Nat → PhysicalChannel) : Nat → Nat → List Byte → List HabHeader
  | 0, _, _ => []
  | fuel + 1, n, channel =>
    if channel.length < 20 then []
    else
      let h := decodeHeader (channel.take 20)
      h :: rxDispatch pchan fuel (n + 1) (habMsgRecv (pchan n) h (channel.drop 20)).channel

def DrainsAll (pchan : Nat → PhysicalChannel) : Nat → List Message → Prop
  | _, [] => True
  | n, m :: ms => Drains (pchan n) (decodeHeader m.header) (stream ms) ∧ DrainsAll pchan (n + 1) ms

theorem rxDispatch_stream (pchan : Nat → PhysicalChannel) (n : Nat) (ms : List Message)
    (h : DrainsAll pchan n ms) :
    rxDispatch pchan ms.length n (stream ms) = ms.map fun m => decodeHeader m.header := by
  induction ms generalizing n with
  | nil => rfl
  | cons m ms ih =>
    have hstream : stream (m :: ms) = m.header ++ (m.payload ++ stream ms) := by
      simp [stream]
    have hlong : ¬ (m.header ++ (m.payload ++ stream ms)).length < 20 := by
      rw [length_append, m.header_length]
      omega
    have hnext := (recv_channel_iff (pchan n) (decodeHeader m.header) m.payload (stream ms)
      m.payload_length m.size_le).2 h.1
    rw [length_cons, hstream, rxDispatch, if_neg hlong, map_cons, ← m.header_length,
      take_left, drop_left]
    dsimp only
    rw [hnext, ih (n + 1) h.2]

/-- For every header with its payload in the channel: `hab_msg_recv` takes exactly the payload if and
only if the handler that gets the message reads its size; while that is so for every message, the
headers that are read are those that were sent. -/
theorem recv_keeps_framing (pchan : PhysicalChannel) (h : HabHeader) (payload rest : List Byte)
    (hlen : payload.length = h.size) (hmax : h.size ≤ habHeaderSizeMax) :
    ((habMsgRecv pchan h (payload ++ rest)).channel = rest ↔ Drains pchan h rest) ∧
      ∀ (pchans : Nat → PhysicalChannel) (ms : List Message), DrainsAll pchans 0 ms →
        rxDispatch pchans ms.length 0 (stream ms) = ms.map fun m => decodeHeader m.header :=
  ⟨recv_channel_iff pchan h payload rest hlen hmax, fun pchans ms => rxDispatch_stream pchans 0 ms⟩

end Dispatch

def livePchan : PhysicalChannel := ⟨fun id => some ⟨id, 1, 5, false, false, 1, false⟩, 0, fun _ => false⟩

def headerOf (code size : Nat) : HabHeader :=
  ⟨0x00100000 ||| (BitVec.ofNat 32 code <<< 16), BitVec.ofNat 32 size, 1⟩

theorem recv_keeps_framing_three :
    (habMsgRecv livePchan (headerOf 0 3) ([1, 2, 3] ++ [9])).channel = [9] :=
  (recv_keeps_framing livePchan (headerOf 0 3) [1, 2, 3] [9] (by decide) (by decide)).1.2
    fun _ => trivial

/-- A `CLOSE` with a payload leaves it in the channel, a short `PROFILE` too, and an `IMPORT` with a
short payload takes bytes of the next message. -/
theorem recv_loses_framing :
    (habMsgRecv livePchan (headerOf 7 2) ([1, 2] ++ [9])).channel = [1, 2, 9] ∧
      (habMsgRecv livePchan (headerOf 6 2) ([1, 2] ++ [9])).channel = [1, 2, 9] ∧
      (habMsgRecv livePchan (headerOf 13 2) ([1, 2] ++ List.replicate 20 9)).channel =
        List.replicate 10 9 := by
  decide

end MsmKernel.Hab.Receive
