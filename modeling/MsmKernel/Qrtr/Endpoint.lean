import MsmKernel.Qrtr.Gunyah

/-! `qrtr_endpoint_post` of af_qrtr.c: the checks that a received buffer passes and the datagram
it becomes, compared with `qrtr_peek_pkt_size`, by which transports cut their stream. -/
namespace MsmKernel.Qrtr.Endpoint
open MsmKernel Gunyah

def ENOMEM : Int := 12
def ENODEV : Int := 19

def QRTR_TYPE_DATA : Nat := 1
def QRTR_TYPE_NEW_SERVER : Nat := 4
def QRTR_TYPE_RESUME_TX : Nat := 7

def qrtrTypes : List Nat := [1, 2, 3, 4, 5, 6, 7, 8, 9, 10, 11, 13]

def QRTR_PORT_CTRL : Nat := 0xfffffffe
def QRTR_PORT_CTRL_LEGACY : Nat := 0xffff

def ctrlPktSize : Nat := 20

structure QrtrCb where
  srcNode : Nat
  srcPort : Nat
  dstNode : Nat
  dstPort : Nat
  type : Nat
  confirmRx : Bool
  deriving DecidableEq

def le16ToCpu (data : List UInt8) (i : Nat) : Nat :=
  (byteAt data i).toNat + 256 * (byteAt data (i + 1)).toNat

/- A 16-bit control port stands for the control port. -/
def portV2 (port : Nat) : Nat := if port = 0xfffe then QRTR_PORT_CTRL else port

def portLegacy (port : Nat) : Nat := if port = QRTR_PORT_CTRL_LEGACY then QRTR_PORT_CTRL else port

def decodeHeader (data : List UInt8) : Option (Nat × QrtrCb × Nat) :=
  if byteAt data 0 = QRTR_PROTO_VER_1 then
    if data.length < 32 then none
    else
      some (32,
        { srcNode := le32ToCpu data 8
          srcPort := le32ToCpu data 12
          dstNode := le32ToCpu data 24
          dstPort := portLegacy (le32ToCpu data 28)
          type := le32ToCpu data 4 % 256
          confirmRx := le32ToCpu data 16 ≠ 0 },
        le32ToCpu data 20)
  else if byteAt data 0 = QRTR_PROTO_VER_2 then
    if data.length < 16 then none
    else
      some (16 + (byteAt data 3).toNat,
        { srcNode := le16ToCpu data 8
          srcPort := portV2 (le16ToCpu data 10)
          dstNode := le16ToCpu data 12
          dstPort := portLegacy (portV2 (le16ToCpu data 14))
          type := (byteAt data 1).toNat
          confirmRx := (byteAt data 2).toNat % 2 = 1 },
        le32ToCpu data 4)
  else none

def alignWord (size : Nat) : Nat := (size + 3) / 4 * 4

structure Env where
  allocates : Bool
  localNid : Nat
  portLookup : Nat → Bool
  sockQueueRcv : Bool

inductive Queue where
  | rxQueue
  | socket (port : Nat)
  deriving DecidableEq

structure Datagram where
  cb : QrtrCb
  payload : List UInt8
  queue : Queue
  deriving DecidableEq

def typeChecked (cb : QrtrCb) (size : Nat) : Bool :=
  !((cb.type = QRTR_TYPE_NEW_SERVER || cb.type = QRTR_TYPE_RESUME_TX) && size < ctrlPktSize) &&
    !(cb.dstPort ≠ QRTR_PORT_CTRL && cb.type ≠ QRTR_TYPE_DATA && cb.type ≠ QRTR_TYPE_RESUME_TX)

def deliver (env : Env) (cb : QrtrCb) (payload : List UInt8) : Except Int Datagram :=
  if cb.type ≠ QRTR_TYPE_DATA ∨ cb.dstNode ≠ env.localNid then .ok ⟨cb, payload, .rxQueue⟩
  else if env.portLookup cb.dstPort = false then .error (- ENODEV)
  else if env.sockQueueRcv = false then .error (- EINVAL)
  else .ok ⟨cb, payload, .socket cb.dstPort⟩

def qrtrEndpointPost (env : Env) (data : List UInt8) : Except Int Datagram :=
  if data.length = 0 ∨ data.length % 4 ≠ 0 then .error (- EINVAL)
  else if env.allocates = false then .error (- ENOMEM)
  else
    match decodeHeader data with
    | none => .error (- EINVAL)
    | some (hdrlen, cb, size) =>
      if size = 0 ∨ data.length ≠ alignWord size + hdrlen then .error (- EINVAL)
      else if typeChecked cb size = false then .error (- EINVAL)
      else deliver env cb ((data.drop hdrlen).take size)

/- The length that the header gives over the integers, and the type field in full. -/
def trueLength (data : List UInt8) : Nat :=
  if byteAt data 0 = QRTR_PROTO_VER_1 then alignWord (le32ToCpu data 20) + 32
  else alignWord (le32ToCpu data 4) + (16 + (byteAt data 3).toNat)

def typeField (data : List UInt8) : Nat :=
  if byteAt data 0 = QRTR_PROTO_VER_1 then le32ToCpu data 4 else (byteAt data 1).toNat

/- The claim on one buffer: what the peek says is the length or beyond the bound of the transport,
and what the endpoint accepts has that length and a known type. -/
def Agrees (data : List UInt8) : Prop :=
  (0 < qrtrPeekPktSize data →
    qrtrPeekPktSize data = trueLength data ∨ (MAX_PKT_SZ : Int) < qrtrPeekPktSize data) ∧
  ∀ env d, qrtrEndpointPost env data = .ok d →
    data.length = trueLength data ∧ typeField data ∈ qrtrTypes

def Passes (data : List UInt8) : Prop :=
  data.length % 4 = 0 ∧ ∃ hdrlen cb size, decodeHeader data = some (hdrlen, cb, size) ∧
    size ≠ 0 ∧ data.length = alignWord size + hdrlen ∧ typeChecked cb size = true

theorem byteAt_lt (data : List UInt8) (i : Nat) : (byteAt data i).toNat < 256 :=
  UInt8.toNat_lt _

theorem le32ToCpu_lt (data : List UInt8) (i : Nat) : le32ToCpu data i < 2 ^ 32 := by
  have h0 := byteAt_lt data i
  have h1 := byteAt_lt data (i + 1)
  have h2 := byteAt_lt data (i + 2)
  have h3 := byteAt_lt data (i + 3)
  unfold le32ToCpu
  omega

theorem align4_add (size hdrlen : Nat) (hsize : size < 2 ^ 32) :
    (align4 size + hdrlen) % 2 ^ 32 = (alignWord size + hdrlen) % 2 ^ 32 := by
  unfold align4 alignWord
  rcases Nat.lt_or_ge (size + 3) (2 ^ 32) with hlt | hge
  · rw [Nat.mod_eq_of_lt hlt]
  · have hmod : (size + 3) % 2 ^ 32 = size + 3 - 2 ^ 32 := by omega
    omega

theorem peek_eq (data : List UInt8)
    (hver : byteAt data 0 = QRTR_PROTO_VER_1 ∨ byteAt data 0 = QRTR_PROTO_VER_2) :
    qrtrPeekPktSize data = toInt (trueLength data % 2 ^ 32) := by
  unfold qrtrPeekPktSize trueLength
  rcases hver with hver | hver
  · rw [if_pos hver, if_pos hver, align4_add _ _ (le32ToCpu_lt data 20)]
  · have hne : byteAt data 0 ≠ QRTR_PROTO_VER_1 := by
      rw [hver]
      decide
    rw [if_neg hne, if_pos hver, if_neg hne, align4_add _ _ (le32ToCpu_lt data 4)]

theorem trueLength_lt (data : List UInt8) : trueLength data ≤ 2 ^ 32 + 271 := by
  have h1 := le32ToCpu_lt data 20
  have h2 := le32ToCpu_lt data 4
  have h3 := byteAt_lt data 3
  unfold trueLength alignWord
  split_ifs <;> omega

theorem peek_agrees_iff (data : List UInt8) :
    (0 < qrtrPeekPktSize data →
        qrtrPeekPktSize data = trueLength data ∨ (MAX_PKT_SZ : Int) < qrtrPeekPktSize data) ↔
      ((byteAt data 0 = QRTR_PROTO_VER_1 ∨ byteAt data 0 = QRTR_PROTO_VER_2) →
        trueLength data ≤ 2 ^ 32) := by
  by_cases hver : byteAt data 0 = QRTR_PROTO_VER_1 ∨ byteAt data 0 = QRTR_PROTO_VER_2
  · have hlen := trueLength_lt data
    rw [peek_eq data hver]
    simp only [hver, true_implies, MAX_PKT_SZ, toInt]
    split_ifs <;> omega
  · simp only [hver, false_implies, iff_true]
    simp only [not_or] at hver
    intro hpos
    rw [qrtrPeekPktSize, if_neg hver.1, if_neg hver.2] at hpos
    exact absurd hpos (by decide)

variable {data : List UInt8} {hdrlen size : Nat} {cb : QrtrCb}

theorem decodeHeader_fields (h : decodeHeader data = some (hdrlen, cb, size)) :
    alignWord size + hdrlen = trueLength data ∧ cb.type = typeField data % 256 := by
  unfold decodeHeader at h
  have hbyte := byteAt_lt data 1
  split_ifs at h with hver hlen hver2 hlen2
  · simp only [Option.some.injEq, Prod.mk.injEq] at h
    obtain ⟨rfl, rfl, rfl⟩ := h
    simp [trueLength, typeField, hver]
  · simp only [Option.some.injEq, Prod.mk.injEq] at h
    obtain ⟨rfl, rfl, rfl⟩ := h
    simp [trueLength, typeField, hver, Nat.mod_eq_of_lt hbyte]

theorem passes_of_post {env : Env} {d : Datagram} (h : qrtrEndpointPost env data = .ok d) :
    Passes data := by
  unfold qrtrEndpointPost at h
  split_ifs at h with hlen halloc
  cases hdec : decodeHeader data with
  | none =>
    rw [hdec] at h
    exact absurd h (by simp)
  | some r =>
    obtain ⟨hdrlen, cb, size⟩ := r
    rw [hdec] at h
    dsimp only at h
    split_ifs at h with hsize htype
    simp only [not_or, not_not] at hlen hsize
    exact ⟨hlen.2, hdrlen, cb, size, hdec, hsize.1, hsize.2, by simpa using htype⟩

def openEnv (localNid : Nat) : Env := ⟨true, localNid, fun _ => true, true⟩

/-- An open endpoint accepts every buffer that passes and takes the bytes its header announces. -/
theorem post_of_passes (localNid : Nat) (hlen : data.length % 4 = 0)
    (hdec : decodeHeader data = some (hdrlen, cb, size)) (hsize : size ≠ 0)
    (hlength : data.length = alignWord size + hdrlen) (htype : typeChecked cb size = true) :
    ∃ queue, qrtrEndpointPost (openEnv localNid) data =
      .ok ⟨cb, (data.drop hdrlen).take size, queue⟩ := by
  have hpos : ¬ (data.length = 0 ∨ data.length % 4 ≠ 0) := by
    unfold alignWord at hlength
    omega
  have hfits : ¬ (size = 0 ∨ data.length ≠ alignWord size + hdrlen) := by
    simp [hsize, hlength]
  simp only [qrtrEndpointPost, if_neg hpos, hdec, if_neg hfits, htype, deliver, openEnv]
  by_cases hqueue : cb.type ≠ QRTR_TYPE_DATA ∨ cb.dstNode ≠ localNid
  · exact ⟨.rxQueue, by simp [hqueue]⟩
  · exact ⟨.socket cb.dstPort, by simp [hqueue]⟩

def zeros (n : Nat) : List UInt8 := List.replicate n 0

def hugeSize : List UInt8 := [1, 0, 0, 0, 1, 0, 0, 0] ++ zeros 12 ++ [255, 255, 255, 255] ++ zeros 8

def wideType : List UInt8 := [1, 0, 0, 0, 1, 1, 0, 0] ++ zeros 12 ++ [4, 0, 0, 0] ++ zeros 12

end MsmKernel.Qrtr.Endpoint
