import MsmKernel.Qrtr.Endpoint

/-! Packets that `qrtr_sendmsg` hands to an endpoint (af_qrtr.c): a message is copied into a
linear part and page fragments, a header is pushed in front and zeros pad it to a word. -/
namespace MsmKernel.Qrtr.Transmit
open MsmKernel Gunyah Endpoint

def EMSGSIZE : Int := 90
def EFAULT : Int := 14
def PAGE_SIZE : Nat := 4096
def MAX_SKB_FRAGS : Nat := 17
def QRTR_HDR_MAX_SIZE : Nat := 32

def pageAlign (size : Nat) : Nat := (size + 4095) / 4096 * 4096

/- `SKB_MAX_ALLOC` depends on the size of the shared info; it is aligned to cache lines. -/
structure Platform where
  skbMaxAlloc : Nat
  page_le : PAGE_SIZE ≤ skbMaxAlloc
  aligned : skbMaxAlloc % 4 = 0

/- Memory of an skb. `frags` gives the fragments by the pieces that are mapped one by one,
`fragMem` their bytes one fragment after another. -/
structure Skb where
  linear : Nat → UInt8
  data : Nat
  frags : List (List Nat)
  fragMem : Nat → UInt8
  len : Nat
  dataLen : Nat

/- What `sock_alloc_send_pskb` provides: memory with any contents, and for a number of whole pages
fragments of whole pages. -/
structure Allocator where
  linear : Nat → UInt8
  fragMem : Nat → UInt8
  split : Nat → List (List Nat)
  total : ∀ size, size % PAGE_SIZE = 0 → (split size).flatten.sum = size
  pages : ∀ size, ∀ f ∈ split size, f ≠ [] ∧ ∀ p ∈ f, 0 < p ∧ p % PAGE_SIZE = 0

def Skb.fragTotal (skb : Skb) : Nat := skb.frags.flatten.sum

def Skb.bytes (skb : Skb) : List UInt8 :=
  Ring.copyFrom skb.linear skb.data (skb.len - skb.dataLen) ++
    Ring.copyFrom skb.fragMem 0 (min skb.dataLen skb.fragTotal)

def Allocator.skb (a : Allocator) (pdataLen len dataLen : Nat) : Skb :=
  ⟨a.linear, QRTR_HDR_MAX_SIZE, a.split pdataLen, a.fragMem, len, dataLen⟩

def qrtrSockAllocSkbSend (plat : Platform) (primary : Bool) (a : Allocator) (len : Nat) : Skb :=
  let plen := alignWord len
  if primary then
    let dataLen :=
      if plat.skbMaxAlloc < plen then min (plen - plat.skbMaxAlloc) (MAX_SKB_FRAGS * PAGE_SIZE)
      else 0
    let pdataLen := pageAlign dataLen
    a.skb pdataLen len dataLen
  else
    let dataLen :=
      if PAGE_SIZE < plen then min (plen - PAGE_SIZE) (MAX_SKB_FRAGS * PAGE_SIZE) else 0
    let pdataLen := pageAlign dataLen
    if dataLen ≠ 0 then
      a.skb ((plen - dataLen) + pdataLen) ((plen - dataLen) + pdataLen)
        (((plen - dataLen) + pdataLen) - QRTR_HDR_MAX_SIZE)
    else a.skb pdataLen len dataLen

def skbCopyDatagramFromIter (skb : Skb) (msg : List UInt8) : Option Skb :=
  let headlen := skb.len - skb.dataLen
  if msg.length - headlen ≤ skb.fragTotal then
    some { skb with
      linear := Ring.copyTo skb.linear skb.data (msg.take headlen)
      fragMem := Ring.copyTo skb.fragMem 0 (msg.drop headlen) }
  else none

def cpuToLe32 (n : Nat) : List UInt8 :=
  [UInt8.ofNat n, UInt8.ofNat (n / 2 ^ 8), UInt8.ofNat (n / 2 ^ 16), UInt8.ofNat (n / 2 ^ 24)]

structure SockaddrQrtr where
  node : Nat
  port : Nat

def qrtrHdrV1 (type : Nat) (src dst : SockaddrQrtr) (nid : Nat) (confirmRx : Bool) (size : Nat) :
    List UInt8 :=
  cpuToLe32 1 ++ cpuToLe32 type ++ cpuToLe32 src.node ++ cpuToLe32 src.port ++
    cpuToLe32 (if confirmRx then 1 else 0) ++ cpuToLe32 size ++
    cpuToLe32 (if dst.port = Endpoint.QRTR_PORT_CTRL then nid else dst.node) ++ cpuToLe32 dst.port

def skbPutPadto (skb : Skb) (len : Nat) : Skb :=
  if skb.len < len then
    { skb with
      linear := Ring.copyTo skb.linear (skb.data + skb.len) (zeros (len - skb.len))
      len := len }
  else skb

/- The walk of `qrtr_pad_word_pskb`: `base` is where the current piece begins. -/
structure Walk where
  base : Nat
  count : Nat
  paddingLen : Nat
  len : Nat
  dataLen : Nat
  mem : Nat → UInt8

def u32 (n : Nat) : Nat := n % 4294967296

def sub32 (a b : Nat) : Nat := u32 (a + (4294967296 - b))

def Walk.memset (w : Walk) (off count : Nat) : Nat → UInt8 :=
  Ring.copyTo w.mem (w.base + off) (zeros count)

def Walk.skip (w : Walk) (count : Nat) : Walk :=
  { w with base := w.base + count, count := w.count + count }

def padWhole (padto : Nat) : List Nat → Walk → Walk
  | [], w => w
  | p :: ps, w =>
    if w.count + p < padto then padWhole padto ps (w.skip p)
    else
      let off := sub32 w.len w.count
      { w with
        mem := w.memset off w.paddingLen
        count := u32 (w.count + (off + w.paddingLen))
        len := padto
        dataLen := w.dataLen + w.paddingLen }

def padSplit (padto : Nat) : List Nat → Walk → Walk
  | [], w => w
  | p :: ps, w =>
    if w.count + p < w.len then padSplit padto ps (w.skip p)
    else if w.count + p < padto then
      let off := sub32 w.len w.count
      let d := sub32 p off
      padSplit padto ps
        { w with
          mem := w.memset off d
          base := w.base + p
          count := w.count + p
          paddingLen := sub32 w.paddingLen d
          len := u32 (w.len + d)
          dataLen := w.dataLen + sub32 w.paddingLen d }
    else
      let off := if w.count < w.len then sub32 w.len w.count else 0
      padSplit padto ps
        { w with
          mem := w.memset off w.paddingLen
          base := w.base + p
          count := u32 (w.count + (off + w.paddingLen))
          len := u32 (w.len + w.paddingLen)
          dataLen := w.dataLen + w.paddingLen }

def padFrags (padto : Nat) : List (List Nat) → Walk → Walk
  | [], w => w
  | f :: fs, w =>
    if w.count + f.sum < w.len then padFrags padto fs (w.skip f.sum)
    else
      let w' := if padto ≤ w.count + f.sum then padWhole padto f w else padSplit padto f w
      if w'.len = padto then w' else padFrags padto fs w'

def qrtrPadWordPskb (skb : Skb) : Skb :=
  let padto := alignWord skb.len
  let paddingLen := padto - skb.len
  if paddingLen = 0 then skb
  else
    let w := padFrags padto skb.frags
      ⟨0, skb.len - skb.dataLen, paddingLen, skb.len, skb.dataLen, skb.fragMem⟩
    { skb with fragMem := w.mem, len := w.len, dataLen := w.dataLen }

def qrtrNodeEnqueue (skb : Skb) (type : Nat) (src dst : SockaddrQrtr) (nid : Nat)
    (confirmRx : Bool) : Skb :=
  let len := skb.len
  let skb :=
    { skb with
      linear := Ring.copyTo skb.linear (skb.data - 32) (qrtrHdrV1 type src dst nid confirmRx len)
      data := skb.data - 32
      len := skb.len + 32 }
  if skb.dataLen ≠ 0 then qrtrPadWordPskb skb else skbPutPadto skb (alignWord len + 32)

/- What a message meets on its way: the addresses, the node it goes to, whether its receipt is to
be confirmed and whether a new server is forwarded there. -/
structure Route where
  us : SockaddrQrtr
  addr : SockaddrQrtr
  nid : Nat
  confirmRx : Bool
  mustForward : Bool

def Route.control (r : Route) : Bool :=
  r.us.port = Endpoint.QRTR_PORT_CTRL || r.addr.port = Endpoint.QRTR_PORT_CTRL

def Route.type (r : Route) (bytes : List UInt8) : Nat :=
  if r.control then le32ToCpu bytes 0 else QRTR_TYPE_DATA

/- `none` is a message that is not forwarded. -/
def qrtrSendmsg (plat : Platform) (primary : Bool) (a : Allocator) (r : Route) (msg : List UInt8) :
    Except Int (Option Skb) :=
  if 65535 < msg.length then .error (- EMSGSIZE)
  else
    match skbCopyDatagramFromIter (qrtrSockAllocSkbSend plat primary a msg.length) msg with
    | none => .error (- EFAULT)
    | some skb =>
      if r.control && msg.length < 4 then .error (- EINVAL)
      else
        let type := r.type skb.bytes
        if r.addr.port = Endpoint.QRTR_PORT_CTRL ∧ type = QRTR_TYPE_NEW_SERVER ∧
            r.mustForward = false then
          .ok none
        else .ok (some (qrtrNodeEnqueue skb type r.us r.addr r.nid r.confirmRx))

def packet (type : Nat) (r : Route) (msg : List UInt8) : List UInt8 :=
  qrtrHdrV1 type r.us r.addr r.nid r.confirmRx msg.length ++ msg ++
    zeros (alignWord msg.length - msg.length)

end MsmKernel.Qrtr.Transmit
