import MsmKernel.Lib.PagedRing
import MsmKernel.Lib.Run

/-! The IPC log of `kernel/trace/ipc_logging.c`: encoding of messages, the circular list of
pages with its write, read and non-destructive read positions, and the entry points. -/
namespace MsmKernel.IpcLog
open MsmKernel Function

def EINVAL : Int := 22

def EIO : Int := 5

/- A page of 4096 bytes without its header of 72. -/
def logPageDataSize : Nat := 4024

def maxMsgSize : Nat := 255

def maxMsgDecodedSize : Int := 1020

def tsvTypeString : Nat := 2

def tsvTypeTimestamp : Nat := 1

def tsvTypePointer : Nat := 2

def tsvTypeInt32 : Nat := 3

def tsvTypeByteArray : Nat := 4

def tsvTypeQtimer : Nat := 5

def u32 (n : Nat) : Nat := n % 4294967296

structure EncodeContext where
  type : UInt8
  size : UInt8
  buff : Nat → UInt8
  offset : Nat

section
variable (e : EncodeContext)

def EncodeContext.bytes : List UInt8 := Ring.copyFrom e.buff 0 e.offset

def msgEncodeStart (type : Nat) : EncodeContext :=
  { e with type := UInt8.ofNat type, size := 0, offset := 2 }

def msgEncodeEnd : EncodeContext :=
  { e with
    size := UInt8.ofNat (e.offset - 2)
    buff := Ring.copyTo e.buff 0 [e.type, UInt8.ofNat (e.offset - 2)] }

def tsvWriteData (data : List UInt8) : EncodeContext × Int :=
  if e.offset + data.length > maxMsgSize then (e, - EINVAL)
  else
    ({ e with buff := Ring.copyTo e.buff e.offset data, offset := e.offset + data.length }, 0)

def tsvWriteHeader (type size : Nat) : EncodeContext × Int :=
  tsvWriteData e [UInt8.ofNat type, UInt8.ofNat size]

end

/- The writers of primitives differ in the type and in the bytes of the value. -/
def tsvWrite (type : Nat) (e : EncodeContext) (data : List UInt8) : EncodeContext × Int :=
  let r := tsvWriteHeader e type data.length
  if r.2 ≠ 0 then r else tsvWriteData r.1 data

def leBytes (count n : Nat) : List UInt8 :=
  (List.range count).map fun i => UInt8.ofNat (n >>> (8 * i))

section
variable (e : EncodeContext)

def tsvTimestampWrite (now : Nat) : EncodeContext × Int :=
  tsvWrite tsvTypeTimestamp e (leBytes 8 now)

def tsvQtimerWrite (now : Nat) : EncodeContext × Int :=
  tsvWrite tsvTypeQtimer e (leBytes 8 now)

def tsvPointerWrite (pointer : Nat) : EncodeContext × Int :=
  tsvWrite tsvTypePointer e (leBytes 8 pointer)

def tsvInt32Write (n : Nat) : EncodeContext × Int :=
  tsvWrite tsvTypeInt32 e (leBytes 4 n)

def tsvByteArrayWrite (data : List UInt8) : EncodeContext × Int :=
  tsvWrite tsvTypeByteArray e data

end

inductive Writer
  | timestamp (now : Nat)
  | qtimer (now : Nat)
  | pointer (p : Nat)
  | int32 (n : Nat)
  | byteArray (data : List UInt8)

def Writer.apply (e : EncodeContext) : Writer → EncodeContext
  | .timestamp now => (tsvTimestampWrite e now).1
  | .qtimer now => (tsvQtimerWrite e now).1
  | .pointer p => (tsvPointerWrite e p).1
  | .int32 n => (tsvInt32Write e n).1
  | .byteArray data => (tsvByteArrayWrite e data).1

/- What a caller builds: a start, any writers and an end, or the text `ipc_log_string` logs.
`e` is the uninitialised context on the caller's stack. -/
inductive Message
  | tsv (e : EncodeContext) (type : Nat) (writers : List Writer)
  | string (e : EncodeContext) (now qtimer : Nat) (text : List UInt8)

/- `vscnprintf` leaves room for the NUL, which the header write does not cover. -/
def encodeText (e : EncodeContext) (text : List UInt8) : EncodeContext :=
  let data := text.take (maxMsgSize - (e.offset + 2) - 1)
  let e := { e with buff := Ring.copyTo e.buff (e.offset + 2) (data ++ [0]) }
  let e := (tsvWriteHeader e tsvTypeByteArray data.length).1
  { e with offset := e.offset + data.length }

def Message.encode : Message → EncodeContext
  | .tsv e type writers => msgEncodeEnd (writers.foldl Writer.apply (msgEncodeStart e type))
  | .string e now qtimer text =>
    let e := (tsvTimestampWrite (msgEncodeStart e tsvTypeString) now).1
    msgEncodeEnd (encodeText (tsvQtimerWrite e qtimer).1 text)

/- `struct ipc_log_context` with the pages of its list. Offsets are those of the page headers,
pages are numbered from `first_page`. -/
structure Context where
  numPages : Nat
  data : Nat → Nat → UInt8
  readOffset : Nat → Nat
  writeOffset : Nat → Nat
  ndReadOffset : Nat → Nat
  readPage : Nat
  writePage : Nat
  ndReadPage : Nat
  writeAvail : Nat
  destroyed : Bool

def ipcLogContextCreate (maxNumPages : Nat) : Context where
  numPages := maxNumPages
  data _ _ := 0
  readOffset _ := 0
  writeOffset _ := 0
  ndReadOffset _ := 0
  readPage := 0
  writePage := 0
  ndReadPage := 0
  writeAvail := u32 (maxNumPages * logPageDataSize)
  destroyed := false

variable (s : Context)

def isNdReadEmpty : Bool :=
  s.ndReadPage = s.writePage && s.ndReadOffset s.ndReadPage = s.writeOffset s.writePage

def isReadEmpty : Bool :=
  s.readPage = s.writePage && s.readOffset s.readPage = s.writeOffset s.writePage

def isNdReadEqualRead : Bool :=
  s.ndReadPage = s.readPage && s.readOffset s.readPage = s.ndReadOffset s.ndReadPage

def getNextPage (curPg : Nat) : Nat := PagedRing.next s.numPages curPg

def ipcLogRead (dataSize : Nat) : List UInt8 × Context :=
  let off := s.ndReadOffset s.ndReadPage
  let bytesToRead := min (logPageDataSize - off) dataSize
  let data := Ring.copyFrom (s.data s.ndReadPage) off bytesToRead
  if bytesToRead ≠ dataSize then
    -- not enough space, wrap read to next page
    let pg := getNextPage s s.ndReadPage
    let offs := update s.ndReadOffset s.ndReadPage 0
    (data ++ Ring.copyFrom (s.data pg) (offs pg) (dataSize - bytesToRead),
      { s with
        ndReadPage := pg
        ndReadOffset := update offs pg (offs pg + (dataSize - bytesToRead)) })
  else
    (data, { s with ndReadOffset := update s.ndReadOffset s.ndReadPage (off + bytesToRead) })

/- The end of `ipc_log_drop`: both positions move on when they are equal. -/
def dropBytes (bytesToRead dataSize : Nat) : Context :=
  let t :=
    { s with
      readOffset := update s.readOffset s.readPage (s.readOffset s.readPage + bytesToRead)
      writeAvail := u32 (s.writeAvail + dataSize) }
  if isNdReadEqualRead s then
    { t with
      ndReadOffset :=
        update s.ndReadOffset s.ndReadPage (s.ndReadOffset s.ndReadPage + bytesToRead) }
  else t

def dropPage : Context :=
  let t :=
    { s with
      readOffset := update s.readOffset s.readPage 0
      readPage := getNextPage s s.readPage }
  if isNdReadEqualRead s then
    { t with
      ndReadOffset := update s.ndReadOffset s.readPage 0
      ndReadPage := getNextPage s s.readPage }
  else t

def ipcLogDrop (dataSize : Nat) : List UInt8 × Context :=
  let off := s.readOffset s.readPage
  let bytesToRead := min (logPageDataSize - off) dataSize
  let data := Ring.copyFrom (s.data s.readPage) off bytesToRead
  if bytesToRead ≠ dataSize then
    let t := dropPage s
    (data ++ Ring.copyFrom (t.data t.readPage) (t.readOffset t.readPage) (dataSize - bytesToRead),
      dropBytes t (dataSize - bytesToRead) dataSize)
  else (data, dropBytes s bytesToRead dataSize)

def hdrSize (hdr : List UInt8) : Nat := (hdr.getD 1 0).toNat

def msgRead : List UInt8 × Context :=
  if isNdReadEmpty s then ([], s)
  else
    let hdr := ipcLogRead s 2
    let body := ipcLogRead hdr.2 (hdrSize hdr.1)
    (hdr.1 ++ body.1, body.2)

/- The caller passes no buffer for the body. -/
def msgDrop : List UInt8 × Context :=
  if !isReadEmpty s then
    let hdr := ipcLogDrop s 2
    let body := ipcLogDrop hdr.2 (hdrSize hdr.1)
    (hdr.1 ++ body.1, body.2)
  else ([], s)

def dropLoop (offset : Nat) : Nat → Context → Option Context
  | 0, _ => none
  | fuel + 1, s =>
    if s.writeAvail ≤ offset then dropLoop offset fuel (msgDrop s).2 else some s

def commit (buff : List UInt8) : Context :=
  let off := s.writeOffset s.writePage
  let bytesToWrite := min (logPageDataSize - off) buff.length
  let data :=
    update s.data s.writePage (Ring.copyTo (s.data s.writePage) off (buff.take bytesToWrite))
  let writeAvail := u32 (s.writeAvail + 4294967296 - buff.length)
  if bytesToWrite ≠ buff.length then
    let pg := getNextPage s s.writePage
    let offs := update (update s.writeOffset s.writePage (off + bytesToWrite)) pg 0
    { s with
      data := update data pg (Ring.copyTo (data pg) (offs pg) (buff.drop bytesToWrite))
      writePage := pg
      writeOffset := update offs pg (offs pg + (buff.length - bytesToWrite))
      writeAvail := writeAvail }
  else
    { s with
      data := data
      writeOffset := update s.writeOffset s.writePage (off + bytesToWrite)
      writeAvail := writeAvail }

def ipcLogWrite (fuel : Nat) (e : EncodeContext) : Option Context :=
  (dropLoop e.offset fuel s).map fun s => commit s e.bytes

/- `decoded m` is how much of the output the deserialiser of `m` fills. The messages are those
handed to the deserialisers. -/
def extractLoop (decoded : List UInt8 → Nat) :
    Nat → Int → Context → Option (Int × List (List UInt8) × Context)
  | 0, _, _ => none
  | fuel + 1, size, s =>
    if maxMsgDecodedSize ≤ size && !isNdReadEmpty s then
      let r := msgRead s
      (extractLoop decoded fuel (size - decoded r.1) r.2).map fun t =>
        (t.1, r.1 :: t.2.1, t.2.2)
    else some (size, [], s)

def ipcLogExtract (decoded : List UInt8 → Nat) (fuel : Nat) (size : Int) :
    Option (Int × List (List UInt8) × Context) :=
  if size < maxMsgDecodedSize then some (- EINVAL, [], s)
  else if s.destroyed then some (- EIO, [], s)
  else (extractLoop decoded fuel size s).map fun t => (size - t.1, t.2)

def ipcLogContextDestroy : Context := { s with destroyed := true }

end MsmKernel.IpcLog
