import LoroGateway.Lib.Leb128
import LoroGateway.Lib.Parsing

/-!
# The precheck of a message

`src/protocol.rs`.  Before the crate `loro_protocol` decodes a message, the
gateway walks over its bytes and checks the lengths in it.  An index outside the
input would stop the process: `Stop.outOfBounds` is that end.

`usize` has 64 bits, so a `u64` is always a length.
-/

namespace LoroGateway

open ByteCodec

/-- What the precheck uses of the crate `loro_protocol`. -/
class LoroProtocol where
  maxMessageSize : UInt64

structure ProtocolLimits where
  maxMessageBytes : Nat
  maxRoomIdBytes : Nat
  maxUpdates : Nat
  maxUpdateBytes : Nat
  maxUpdatesBytes : Nat

def ProtocolLimits.default [LoroProtocol] : ProtocolLimits where
  maxMessageBytes := LoroProtocol.maxMessageSize.toNat
  maxRoomIdBytes := 128
  maxUpdates := 4096
  maxUpdateBytes := LoroProtocol.maxMessageSize.toNat
  maxUpdatesBytes := LoroProtocol.maxMessageSize.toNat

inductive ProtocolDecodeError
  | truncated
  | lengthOverflow
  | limitExceeded (resource : String) (actual limit : Nat)
  | invalid (reason : String)
  deriving DecidableEq

/-- How the precheck ends without accepting. -/
inductive Stop
  | error (error : ProtocolDecodeError)
  | outOfBounds
  deriving DecidableEq

structure Reader where
  input : Bytes
  cursor : Nat
  deriving DecidableEq

/-- A part of the precheck: it moves the reader, or it stops. -/
abbrev Reading := StateT Reader (Except Stop)

/-- `&bytes[start..stop]` -/
def slice (bytes : Bytes) (start stop : Nat) : Reading Bytes :=
  if start ≤ stop ∧ stop ≤ bytes.length then pure ((bytes.drop start).take (stop - start))
  else throw .outOfBounds

/-- `bytes[position]` -/
def index (bytes : Bytes) (position : Nat) : Reading UInt8 := okOr bytes[position]? Stop.outOfBounds

def Precheck.enforceLimit (resource : String) (actual limit : Nat) : Reading Unit :=
  check (actual ≤ limit) (Stop.error (.limitExceeded resource actual limit))

/-- `checked_add` of `u32` -/
def checkedAddU32 (a b : Nat) : Option Nat := if a + b < 2 ^ 32 then some (a + b) else none

namespace Reader

def new (input : Bytes) : Reader := ⟨input, 0⟩

def isEmpty (r : Reader) : Bool := r.cursor = r.input.length

def take (length : Nat) : Reading Bytes := do
  let r ← get
  let stop ← okOr ((checkedAdd r.cursor length).filter (· ≤ r.input.length)) (Stop.error .truncated)
  let bytes ← slice r.input r.cursor stop
  set { r with cursor := stop }
  return bytes

def byte : Reading UInt8 := do
  index (← take 1) 0

/-- The loop of `uleb128`. -/
def uleb128From (result : UInt64) (shift : Nat) : Reading UInt64 := do
  let byte ← byte
  check (¬ (shift = 63 ∧ byte &&& 0x7e ≠ 0)) (Stop.error .lengthOverflow)
  let result := result ||| ((byte &&& 0x7f).toUInt64 <<< UInt64.ofNat shift)
  if byte &&& 0x80 = 0 then return result
  else
    match _hshift : checkedAddU32 shift 7 with
    | none => throw (.error .lengthOverflow)
    | some next =>
      if _hnext : 63 < next then throw (.error .lengthOverflow)
      else uleb128From result next
termination_by 64 - shift
decreasing_by
  unfold checkedAddU32 at _hshift
  split at _hshift
  · cases _hshift
    omega
  · cases _hshift

def uleb128 : Reading UInt64 := uleb128From 0 0

def varLen : Reading Nat := do
  return (← uleb128).toNat

def varBytes : Reading Bytes := do
  take (← varLen)

end Reader

/-- The loop over the updates of a message, from the bytes before. -/
def readUpdates (limits : ProtocolLimits) : Nat → Nat → Reading Unit
  | 0, _ => return ()
  | count + 1, updatesBytes => do
    let updateLen ← Reader.varLen
    Precheck.enforceLimit "individual update bytes" updateLen limits.maxUpdateBytes
    let updatesBytes ← okOr (checkedAdd updatesBytes updateLen) (Stop.error .lengthOverflow)
    Precheck.enforceLimit "aggregate update bytes" updatesBytes limits.maxUpdatesBytes
    let _ ← Reader.take updateLen
    readUpdates limits count updatesBytes

/-- A field that a join error carries for one code, if anything is left. -/
def readOptional (code wanted : UInt8) : Reading Unit := do
  let r ← get
  if code = wanted ∧ ¬ r.isEmpty then
    let _ ← Reader.varBytes
    return ()
  else return ()

/-- The part of a message behind its type. -/
def readBody (limits : ProtocolLimits) (messageType : UInt8) : Reading Unit :=
  match messageType with
  | 0x00 => do
    let _ ← Reader.varBytes
    let _ ← Reader.varBytes
    return ()
  | 0x01 => do
    let _ ← Reader.varBytes
    let _ ← Reader.varBytes
    let _ ← Reader.varBytes
    return ()
  | 0x02 => do
    let code ← Reader.byte
    let _ ← Reader.varBytes
    readOptional code 0x01
    readOptional code 0x7f
  | 0x03 => do
    let count ← Reader.varLen
    Precheck.enforceLimit "update count" count limits.maxUpdates
    readUpdates limits count 0
    let _ ← Reader.take 8
    return ()
  | 0x04 => do
    let _ ← Reader.take 8
    let _ ← Reader.uleb128
    let _ ← Reader.uleb128
    return ()
  | 0x05 => do
    let _ ← Reader.take 8
    let _ ← Reader.uleb128
    let _ ← Reader.varBytes
    return ()
  | 0x06 => do
    let _ ← Reader.byte
    let _ ← Reader.varBytes
    return ()
  | 0x07 => return ()
  | 0x08 => do
    let _ ← Reader.take 9
    return ()
  | _ => throw (.error (.invalid "unknown message type"))

/-- `precheck` from the reader on. -/
def readMessage (limits : ProtocolLimits) : Reading Unit := do
  let _ ← Reader.take 4
  let roomLen ← Reader.varLen
  Precheck.enforceLimit "room ID bytes" roomLen limits.maxRoomIdBytes
  let _ ← Reader.take roomLen
  let messageType ← Reader.byte
  readBody limits messageType
  check (← get).isEmpty (Stop.error (.invalid "trailing message bytes"))

def precheck [LoroProtocol] (input : Bytes) (limits : ProtocolLimits) : Except Stop Unit :=
  (do
    Precheck.enforceLimit "message bytes" input.length
      (min limits.maxMessageBytes LoroProtocol.maxMessageSize.toNat)
    readMessage limits : Reading Unit).run' (.new input)

end LoroGateway
