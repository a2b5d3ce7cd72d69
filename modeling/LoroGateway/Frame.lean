import LoroGateway.Store

/-!
# Delta frames

`src/frame.rs`.  One frame holds one committed client batch: the producer
tuple, the batch id and the exact update blobs, between a length field and a
length trailer, under a digest of the updates and a checksum of the bytes.  A
delta stream is a concatenation of frames.

The encoder and the decoder are written as the source has them, with the
limits and the errors in the same order.
-/

namespace LoroGateway

open ByteCodec

/-- The identifier of a client batch. -/
abbrev BatchId := ByteArr 8

structure FrameLimits where
  maxFrameBytes : Nat
  maxProducerIdBytes : Nat
  maxUpdates : Nat
  maxUpdateBytes : Nat
  maxUpdatesBytes : Nat
  maxStreamBytes : Nat
  deriving DecidableEq, Repr

def FrameLimits.default : FrameLimits where
  maxFrameBytes := 64 * 1024 * 1024
  maxProducerIdBytes := 256
  maxUpdates := 4096
  maxUpdateBytes := 32 * 1024 * 1024
  maxUpdatesBytes := 32 * 1024 * 1024
  maxStreamBytes := 512 * 1024 * 1024

inductive FrameError
  | truncated
  | lengthOverflow
  | unsupportedVersion (version : UInt16)
  | checksumMismatch
  | digestMismatch
  | limitExceeded (resource : String) (actual limit : Nat)
  | atOffset (offset : UInt64) (source : FrameError)
  | invalid (reason : String)
  deriving DecidableEq, Repr

def FrameError.display : FrameError → String
  | .truncated => "truncated frame"
  | .lengthOverflow => "frame length overflow"
  | .unsupportedVersion version => "unsupported frame version " ++ version.toNat.repr
  | .checksumMismatch => "frame checksum mismatch"
  | .digestMismatch => "frame update digest mismatch"
  | .limitExceeded resource actual limit =>
    resource ++ " exceeds limit " ++ limit.repr ++ ": " ++ actual.repr
  | .atOffset offset source =>
    "frame decode failed at stream offset " ++ offset.toNat.repr ++ ": " ++ source.display
  | .invalid reason => "invalid frame: " ++ reason

namespace Frame

def magic : Bytes := ascii "QLGD"
def version : UInt16 := 1
def fixedPrefix : Nat := 4 + 2 + 2 + 8
def fixedSuffix : Nat := 32 + 4 + 8

def enforceLimit (resource : String) (actual limit : Nat) : Except FrameError Unit :=
  check (actual ≤ limit) (FrameError.limitExceeded resource actual limit)

def take (input : Bytes) (cursor length : Nat) : Except FrameError (Bytes × Nat) :=
  takeAt FrameError.truncated FrameError.truncated input cursor length

def readU16 (input : Bytes) (cursor : Nat) : Except FrameError (UInt16 × Nat) :=
  readU16At FrameError.truncated FrameError.truncated input cursor

def readU32 (input : Bytes) (cursor : Nat) : Except FrameError (UInt32 × Nat) :=
  readU32At FrameError.truncated FrameError.truncated input cursor

def readU64 (input : Bytes) (cursor : Nat) : Except FrameError (UInt64 × Nat) :=
  readU64At FrameError.truncated FrameError.truncated input cursor

/-- The bytes that `update_digest` hashes. -/
def updateDigestInput (updates : List Bytes) : Bytes :=
  ascii "quorum-loro-updates-v1" ++ [0] ++ be64 (lengthWord updates.length) ++
    updates.flatMap fun update => be64 (lengthWord update.length) ++ update

def updateDigest [Hashing] (updates : List Bytes) : ByteArr 32 :=
  Hashing.sha256 (updateDigestInput updates)

end Frame

structure DeltaFrame where
  producer : ProducerTuple
  batchId : BatchId
  updates : List Bytes
  digest : ByteArr 32
  deriving DecidableEq

namespace DeltaFrame

open LoroGateway.Frame

variable [Hashing]

def new (producer : ProducerTuple) (batchId : BatchId) (updates : List Bytes) : DeltaFrame where
  producer := producer
  batchId := batchId
  updates := updates
  digest := updateDigest updates

/-- The length table of the updates. -/
def encodeLengths : List Bytes → Except FrameError (List UInt32)
  | [] => return []
  | update :: rest => do
    let length ← okOr (u32OfUsize update.length) (FrameError.invalid "update is too large")
    let lengths ← encodeLengths rest
    return length :: lengths

/-- The aggregate length of the updates, each under its own limit. -/
def sumUpdates (limits : FrameLimits) : Nat → List Bytes → Except FrameError Nat
  | sum, [] => return sum
  | sum, update :: rest => do
    enforceLimit "individual update bytes" update.length limits.maxUpdateBytes
    let sum ← okOr (checkedAdd sum update.length) FrameError.lengthOverflow
    sumUpdates limits sum rest

/-- The length of a frame, or `none` where a sum overflows. -/
def totalLength (producerLen tableLen updatesLen : Nat) : Option Nat := do
  let value ← checkedAdd fixedPrefix 2
  let value ← checkedAdd value producerLen
  let value ← checkedAdd value (8 + 8 + 8 + 4)
  let value ← checkedAdd value tableLen
  let value ← checkedAdd value updatesLen
  checkedAdd value fixedSuffix

def encodeWithLimits (frame : DeltaFrame) (limits : FrameLimits) : Except FrameError Bytes := do
  let id := utf8 frame.producer.id
  check (id ≠ []) (FrameError.invalid "producer ID is empty")
  enforceLimit "producer ID bytes" id.length limits.maxProducerIdBytes
  check (frame.updates ≠ []) (FrameError.invalid "frame contains no updates")
  enforceLimit "update count" frame.updates.length limits.maxUpdates
  let producerLen ← okOr (u16OfUsize id.length) (FrameError.invalid "producer ID is too long")
  let updateCount ← okOr (u32OfUsize frame.updates.length) (FrameError.invalid "too many updates")
  let lengths ← encodeLengths frame.updates
  let updatesLen ← sumUpdates limits 0 frame.updates
  enforceLimit "aggregate update bytes" updatesLen limits.maxUpdatesBytes
  let tableLen ← okOr (checkedMul lengths.length 4) FrameError.lengthOverflow
  let totalLen ← okOr (totalLength producerLen.toNat tableLen updatesLen) FrameError.lengthOverflow
  enforceLimit "frame bytes" totalLen limits.maxFrameBytes
  let totalLenU64 ← okOr (u64OfUsize totalLen) FrameError.lengthOverflow
  let output := magic ++ be16 version ++ be16 0 ++ be64 totalLenU64 ++ be16 producerLen ++ id ++
    be64 frame.producer.epoch ++ be64 frame.producer.sequence ++ frame.batchId.val ++
    be32 updateCount ++ lengths.flatMap be32 ++ frame.updates.flatten ++ frame.digest.val
  return output ++ be32 (Hashing.crc32 output) ++ be64 totalLenU64

/-- The checks of one update length, and the sum after it. -/
def accumulateLength (limits : FrameLimits) (updatesLen length : Nat) : Except FrameError Nat := do
  enforceLimit "individual update bytes" length limits.maxUpdateBytes
  let updatesLen ← okOr (checkedAdd updatesLen length) FrameError.lengthOverflow
  enforceLimit "aggregate update bytes" updatesLen limits.maxUpdatesBytes
  return updatesLen

/-- The table of update lengths, with the sum so far. -/
def readLengths (frame : Bytes) (limits : FrameLimits) :
    Nat → Nat → Nat → Except FrameError (List Nat × Nat × Nat) :=
  readTable FrameError.truncated FrameError.truncated (accumulateLength limits) frame

/-- The update blobs, none of which may pass the end of the payload. -/
def readUpdates (frame : Bytes) (payloadEnd : Nat) :
    List Nat → Nat → Except FrameError (List Bytes × Nat) :=
  takeEach FrameError.truncated FrameError.truncated frame payloadEnd

def decodeOneWithLimits (input : Bytes) (limits : FrameLimits) :
    Except FrameError (DeltaFrame × Nat) := do
  check (fixedPrefix + fixedSuffix ≤ input.length) FrameError.truncated
  check (input.take 4 = magic) (FrameError.invalid "bad frame magic")
  let (found, cursor) ← readU16 input 4
  check (found = version) (FrameError.unsupportedVersion found)
  let (flags, cursor) ← readU16 input cursor
  check (flags = 0) (FrameError.invalid "unsupported frame flags")
  let (total, cursor) ← readU64 input cursor
  let totalLen := total.toNat
  check (fixedPrefix + fixedSuffix ≤ totalLen) FrameError.truncated
  enforceLimit "frame bytes" totalLen limits.maxFrameBytes
  check (totalLen ≤ input.length) FrameError.truncated
  let frame := input.take totalLen
  let trailerStart ← okOr (checkedSub totalLen 8) FrameError.lengthOverflow
  let (trailer, _) ← readU64 frame trailerStart
  check (trailer = total) (FrameError.invalid "frame length trailer mismatch")
  let crcStart ← okOr (checkedSub totalLen 12) FrameError.lengthOverflow
  let (expectedCrc, _) ← readU32 frame crcStart
  check (Hashing.crc32 (frame.take crcStart) = expectedCrc) FrameError.checksumMismatch
  let (producerLen, cursor) ← readU16 frame cursor
  enforceLimit "producer ID bytes" producerLen.toNat limits.maxProducerIdBytes
  let (producerBytes, cursor) ← take frame cursor producerLen.toNat
  let producerId ← okOr (String.fromUTF8? ⟨producerBytes.toArray⟩)
    (FrameError.invalid "producer ID is not UTF-8")
  check (utf8 producerId ≠ []) (FrameError.invalid "producer ID is empty")
  let (epoch, cursor) ← readU64 frame cursor
  let (sequence, cursor) ← readU64 frame cursor
  let (batchBytes, cursor) ← take frame cursor 8
  let (countWord, cursor) ← readU32 frame cursor
  let count := countWord.toNat
  check (count ≠ 0) (FrameError.invalid "frame contains no updates")
  enforceLimit "update count" count limits.maxUpdates
  let payloadEnd ← okOr (checkedSub crcStart 32) FrameError.truncated
  let tableBytes ← okOr (checkedMul count 4) FrameError.lengthOverflow
  let tableEnd ← okOr ((checkedAdd cursor tableBytes).filter (· ≤ payloadEnd)) FrameError.truncated
  let (lengths, updatesLen, cursor) ← readLengths frame limits count 0 cursor
  let declaredLen ← okOr (checkedSub payloadEnd tableEnd) FrameError.truncated
  check (updatesLen = declaredLen) (FrameError.invalid "update lengths do not consume payload")
  let (updates, cursor) ← readUpdates frame payloadEnd lengths cursor
  check (cursor = payloadEnd) (FrameError.invalid "update lengths do not consume payload")
  let (digestBytes, _) ← take frame cursor 32
  let digest := ByteArr.ofBytes 32 digestBytes
  check (digest = updateDigest updates) FrameError.digestMismatch
  return (⟨⟨producerId, epoch, sequence⟩, ByteArr.ofBytes 8 batchBytes, updates, digest⟩, totalLen)

def decodeExact (input : Bytes) (limits : FrameLimits) : Except FrameError DeltaFrame := do
  let (frame, consumed) ← decodeOneWithLimits input limits
  check (consumed = input.length) (FrameError.invalid "trailing bytes after frame")
  return frame

end DeltaFrame

section Stream

variable [Hashing]

/-- The loop of `decode_all_with_limits` on what is left of the input.  A frame
is never empty, so the length of the input is enough fuel and the first branch
is not reached. -/
def decodeFrames (limits : FrameLimits) :
    Nat → Bytes → UInt64 → Except FrameError (List DeltaFrame)
  | 0, _, _ => .error .truncated
  | fuel + 1, input, offset =>
    if input = [] then return []
    else do
      let (frame, consumed) ←
        (DeltaFrame.decodeOneWithLimits input limits).mapError (FrameError.atOffset offset)
      check (consumed ≤ input.length) FrameError.truncated
      let consumedU64 ← okOr (u64OfUsize consumed) FrameError.lengthOverflow
      let offset ← okOr (checkedAddU64 offset consumedU64) FrameError.lengthOverflow
      let frames ← decodeFrames limits fuel (input.drop consumed) offset
      return frame :: frames

def decodeAllWithLimits (input : Bytes) (limits : FrameLimits) :
    Except FrameError (List DeltaFrame) := do
  Frame.enforceLimit "stream bytes" input.length limits.maxStreamBytes
  decodeFrames limits (input.length + 1) input 0

end Stream

end LoroGateway
