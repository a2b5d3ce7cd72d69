import LoroGateway.Checkpoint

/-!
# Manifest records

`src/manifest.rs`.  The manifest of a room is a stream of records of one fixed
length.  Each record names the checkpoint that recovery starts from and the
delta generation that follows it, and carries the digest of the record before
it.  The last record is the head.
-/

namespace LoroGateway

open ByteCodec

/-- The predecessor digest of the first record. -/
def genesisDigest : ByteArr 32 := ByteArr.zero 32

structure ManifestLimits where
  maxRecordBytes : Nat
  maxRecords : Nat
  maxStreamBytes : Nat
  deriving DecidableEq, Repr

def ManifestLimits.default : ManifestLimits where
  maxRecordBytes := 4096
  maxRecords := 65536
  maxStreamBytes := 16 * 1024 * 1024

inductive ManifestError
  | truncated
  | emptyStream
  | wrongRoom
  | unsupportedVersion (version : UInt16)
  | invalid (reason : String)
  | checksumMismatch
  | digestMismatch
  | lengthOverflow
  | limitExceeded (resource : String) (actual limit : Nat)
  deriving DecidableEq, Repr

def ManifestError.display : ManifestError → String
  | .truncated => "manifest record is truncated"
  | .emptyStream => "manifest stream is empty"
  | .wrongRoom => "manifest record belongs to a different room"
  | .unsupportedVersion version => "unsupported manifest version " ++ version.toNat.repr
  | .invalid reason => "invalid manifest record: " ++ reason
  | .checksumMismatch => "manifest checksum mismatch"
  | .digestMismatch => "manifest digest mismatch"
  | .lengthOverflow => "manifest length overflow"
  | .limitExceeded resource actual limit =>
    resource ++ " exceeds limit: " ++ actual.repr ++ " > " ++ limit.repr

namespace Manifest

def magic : Bytes := ascii "QLGM"
def version : UInt16 := 1
def fixedRecordBytes : Nat := 4 + 2 + 2 + 8 + 32 + 8 + 32 + 8 + 8 + 32 + 8 + 32 + 4 + 8

def enforceLimit (resource : String) (actual limit : Nat) : Except ManifestError Unit :=
  check (actual ≤ limit) (ManifestError.limitExceeded resource actual limit)

def take (input : Bytes) (cursor length : Nat) : Except ManifestError (Bytes × Nat) :=
  takeAt ManifestError.lengthOverflow ManifestError.truncated input cursor length

def readU16 (input : Bytes) (cursor : Nat) : Except ManifestError (UInt16 × Nat) :=
  readU16At ManifestError.lengthOverflow ManifestError.truncated input cursor

def readU32 (input : Bytes) (cursor : Nat) : Except ManifestError (UInt32 × Nat) :=
  readU32At ManifestError.lengthOverflow ManifestError.truncated input cursor

def readU64 (input : Bytes) (cursor : Nat) : Except ManifestError (UInt64 × Nat) :=
  readU64At ManifestError.lengthOverflow ManifestError.truncated input cursor

def validatePreviousDigest (revision : UInt64) (previousRecordDigest : ByteArr 32) :
    Except ManifestError Unit := do
  check (¬ (revision = 0 ∧ previousRecordDigest ≠ genesisDigest))
    (ManifestError.invalid "first manifest record has a predecessor")
  check (¬ (0 < revision ∧ previousRecordDigest = genesisDigest))
    (ManifestError.invalid "manifest predecessor digest is absent")

def validateGenerationPair (checkpointGeneration activeDeltaGeneration : UInt64) :
    Except ManifestError Unit := do
  let expectedActive ← okOr (checkedAddU64 checkpointGeneration 1)
    (ManifestError.invalid "checkpoint generation cannot advance")
  check (activeDeltaGeneration = expectedActive)
    (ManifestError.invalid "active delta is not checkpoint generation plus one")

section Digests

/-- The bytes that `checkpoint_record_digest` hashes. -/
def checkpointRecordDigestInput (bytes : Bytes) : Bytes :=
  ascii "quorum-loro-checkpoint-record-v1" ++ [0] ++ be64 (lengthWord bytes.length) ++ bytes

/-- The bytes that `manifest_digest` hashes. -/
def manifestDigestInput (roomHash : ByteArr 32) (revision : UInt64)
    (previousRecordDigest : ByteArr 32) (checkpointGeneration checkpointStreamEndOffset : UInt64)
    (checkpointRecordDigest : ByteArr 32) (activeDeltaGeneration : UInt64) : Bytes :=
  ascii "quorum-loro-manifest-v1" ++ [0] ++ roomHash.val ++ be64 revision ++
    previousRecordDigest.val ++ be64 checkpointGeneration ++ be64 checkpointStreamEndOffset ++
    checkpointRecordDigest.val ++ be64 activeDeltaGeneration

variable [Hashing]

def checkpointRecordDigest (bytes : Bytes) : ByteArr 32 :=
  Hashing.sha256 (checkpointRecordDigestInput bytes)

def manifestDigest (roomHash : ByteArr 32) (revision : UInt64) (previousRecordDigest : ByteArr 32)
    (checkpointGeneration checkpointStreamEndOffset : UInt64)
    (checkpointRecordDigest : ByteArr 32) (activeDeltaGeneration : UInt64) : ByteArr 32 :=
  Hashing.sha256 (manifestDigestInput roomHash revision previousRecordDigest checkpointGeneration
    checkpointStreamEndOffset checkpointRecordDigest activeDeltaGeneration)

end Digests

end Manifest

structure ManifestRecord where
  roomHash : ByteArr 32
  revision : UInt64
  previousRecordDigest : ByteArr 32
  checkpointGeneration : UInt64
  checkpointStreamEndOffset : UInt64
  checkpointRecordDigest : ByteArr 32
  activeDeltaGeneration : UInt64
  digest : ByteArr 32
  deriving DecidableEq

namespace ManifestRecord

open Manifest

variable [Hashing]

def new (roomId : String) (revision : UInt64) (previousRecordDigest : ByteArr 32)
    (checkpointGeneration : UInt64) (checkpointRecordBytes : Bytes)
    (activeDeltaGeneration : UInt64) : Except ManifestError ManifestRecord := do
  check (checkpointRecordBytes ≠ []) (ManifestError.invalid "checkpoint record is empty")
  validateGenerationPair checkpointGeneration activeDeltaGeneration
  validatePreviousDigest revision previousRecordDigest
  let endOffset ← okOr (u64OfUsize checkpointRecordBytes.length) ManifestError.lengthOverflow
  let checkpointDigest := Manifest.checkpointRecordDigest checkpointRecordBytes
  let room := LoroGateway.roomHash roomId
  return ⟨room, revision, previousRecordDigest, checkpointGeneration, endOffset, checkpointDigest,
    activeDeltaGeneration, manifestDigest room revision previousRecordDigest checkpointGeneration
      endOffset checkpointDigest activeDeltaGeneration⟩

def belongsToRoom (record : ManifestRecord) (roomId : String) : Prop :=
  record.roomHash = LoroGateway.roomHash roomId

instance (record : ManifestRecord) (roomId : String) : Decidable (record.belongsToRoom roomId) :=
  inferInstanceAs (Decidable (_ = _))

def verifiesCheckpointBytes (record : ManifestRecord) (checkpointRecordBytes : Bytes) : Prop :=
  record.checkpointStreamEndOffset = lengthWord checkpointRecordBytes.length ∧
    record.checkpointRecordDigest = Manifest.checkpointRecordDigest checkpointRecordBytes

instance (record : ManifestRecord) (bytes : Bytes) :
    Decidable (record.verifiesCheckpointBytes bytes) :=
  inferInstanceAs (Decidable (_ ∧ _))

/-- The digest that the other fields of a record call for. -/
def expectedDigest (record : ManifestRecord) : ByteArr 32 :=
  manifestDigest record.roomHash record.revision record.previousRecordDigest
    record.checkpointGeneration record.checkpointStreamEndOffset record.checkpointRecordDigest
    record.activeDeltaGeneration

def validateFields (record : ManifestRecord) : Except ManifestError Unit := do
  validatePreviousDigest record.revision record.previousRecordDigest
  validateGenerationPair record.checkpointGeneration record.activeDeltaGeneration
  check (record.checkpointStreamEndOffset ≠ 0)
    (ManifestError.invalid "checkpoint stream end offset is zero")

def encodeWithLimits (record : ManifestRecord) (limits : ManifestLimits) :
    Except ManifestError Bytes := do
  enforceLimit "manifest record bytes" fixedRecordBytes limits.maxRecordBytes
  validateFields record
  let totalLen ← okOr (u64OfUsize fixedRecordBytes) ManifestError.lengthOverflow
  check (record.digest = record.expectedDigest) ManifestError.digestMismatch
  let output := magic ++ be16 version ++ be16 0 ++ be64 totalLen ++ record.roomHash.val ++
    be64 record.revision ++ record.previousRecordDigest.val ++ be64 record.checkpointGeneration ++
    be64 record.checkpointStreamEndOffset ++ record.checkpointRecordDigest.val ++
    be64 record.activeDeltaGeneration ++ record.digest.val
  return output ++ be32 (Hashing.crc32 output) ++ be64 totalLen

def encode (record : ManifestRecord) : Except ManifestError Bytes :=
  record.encodeWithLimits .default

def decodeOne (input : Bytes) (limits : ManifestLimits) :
    Except ManifestError (ManifestRecord × Nat) := do
  enforceLimit "manifest record bytes" fixedRecordBytes limits.maxRecordBytes
  check (fixedRecordBytes ≤ input.length) ManifestError.truncated
  check (input.take 4 = magic) (ManifestError.invalid "bad manifest magic")
  let (found, cursor) ← readU16 input 4
  check (found = version) (ManifestError.unsupportedVersion found)
  let (flags, cursor) ← readU16 input cursor
  check (flags = 0) (ManifestError.invalid "unsupported manifest flags")
  let (total, cursor) ← readU64 input cursor
  let totalLen := total.toNat
  check (totalLen = fixedRecordBytes) (ManifestError.invalid "manifest record length mismatch")
  enforceLimit "manifest record bytes" totalLen limits.maxRecordBytes
  check (totalLen ≤ input.length) ManifestError.truncated
  let frame := input.take totalLen
  let trailerStart ← okOr (checkedSub totalLen 8) ManifestError.lengthOverflow
  let (trailer, _) ← readU64 frame trailerStart
  check (trailer = total) (ManifestError.invalid "manifest length trailer mismatch")
  let crcStart ← okOr (checkedSub totalLen 12) ManifestError.lengthOverflow
  let (expectedCrc, _) ← readU32 frame crcStart
  check (Hashing.crc32 (frame.take crcStart) = expectedCrc) ManifestError.checksumMismatch
  let (roomHashBytes, cursor) ← take frame cursor 32
  let (revision, cursor) ← readU64 frame cursor
  let (previousBytes, cursor) ← take frame cursor 32
  let (checkpointGeneration, cursor) ← readU64 frame cursor
  let (endOffset, cursor) ← readU64 frame cursor
  let (checkpointDigestBytes, cursor) ← take frame cursor 32
  let (activeDeltaGeneration, cursor) ← readU64 frame cursor
  let (digestBytes, cursor) ← take frame cursor 32
  check (cursor = crcStart) (ManifestError.invalid "manifest fields are misplaced")
  let record : ManifestRecord := ⟨ByteArr.ofBytes 32 roomHashBytes, revision,
    ByteArr.ofBytes 32 previousBytes, checkpointGeneration, endOffset,
    ByteArr.ofBytes 32 checkpointDigestBytes, activeDeltaGeneration,
    ByteArr.ofBytes 32 digestBytes⟩
  validateFields record
  check (record.digest = record.expectedDigest) ManifestError.digestMismatch
  return (record, totalLen)

def decodeExact (input : Bytes) (limits : ManifestLimits) : Except ManifestError ManifestRecord := do
  let (record, consumed) ← decodeOne input limits
  check (consumed = input.length) (ManifestError.invalid "trailing bytes after manifest record")
  return record

end ManifestRecord

section Stream

open Manifest

variable [Hashing]

/-- The loop of `decode_manifest_stream`.  A record is never empty, so the
length of the input is enough fuel and the first branch is not reached. -/
def decodeManifestRecords (limits : ManifestLimits) :
    Nat → Bytes → Nat → Except ManifestError (List ManifestRecord)
  | 0, _, _ => .error .truncated
  | fuel + 1, input, count =>
    if input = [] then return []
    else do
      enforceLimit "manifest record count" (count + 1) limits.maxRecords
      let (record, consumed) ← ManifestRecord.decodeOne input limits
      check (consumed ≤ input.length) ManifestError.truncated
      let records ← decodeManifestRecords limits fuel (input.drop consumed) (count + 1)
      return record :: records

def decodeManifestStream (input : Bytes) (limits : ManifestLimits) :
    Except ManifestError (List ManifestRecord) := do
  enforceLimit "manifest stream bytes" input.length limits.maxStreamBytes
  decodeManifestRecords limits (input.length + 1) input 0

/-- The checks between a record and the one before it. -/
def validateManifestWindow (roomId : String) (previous current : ManifestRecord) :
    Except ManifestError Unit := do
  check (current.belongsToRoom roomId) ManifestError.wrongRoom
  let expectedRevision ← okOr (checkedAddU64 previous.revision 1) ManifestError.lengthOverflow
  check (current.revision = expectedRevision) (ManifestError.invalid "manifest revision gap")
  check (current.previousRecordDigest = previous.digest)
    (ManifestError.invalid "manifest predecessor digest mismatch")
  check (previous.checkpointGeneration < current.checkpointGeneration)
    (ManifestError.invalid "checkpoint generation did not advance")
  check (previous.activeDeltaGeneration < current.activeDeltaGeneration)
    (ManifestError.invalid "active delta generation did not advance")

/-- The loop over the windows of two records.  It answers the last record. -/
def validateManifestWindows (roomId : String) :
    ManifestRecord → List ManifestRecord → Except ManifestError ManifestRecord
  | latest, [] => return latest
  | previous, current :: rest => do
    validateManifestWindow roomId previous current
    validateManifestWindows roomId current rest

def validateManifestChain (records : List ManifestRecord) (roomId : String) :
    Except ManifestError ManifestRecord :=
  match records with
  | [] => .error .emptyStream
  | first :: rest => do
    check (first.belongsToRoom roomId) ManifestError.wrongRoom
    check (first.revision = 0) (ManifestError.invalid "first manifest revision is not zero")
    check (first.previousRecordDigest = genesisDigest)
      (ManifestError.invalid "first manifest record has a predecessor")
    validateManifestWindows roomId first rest

end Stream

end LoroGateway
