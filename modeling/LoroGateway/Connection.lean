import LoroGateway.Protocol
import Mathlib.Data.List.AList

/-!
# One client connection

`handle_message` and `expire_fragments` of `src/server.rs`.  A connection
remembers the rooms it asked to join and the fragment batches it has not put
together yet, and it turns each message into answers to the client and
commands to the rooms.

The times are those of `Instant::now()`, in milliseconds.  Each message comes
with the time at which it is handled.  Nothing below needs the times to grow.
-/

namespace LoroGateway

open ByteCodec

/-- The CRDT a message speaks of.  The gateway serves Loro alone. -/
inductive CrdtType
  | loro
  | other (tag : Bytes)
  deriving DecidableEq

/-- What a client sends, after `decode_bounded`.  The messages that only a
server sends, and the acknowledgements, are ignored. -/
inductive ClientMessage
  | joinRequest (crdt : CrdtType) (roomId : String) (version : Bytes)
  | docUpdate (crdt : CrdtType) (roomId : String) (updates : List Bytes) (batchId : BatchId)
  | docUpdateFragmentHeader (crdt : CrdtType) (roomId : String) (batchId : BatchId)
      (fragmentCount totalSizeBytes : UInt64)
  | docUpdateFragment (crdt : CrdtType) (roomId : String) (batchId : BatchId) (index : UInt64)
      (fragment : Bytes)
  | leave (crdt : CrdtType) (roomId : String)
  | ignored
  deriving DecidableEq

/-- What a message lets out: an answer to the client, or a command on the
mailbox of a room. -/
inductive Effect
  | joinError (crdt : CrdtType) (roomId : String) (code : JoinErrorCode) (message : String)
      (receiverVersion : Option Bytes) (appCode : Option String)
  | ack (crdt : CrdtType) (roomId : String) (refId : BatchId) (status : UpdateStatusCode)
  | room (roomId : String) (command : Command)
  deriving DecidableEq

/-- `ServerConfig`, without the limits of `decode_bounded`. -/
structure ServerConfig where
  maxFragmentBatches : Nat
  maxFragmentsPerBatch : UInt64
  maxReassembledBytes : UInt64
  maxFragmentBytesPerConnection : UInt64
  /-- A `Duration`, in milliseconds. -/
  fragmentTimeout : Nat

def ServerConfig.default : ServerConfig where
  maxFragmentBatches := 8
  maxFragmentsPerBatch := 4096
  maxReassembledBytes := 32 * 1024 * 1024
  maxFragmentBytesPerConnection := 64 * 1024 * 1024
  fragmentTimeout := 10 * 1000

@[ext]
structure FragmentKey where
  roomId : String
  batchId : BatchId
  deriving DecidableEq

structure FragmentBatch where
  totalSize : UInt64
  chunks : List (Option Bytes)
  received : Nat
  receivedBytes : UInt64
  deadline : Nat
  deriving DecidableEq

/-- `HashMap<FragmentKey, FragmentBatch>`. -/
abbrev Fragments := AList fun _ : FragmentKey => FragmentBatch

/-- `try_fold` of `checked_add` over the sizes of the batches. -/
def Fragments.reservedBytes (fragments : Fragments) : Option UInt64 :=
  fragments.entries.foldlM (fun sum entry => checkedAddU64 sum entry.2.totalSize) 0

/-- `HashMap::retain`. -/
def Fragments.retain (fragments : Fragments) (keep : FragmentKey → FragmentBatch → Bool) :
    Fragments :=
  ⟨fragments.entries.filter fun entry => keep entry.1 entry.2,
    fragments.nodupKeys.sublist List.filter_sublist⟩

/-- `usize::saturating_add`. -/
def saturatingAdd (a b : Nat) : Nat := min (a + b) (wordSize - 1)

/-- What `handle_message` borrows and does not change. -/
structure Session where
  config : ServerConfig
  connectionId : UInt64
  outbound : PeerSender

structure Connection where
  joined : Finset String
  fragments : Fragments

namespace Connection

/-- The connection before its first message. -/
def new : Connection := ⟨∅, ∅⟩

/-- `fragments.remove(&key)`. -/
def remove (c : Connection) (key : FragmentKey) : Connection :=
  { c with fragments := c.fragments.erase key }

/-- `fragments.insert(key, batch)`, and an assignment through `get_mut`. -/
def put (c : Connection) (key : FragmentKey) (batch : FragmentBatch) : Connection :=
  { c with fragments := c.fragments.insert key batch }

/-- `JoinRequest`. -/
def joinRequest (s : Session) (c : Connection) (crdt : CrdtType) (roomId : String)
    (version : Bytes) : Connection × List Effect :=
  if crdt ≠ .loro then
    (c, [.joinError crdt roomId .appError "only %LOR rooms are supported" none
      (some "unsupported_crdt")])
  else
    ({ c with joined := insert roomId c.joined },
      [.room roomId (.join s.connectionId version s.outbound)])

/-- `DocUpdate`. -/
def docUpdate (s : Session) (c : Connection) (crdt : CrdtType) (roomId : String)
    (updates : List Bytes) (batchId : BatchId) : Connection × List Effect :=
  if crdt ≠ .loro ∨ roomId ∉ c.joined then (c, [.ack crdt roomId batchId .permissionDenied])
  else (c, [.room roomId (.update s.connectionId batchId updates s.outbound)])

/-- The header names a batch that the gateway is willing to put together. -/
def headerFits (config : ServerConfig) (fragmentCount totalSizeBytes : UInt64) : Prop :=
  fragmentCount ≠ 0 ∧ fragmentCount ≤ config.maxFragmentsPerBatch ∧
    totalSizeBytes ≠ 0 ∧ totalSizeBytes ≤ config.maxReassembledBytes

instance (config : ServerConfig) (fragmentCount totalSizeBytes : UInt64) :
    Decidable (headerFits config fragmentCount totalSizeBytes) :=
  inferInstanceAs (Decidable (_ ∧ _))

/-- `DocUpdateFragmentHeader`. -/
def fragmentHeader (s : Session) (now : Nat) (c : Connection) (crdt : CrdtType) (roomId : String)
    (batchId : BatchId) (fragmentCount totalSizeBytes : UInt64) : Connection × List Effect :=
  if crdt ≠ .loro ∨ roomId ∉ c.joined then (c, [.ack crdt roomId batchId .permissionDenied])
  else if ¬ headerFits s.config fragmentCount totalSizeBytes then
    (c, [.ack crdt roomId batchId .payloadTooLarge])
  else
    let key : FragmentKey := { roomId, batchId }
    match c.fragments.lookup key with
    | some existing =>
      if existing.totalSize = totalSizeBytes ∧
          u64OfUsize existing.chunks.length = some fragmentCount then (c, [])
      else (c.remove key, [.ack crdt roomId batchId .invalidUpdate])
    | none =>
      if s.config.maxFragmentBatches ≤ c.fragments.entries.length then
        (c, [.ack crdt roomId batchId .rateLimited])
      else if (c.fragments.reservedBytes.bind (checkedAddU64 · totalSizeBytes)).all
          (s.config.maxFragmentBytesPerConnection < ·) then
        (c, [.ack crdt roomId batchId .payloadTooLarge])
      else
        (c.put key {
          totalSize := totalSizeBytes
          chunks := List.replicate fragmentCount.toNat none
          received := 0
          receivedBytes := 0
          deadline := now + s.config.fragmentTimeout }, [])

/-- What becomes of a batch that has as many chunks as slots. -/
def assemble (s : Session) (key : FragmentKey) (batch : FragmentBatch) : List Effect :=
  match batch.chunks.mapM id with
  | none => []
  | some chunks =>
    let update := chunks.flatten
    if u64OfUsize update.length ≠ some batch.totalSize then
      [.ack .loro key.roomId key.batchId .invalidUpdate]
    else [.room key.roomId (.update s.connectionId key.batchId [update] s.outbound)]

/-- The end of `DocUpdateFragment`: a batch that has all its chunks is taken
out and put together. -/
def complete (s : Session) (c : Connection) (key : FragmentKey) (batch : FragmentBatch) :
    Connection × List Effect :=
  if batch.received = batch.chunks.length then (c.remove key, assemble s key batch) else (c, [])

/-- `DocUpdateFragment`. -/
def fragment (s : Session) (c : Connection) (crdt : CrdtType) (roomId : String)
    (batchId : BatchId) (index : UInt64) (fragment : Bytes) : Connection × List Effect :=
  if crdt ≠ .loro ∨ roomId ∉ c.joined then (c, [.ack crdt roomId batchId .permissionDenied])
  else
    let key : FragmentKey := { roomId, batchId }
    match c.fragments.lookup key with
    | none => (c, [.ack crdt roomId batchId .fragmentTimeout])
    | some batch =>
      match batch.chunks[index.toNat]? with
      | none => (c, [.ack crdt roomId batchId .invalidUpdate])
      | some slot =>
        match u64OfUsize fragment.length with
        | none => (c.remove key, [.ack crdt roomId batchId .payloadTooLarge])
        | some fragmentLen =>
          match slot with
          | some existing =>
            if existing ≠ fragment then
              (c.remove key, [.ack crdt roomId batchId .invalidUpdate])
            else (c, [])
          | none =>
            match checkedAddU64 batch.receivedBytes fragmentLen with
            | none => (c.remove key, [.ack crdt roomId batchId .payloadTooLarge])
            | some receivedBytes =>
              if batch.totalSize < receivedBytes then
                (c.remove key, [.ack crdt roomId batchId .invalidUpdate])
              else
                let batch := { batch with
                  chunks := batch.chunks.set index.toNat (some fragment)
                  received := saturatingAdd batch.received 1
                  receivedBytes }
                (c.put key batch).complete s key batch

/-- `Leave`. -/
def leave (s : Session) (c : Connection) (crdt : CrdtType) (roomId : String) :
    Connection × List Effect :=
  if crdt = .loro ∧ roomId ∈ c.joined then
    ({ joined := c.joined.erase roomId
       fragments := c.fragments.retain fun key _ => key.roomId ≠ roomId },
      [.room roomId (.leave s.connectionId)])
  else (c, [])

/-- `handle_message`. -/
def handleMessage (s : Session) (now : Nat) (c : Connection) :
    ClientMessage → Connection × List Effect
  | .joinRequest crdt roomId version => c.joinRequest s crdt roomId version
  | .docUpdate crdt roomId updates batchId => c.docUpdate s crdt roomId updates batchId
  | .docUpdateFragmentHeader crdt roomId batchId fragmentCount totalSizeBytes =>
    c.fragmentHeader s now crdt roomId batchId fragmentCount totalSizeBytes
  | .docUpdateFragment crdt roomId batchId index bytes =>
    c.fragment s crdt roomId batchId index bytes
  | .leave crdt roomId => c.leave s crdt roomId
  | .ignored => (c, [])

/-- `expire_fragments`. -/
def expireFragments (now : Nat) (c : Connection) : Connection × List Effect :=
  ({ c with fragments := c.fragments.retain fun _ batch => ¬ batch.deadline ≤ now },
    (c.fragments.entries.filter fun entry => entry.2.deadline ≤ now).map fun entry =>
      .ack .loro entry.1.roomId entry.1.batchId .fragmentTimeout)

end Connection

/-- One turn of the loop of `connection`: it expires the batches that are late,
or it handles a message. -/
inductive Input
  | message (now : Nat) (message : ClientMessage)
  | expire (now : Nat)

namespace Connection

def step (s : Session) (c : Connection) : Input → Connection × List Effect
  | .message now message => c.handleMessage s now message
  | .expire now => c.expireFragments now

/-- The connection after a list of turns, and all that they let out. -/
def run (s : Session) (c : Connection) : List Input → Connection × List Effect
  | [] => (c, [])
  | input :: inputs =>
    let (next, effects) := c.step s input
    let (last, later) := run s next inputs
    (last, effects ++ later)

end Connection

end LoroGateway
