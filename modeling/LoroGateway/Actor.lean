import LoroGateway.Protocol
import LoroGateway.Recovery
import LoroGateway.Rotation

/-!
# The room actor

`src/actor.rs`.  One actor owns one room.  It starts by recovering the room from
the store and then handles commands one at a time.

* `activate` is `RoomActor::new` and the part of `run` before its loop.
* `handle` is one turn of the loop of `run`.
* `update` is split where the source has its two stages: `admitUpdate` is
  everything before the append, and `finishUpdate` is what follows from the
  resolution of the append.

The published status and the timings are left out: nothing else reads them.
-/

namespace LoroGateway

open ByteCodec CrashLogic

inductive RoomLifecycle
  | recovering
  | ready
  | appendAmbiguous
  | corrupt
  | unavailable
  deriving DecidableEq, Repr

def RoomLifecycle.asStr : RoomLifecycle → String
  | .recovering => "recovering"
  | .ready => "ready"
  | .appendAmbiguous => "append_ambiguous"
  | .corrupt => "corrupt"
  | .unavailable => "unavailable"

structure ActorConfig where
  ambiguousRetries : Nat
  frameLimits : FrameLimits
  deriving DecidableEq, Repr

def ActorConfig.default : ActorConfig where
  ambiguousRetries := 5
  frameLimits := .default

structure PendingAppend where
  targetStream : String
  producer : ProducerTuple
  frame : DeltaFrame
  bytes : Bytes
  deriving DecidableEq

inductive DurableAppend
  | committed (nextOffset : UInt64)
  | verifiedDuplicate (nextOffset : UInt64)
  deriving DecidableEq, Repr

def DurableAppend.nextOffset : DurableAppend → UInt64
  | .committed nextOffset => nextOffset
  | .verifiedDuplicate nextOffset => nextOffset

inductive AppendFailure
  | definitelyRejected (kind : RejectionKind) (message : String)
  | outcomeUnknown (source : StoreError)
  deriving DecidableEq, Repr

structure InitializationFailure where
  state : RoomLifecycle
  message : String
  deriving DecidableEq, Repr

/-- The joined connections.  A map from connection ids; the order is the one in
which an update is fanned out. -/
abbrev Peers := List (UInt64 × PeerSender)

namespace Peers

def remove (peers : Peers) (connectionId : UInt64) : Peers :=
  peers.filter fun entry => entry.1 ≠ connectionId

def insert (peers : Peers) (connectionId : UInt64) (peer : PeerSender) : Peers :=
  peers.remove connectionId ++ [(connectionId, peer)]

def containsKey (peers : Peers) (connectionId : UInt64) : Prop :=
  ∃ entry ∈ peers, entry.1 = connectionId

instance (peers : Peers) (connectionId : UInt64) : Decidable (peers.containsKey connectionId) :=
  inferInstanceAs (Decidable (∃ entry ∈ peers, entry.1 = connectionId))

end Peers

/-- What the process gives an actor at its start: the id of the boot, and the values that
will come to it from `SERVER_BATCH_ID`.  All actors of a process draw from that one counter,
so what comes to one of them depends on the others and is left open here. -/
structure Boot where
  bootId : ByteArr 16
  serverBatchIds : Stream' UInt64

structure RoomActor (Doc : Type) where
  roomId : String
  bootId : ByteArr 16
  stream : String
  activeDeltaGeneration : GenerationId
  activeDeltaEndOffset : UInt64
  producerId : String
  producerSequence : UInt64
  doc : Doc
  history : List Bytes
  peers : Peers
  blocked : Option PendingAppend
  lifecycle : RoomLifecycle
  lastError : Option String
  /-- The values of the server batch counter that will come to this actor. -/
  serverBatchIds : Stream' UInt64
  config : ActorConfig

section Blobs

variable {Doc : Type} [Loro Doc]

/-- The checks of one blob of `count`. -/
def validateUpdateBlob (Doc : Type) [Loro Doc] (allowSnapshot : Bool) (count : Nat)
    (update : Bytes) : Except String Unit := do
  check (update ≠ []) "DocUpdate contains an empty update"
  match ← Loro.decodeImportBlobMeta Doc update with
  | .snapshot =>
    check (allowSnapshot ∧ count = 1)
      "full snapshots are accepted only as the sole blob in an empty room"
  | .updates => return ()
  | .shallowSnapshot => throw "shallow snapshots are not supported"
  | .outdatedSnapshot | .outdatedRle => throw "outdated Loro encodings are not supported"

def validateUpdateBlobs (Doc : Type) [Loro Doc] (updates : List Bytes) (allowSnapshot : Bool) :
    Except String Unit := do
  check (updates ≠ []) "DocUpdate contains no updates"
  updates.forM (validateUpdateBlob Doc allowSnapshot updates.length)

/-- Import a list of blobs, if there are any. -/
def importAll (doc : Doc) (updates : List Bytes) : Except String Doc :=
  if updates = [] then return doc
  else do
    let imported ← Loro.importBatch doc updates
    return imported.1

def buildCandidate (currentDoc : Doc) (retainedHistory newUpdates : List Bytes) :
    Except String Doc := do
  let snapshot ← Loro.exportSnapshot currentDoc
  let candidate ← Loro.fromSnapshot snapshot
  importAll candidate (retainedHistory ++ newUpdates)

def replay (Doc : Type) [Loro Doc] (updates : List Bytes) : Except String Doc :=
  importAll Loro.new updates

/-- The history that the frames of a delta stream hold.  A snapshot is allowed
while the history is empty. -/
def collectHistory (Doc : Type) [Loro Doc] :
    List Bytes → List DeltaFrame → Except String (List Bytes)
  | history, [] => return history
  | history, frame :: frames => do
    validateUpdateBlobs Doc frame.updates history.isEmpty
    collectHistory Doc (history ++ frame.updates) frames

end Blobs

def initializationStoreFailure (error : StoreError) : InitializationFailure where
  state :=
    match error with
    | .integrity _ => .corrupt
    | _ => .unavailable
  message := error.display

def manifestRecoveryFailure (error : RecoveryError) : InitializationFailure where
  state :=
    match error with
    | .store (.integrity _) => .corrupt
    | .store _ => .unavailable
    | _ => .corrupt
  message := error.display

section

variable [Hashing]

/-- The comparison of a deduplicated range with the frame that was retried. -/
def verifyDuplicateBytes (pending : PendingAppend) (stored : Bytes) (limits : FrameLimits) :
    Except StoreError Unit := do
  check (stored.length = pending.bytes.length)
    (StoreError.integrity ("duplicate range length mismatch: expected " ++
      pending.bytes.length.repr ++ ", received " ++ stored.length.repr))
  check (stored = pending.bytes)
    (StoreError.integrity "deduplicated tuple is bound to different frame bytes")
  let storedFrame ← (DeltaFrame.decodeExact stored limits).mapError fun error =>
    StoreError.integrity error.display
  check (storedFrame.producer = pending.producer)
    (StoreError.integrity "deduplicated committed range has wrong producer tuple")
  check (storedFrame = pending.frame)
    (StoreError.integrity "deduplicated committed range has different frame fields")

/-- Settle a duplicate answer of `resolve_append`. -/
def resolveDuplicate (config : ActorConfig) (pending : PendingAppend) (nextOffset : UInt64) :
    ExceptT StoreError StoreM Unit := do
  let frameLen ← okOr (u64OfUsize pending.bytes.length)
    (StoreError.integrity "frame length does not fit u64")
  let start ← okOr (checkedSubU64 nextOffset frameLen)
    (StoreError.integrity "duplicate next offset is smaller than retry frame")
  let stored ← ExceptT.mk (UrsulaStore.readRange pending.targetStream start pending.bytes.length)
  liftM (verifyDuplicateBytes pending stored config.frameLimits)

/-- The loop of `resolve_append`, with the retries that are left. -/
def resolveAttempts (config : ActorConfig) (pending : PendingAppend) (left : Nat) :
    StoreM (Except AppendFailure DurableAppend) := do
  match ← UrsulaStore.append pending.targetStream pending.producer pending.bytes with
  | .ok (.committed nextOffset) => return .ok (.committed nextOffset)
  | .ok (.duplicate nextOffset) =>
    match ← (resolveDuplicate config pending nextOffset).run with
    | .ok () => return .ok (.verifiedDuplicate nextOffset)
    | .error error => return .error (.outcomeUnknown error)
  | .error (.ambiguous message) =>
    match left with
    | 0 => return .error (.outcomeUnknown (.ambiguous message))
    | left + 1 => resolveAttempts config pending left
  | .error (.rejected kind message) => return .error (.definitelyRejected kind message)
  | .error error => return .error (.outcomeUnknown error)

def resolveAppend (config : ActorConfig) (pending : PendingAppend) :
    StoreM (Except AppendFailure DurableAppend) :=
  resolveAttempts config pending config.ambiguousRetries

/-- What `load_from_store` makes of the bytes it read. -/
def replayStream (Doc : Type) [Loro Doc] (limits : FrameLimits) (bytes : Bytes) :
    Except InitializationFailure (List Bytes × Doc) := do
  let frames ← (decodeAllWithLimits bytes limits).mapError fun error =>
    InitializationFailure.mk .corrupt error.display
  let history ← (collectHistory Doc [] frames).mapError (InitializationFailure.mk .corrupt)
  let doc ← (replay Doc history).mapError (InitializationFailure.mk .corrupt)
  return (history, doc)

namespace RoomActor

variable {Doc : Type} [Loro Doc]

def new (roomId : String) (boot : Boot) (config : ActorConfig) : RoomActor Doc where
  roomId := roomId
  bootId := boot.bootId
  stream := (deltaStream roomId).physical
  activeDeltaGeneration := .zero
  activeDeltaEndOffset := 0
  producerId := LoroGateway.producerId boot.bootId roomId
  producerSequence := 0
  doc := Loro.new
  history := []
  peers := []
  blocked := none
  lifecycle := .recovering
  lastError := none
  serverBatchIds := boot.serverBatchIds
  config := config

def transition (a : RoomActor Doc) (state : RoomLifecycle) (lastError : Option String) :
    RoomActor Doc :=
  { a with lifecycle := state, lastError := lastError }

/-- `load_from_store`.  The end offset is set as soon as the stream has been
read, also when the replay fails. -/
def loadFromStore (a : RoomActor Doc) :
    StoreM (RoomActor Doc × Except InitializationFailure (List Bytes × Doc)) := do
  match ← UrsulaStore.readAllObserved a.stream with
  | .error error => return (a, .error (initializationStoreFailure error))
  | .ok bytes =>
    match u64OfUsize bytes.length with
    | none => return (a, .error ⟨.corrupt, "delta stream length does not fit u64"⟩)
    | some endOffset =>
      return ({ a with activeDeltaEndOffset := endOffset },
        replayStream Doc a.config.frameLimits bytes)

/-- The actor that a recovery from the manifest sets up. -/
def withRecovery (a : RoomActor Doc) (recovered : ManifestRecovery Doc) : RoomActor Doc :=
  { a with
    stream := recovered.activeDeltaStream
    activeDeltaGeneration := recovered.activeDeltaGeneration
    activeDeltaEndOffset := recovered.activeDeltaEndOffset
    producerId := producerIdForGeneration a.bootId a.roomId recovered.activeDeltaGeneration
    producerSequence := 0
    history := recovered.history
    doc := recovered.doc }

/-- The function `initialize` of the source. -/
def initializeActor (a : RoomActor Doc) :
    StoreM (RoomActor Doc × Except InitializationFailure Unit) := do
  match ← (recoverFromManifest Doc a.roomId a.config.frameLimits).run with
  | .error error => return (a, .error (manifestRecoveryFailure error))
  | .ok (some recovered) => return (a.withRecovery recovered, .ok ())
  | .ok none =>
    match ← UrsulaStore.ensureStream a.stream with
    | .error error => return (a, .error (initializationStoreFailure error))
    | .ok () =>
      match ← a.loadFromStore with
      | (a, .error failure) => return (a, .error failure)
      | (a, .ok (history, doc)) => return ({ a with history := history, doc := doc }, .ok ())

/-- The start of an actor, up to its first command. -/
def activate (roomId : String) (config : ActorConfig) (boot : Boot) :
    StoreM (RoomActor Doc) := do
  match ← (new roomId boot config).initializeActor with
  | (a, .ok ()) => return a.transition .ready none
  | (a, .error failure) => return a.transition failure.state (some failure.message)

def rejectUnavailable (a : RoomActor Doc) : Command → List Output
  | .rotate => [.respond false]
  | .join _ _ peer =>
    [.send peer (.joinError a.roomId .appError (a.lastError.getD a.lifecycle.asStr) none
      (some a.lifecycle.asStr))]
  | .update _ batchId _ peer => sendAck peer a.roomId batchId .unknown
  | .leave _ => []
  | .retryAmbiguous => [.respond false]
  | .waitForActivation => [.activated]

/-- The version of a join request: empty bytes name no version. -/
def clientVersion (Doc : Type) [Loro Doc] (version : Bytes) :
    Except String (Option (Loro.Version Doc)) :=
  if version = [] then return none
  else do
    let decoded ← Loro.decodeVersion version
    return some decoded

/-- The backfill that answers a join. -/
def exportFor (doc : Doc) : Option (Loro.Version Doc) → Except String Bytes
  | some version => Loro.exportUpdates doc version
  | none => Loro.exportSnapshot doc

def join (a : RoomActor Doc) (connectionId : UInt64) (version : Bytes) (peer : PeerSender) :
    RoomActor Doc × List Output :=
  if a.lifecycle ≠ .ready then
    (a, [.send peer (.joinError a.roomId .appError "room state is not authoritative" none
      (some a.lifecycle.asStr))])
  else
    match clientVersion Doc version with
    | .error message =>
      (a, [.send peer (.joinError a.roomId .versionUnknown message
        (some (Loro.encodeVersion (Loro.oplogVV a.doc))) none)])
    | .ok clientVersion =>
      let a := { a with peers := a.peers.insert connectionId peer }
      let response : Output := .send peer (.joinResponseOk a.roomId .write
        (Loro.encodeVersion (Loro.oplogVV a.doc)) (some []))
      if Loro.lenOps a.doc = 0 then (a, [response])
      else
        match exportFor a.doc clientVersion with
        | .ok update =>
          ({ a with serverBatchIds := a.serverBatchIds.tail },
            response :: sendUpdate peer a.roomId update a.serverBatchIds.head)
        | .error message => (a, response :: sendRoomError peer a.roomId message)

/-- What `update` has prepared when it submits the append. -/
structure Admission (Doc : Type) where
  pending : PendingAppend
  nextProducerSequence : UInt64
  candidateHistory : List Bytes
  candidate : Doc

/-- The part of `update` before the append.  An error is the status of the
acknowledgement that refuses the batch. -/
def admitUpdate (a : RoomActor Doc) (connectionId : UInt64) (batchId : BatchId)
    (updates : List Bytes) : Except UpdateStatusCode (Admission Doc) := do
  check (a.peers.containsKey connectionId) UpdateStatusCode.permissionDenied
  check (a.lifecycle = .ready ∧ a.blocked = none) UpdateStatusCode.rateLimited
  (validateUpdateBlobs Doc updates a.history.isEmpty).mapError fun _ =>
    UpdateStatusCode.invalidUpdate
  let candidate ← (buildCandidate a.doc a.history updates).mapError fun _ =>
    UpdateStatusCode.invalidUpdate
  let producer : ProducerTuple := ⟨a.producerId, 0, a.producerSequence⟩
  let nextProducerSequence ← okOr (checkedAddU64 a.producerSequence 1) UpdateStatusCode.appError
  let frame := DeltaFrame.new producer batchId updates
  let bytes ← (frame.encodeWithLimits a.config.frameLimits).mapError fun _ =>
    UpdateStatusCode.payloadTooLarge
  return ⟨⟨a.stream, producer, frame, bytes⟩, nextProducerSequence, a.history ++ updates, candidate⟩

/-- The status that answers a definite rejection. -/
def rejectionStatus : RejectionKind → UpdateStatusCode
  | .permissionDenied => .permissionDenied
  | .payloadTooLarge => .payloadTooLarge
  | .rateLimited => .rateLimited
  | .invalid => .invalidUpdate
  | _ => .appError

/-- The peers and blobs of the fan-out of a batch. -/
def fanOut (a : RoomActor Doc) (connectionId : UInt64) (updates : List Bytes) :
    List (PeerSender × Bytes) :=
  (a.peers.filter fun entry => entry.1 ≠ connectionId).flatMap fun entry =>
    updates.map fun update => (entry.2, update)

/-- The part of `update` after the append. -/
def finishUpdate (a : RoomActor Doc) (connectionId : UInt64) (batchId : BatchId)
    (updates : List Bytes) (peer : PeerSender) (admission : Admission Doc) :
    Except AppendFailure DurableAppend → RoomActor Doc × List Output
  | .ok proof =>
    let (outputs, left) := sendUpdates a.roomId (a.fanOut connectionId updates)
      a.serverBatchIds
    (({ a with
        producerSequence := admission.nextProducerSequence
        activeDeltaEndOffset := proof.nextOffset
        history := admission.candidateHistory
        doc := admission.candidate
        serverBatchIds := left } : RoomActor Doc).transition .ready none,
      outputs ++ sendAck peer a.roomId batchId .ok)
  | .error (.definitelyRejected kind _) =>
    (a, sendAck peer a.roomId batchId (rejectionStatus kind))
  | .error (.outcomeUnknown error) =>
    ({ a with blocked := some admission.pending }.transition .appendAmbiguous (some error.display),
      sendAck peer a.roomId batchId .unknown ++ sendRoomError peer a.roomId error.display)

def update (a : RoomActor Doc) (connectionId : UInt64) (batchId : BatchId) (updates : List Bytes)
    (peer : PeerSender) : StoreM (RoomActor Doc × List Output) :=
  match a.admitUpdate connectionId batchId updates with
  | .error status => return (a, sendAck peer a.roomId batchId status)
  | .ok admission => do
    let resolved ← resolveAppend a.config admission.pending
    return a.finishUpdate connectionId batchId updates peer admission resolved

/-- The actor that a completed rotation sets up.  The document is kept. -/
def withRotation (a : RoomActor Doc) (rotated : RotationResult) : RoomActor Doc :=
  ({ a with
    stream := rotated.nextDeltaStream
    activeDeltaGeneration := rotated.nextDeltaGeneration
    activeDeltaEndOffset := 0
    producerId := producerIdForGeneration a.bootId a.roomId rotated.nextDeltaGeneration
    producerSequence := 0
    history := rotated.retainedHistory } : RoomActor Doc).transition .ready none

def rotateGeneration (a : RoomActor Doc) : StoreM (RoomActor Doc × Bool) :=
  if a.lifecycle ≠ .ready ∨ a.blocked ≠ none then return (a, false)
  else do
    match ← (rotateRoom a.roomId a.activeDeltaGeneration a.activeDeltaEndOffset a.doc a.history
        a.config.ambiguousRetries).run with
    | .ok rotated => return (a.withRotation rotated, true)
    | .error error => return (a.transition .unavailable (some error.display), false)

/-- The part of `retry_pending` after a successful resolution, from the actor
and the answer of `load_from_store`. -/
def finishReload (pending : PendingAppend) (a : RoomActor Doc) :
    Except InitializationFailure (List Bytes × Doc) → RoomActor Doc × Bool
  | .ok (history, doc) =>
    match checkedAddU64 pending.producer.sequence 1 with
    | none =>
      ({ a with blocked := some pending }.transition .unavailable
        (some "producer sequence exhausted during reconciliation"), false)
    | some nextSequence =>
      (({ a with
          producerSequence := nextSequence
          history := history
          doc := doc } : RoomActor Doc).transition .ready none, true)
  | .error failure =>
    ({ a with blocked := some pending }.transition failure.state (some failure.message), false)

def retryPending (a : RoomActor Doc) : StoreM (RoomActor Doc × Bool) :=
  match a.blocked with
  | none => return (a, false)
  | some pending => do
    let a := { a with blocked := none }
    match ← resolveAppend a.config pending with
    | .ok _ =>
      let (a, loaded) ← a.loadFromStore
      return finishReload pending a loaded
    | .error (.definitelyRejected kind message) =>
      return ({ a with blocked := some pending }.transition .unavailable
        (some ("ambiguous append retry was definitely rejected (" ++ kind.debug ++ "): " ++ message)),
        false)
    | .error (.outcomeUnknown error) =>
      return ({ a with blocked := some pending }.transition .appendAmbiguous (some error.display),
        false)

/-- The states in which a room answers no join and no update. -/
def Closed (a : RoomActor Doc) : Prop :=
  a.lifecycle = .recovering ∨ a.lifecycle = .corrupt ∨ a.lifecycle = .unavailable

instance (a : RoomActor Doc) : Decidable a.Closed :=
  inferInstanceAs (Decidable (_ ∨ _ ∨ _))

/-- One turn of the loop of `run`. -/
def handle (command : Command) (a : RoomActor Doc) : StoreM (RoomActor Doc × List Output) :=
  match command with
  | .waitForActivation => return (a, [.activated])
  | .retryAmbiguous => do
    let (a, reconciled) ← a.retryPending
    return (a, [.respond reconciled])
  | .rotate => do
    let (a, rotated) ← a.rotateGeneration
    return (a, [.respond rotated])
  | command =>
    if a.Closed then return (a, a.rejectUnavailable command)
    else
      match command with
      | .join connectionId version peer => return a.join connectionId version peer
      | .update connectionId batchId updates peer => a.update connectionId batchId updates peer
      | .leave connectionId => return ({ a with peers := a.peers.remove connectionId }, [])
      | _ => return (a, [])

end RoomActor

end

end LoroGateway
