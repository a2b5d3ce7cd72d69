import Mathlib.Data.Stream.Defs
import LoroGateway.Frame
import LoroGateway.Store

/-!
# What a room tells its peers

The messages of the crate `loro_protocol` that `src/actor.rs` sends, the
helpers that send them, and the commands that a room receives.  All messages
are of the CRDT type Loro.  A peer is named by the sender it was given.
-/

namespace LoroGateway

open ByteCodec

inductive UpdateStatusCode
  | ok
  | unknown
  | permissionDenied
  | invalidUpdate
  | payloadTooLarge
  | rateLimited
  | fragmentTimeout
  | appError
  deriving DecidableEq, Repr

inductive JoinErrorCode
  | versionUnknown
  | appError
  deriving DecidableEq, Repr

inductive RoomErrorCode
  | unknown
  deriving DecidableEq, Repr

inductive Permission
  | write
  deriving DecidableEq, Repr

inductive ProtocolMessage
  | joinResponseOk (roomId : String) (permission : Permission) (version : Bytes)
      (extra : Option Bytes)
  | joinError (roomId : String) (code : JoinErrorCode) (message : String)
      (receiverVersion : Option Bytes) (appCode : Option String)
  | docUpdate (roomId : String) (updates : List Bytes) (batchId : BatchId)
  | docUpdateFragmentHeader (roomId : String) (batchId : BatchId) (fragmentCount : UInt64)
      (totalSizeBytes : UInt64)
  | docUpdateFragment (roomId : String) (batchId : BatchId) (index : UInt64) (fragment : Bytes)
  | ack (roomId : String) (refId : BatchId) (status : UpdateStatusCode)
  | roomError (roomId : String) (code : RoomErrorCode) (message : String)
  deriving DecidableEq

/-- The sending half of the channel of a connection. -/
abbrev PeerSender := Nat

/-- What a command lets out: a message to a peer, or the answer on the channel
that came with the command. -/
inductive Output
  | send (peer : PeerSender) (message : ProtocolMessage)
  | respond (value : Bool)
  | activated
  deriving DecidableEq

inductive Command
  | join (connectionId : UInt64) (version : Bytes) (peer : PeerSender)
  | update (connectionId : UInt64) (batchId : BatchId) (updates : List Bytes) (peer : PeerSender)
  | leave (connectionId : UInt64)
  | retryAmbiguous
  | waitForActivation
  | rotate
  deriving DecidableEq

def sendAck (peer : PeerSender) (roomId : String) (batchId : BatchId) (status : UpdateStatusCode) :
    List Output :=
  [.send peer (.ack roomId batchId status)]

def sendRoomError (peer : PeerSender) (roomId : String) (message : String) : List Output :=
  [.send peer (.roomError roomId .unknown message)]

/-- `SERVER_BATCH_ID` as a batch id. -/
def serverBatchId (counter : UInt64) : BatchId := ⟨be64 counter, length_be64 counter⟩

def fragmentSize : Nat := 240 * 1024

/-- `update.chunks(FRAGMENT_SIZE)`. -/
def fragments (update : Bytes) (count : Nat) : List Bytes :=
  (List.range count).map fun index => (update.drop (index * fragmentSize)).take fragmentSize

/-- `send_update`, at the given value of the server batch counter. -/
def sendUpdate (peer : PeerSender) (roomId : String) (update : Bytes) (counter : UInt64) :
    List Output :=
  let batchId := serverBatchId counter
  if update.length ≤ fragmentSize then [.send peer (.docUpdate roomId [update] batchId)]
  else
    let count := (update.length + fragmentSize - 1) / fragmentSize
    .send peer (.docUpdateFragmentHeader roomId batchId (lengthWord count)
        (lengthWord update.length)) ::
      (fragments update count).mapIdx fun index fragment =>
        .send peer (.docUpdateFragment roomId batchId (lengthWord index) fragment)

/-- Send a list of updates, each to its peer.  Every update takes the next value that
comes from the server batch counter. -/
def sendUpdates (roomId : String) :
    List (PeerSender × Bytes) → Stream' UInt64 → List Output × Stream' UInt64
  | [], ids => ([], ids)
  | (peer, update) :: rest, ids =>
    let (outputs, left) := sendUpdates roomId rest ids.tail
    (sendUpdate peer roomId update ids.head ++ outputs, left)

end LoroGateway
