import LoroGateway.Admission

/-!
# What an update leaves behind

An update ends in one of ten ways, and several of them come after the candidate
document has been built.  Whichever it is, and whatever the store answers, the
sender gets one acknowledgement.  Unless that says success, nothing goes out to
the other peers, and the room is as it was, or blocked by the append.
-/

namespace LoroGateway

open ByteCodec CrashLogic

/-- An acknowledgement, with the peer that gets it. -/
def Output.ack? : Output → Option (PeerSender × String × BatchId × UpdateStatusCode)
  | .send peer (.ack roomId refId status) => some (peer, roomId, refId, status)
  | _ => none

/-- Does the output bring an update, or a part of one, to a peer? -/
def Output.bringsUpdate : Output → Bool
  | .send _ (.docUpdate _ _ _) => true
  | .send _ (.docUpdateFragmentHeader _ _ _ _) => true
  | .send _ (.docUpdateFragment _ _ _ _) => true
  | _ => false

section Outputs

variable {peer : PeerSender} {roomId : String} {update : Bytes}

theorem acks_sendUpdate (counter : UInt64) :
    (sendUpdate peer roomId update counter).filterMap Output.ack? = [] := by
  unfold sendUpdate
  split_ifs
  · rfl
  · apply List.filterMap_eq_nil_iff.mpr
    intro output hmem
    rcases List.mem_cons.mp hmem with rfl | hmem
    · rfl
    · obtain ⟨index, _, rfl⟩ := List.mem_mapIdx.mp hmem
      rfl

theorem acks_sendUpdates (sends : List (PeerSender × Bytes)) (ids : Stream' UInt64) :
    (sendUpdates roomId sends ids).1.filterMap Output.ack? = [] := by
  induction sends generalizing ids with
  | nil => rfl
  | cons first rest ih =>
    show (sendUpdate first.1 roomId first.2 ids.head ++
      (sendUpdates roomId rest ids.tail).1).filterMap Output.ack? = []
    rw [List.filterMap_append, acks_sendUpdate, ih]
    rfl

end Outputs

variable [Hashing] {Doc : Type} [Loro Doc]

namespace RoomActor

variable {a : RoomActor Doc} {connectionId : UInt64} {batchId : BatchId} {updates : List Bytes}
  {peer : PeerSender}

/-- How an update ends: one acknowledgement, and a room that only an unknown outcome
changes when the status is not success. -/
structure UpdateEnds (a : RoomActor Doc) (connectionId : UInt64) (batchId : BatchId)
    (updates : List Bytes) (peer : PeerSender) (status : UpdateStatusCode)
    (result : RoomActor Doc × List Output) : Prop where
  ack : result.2.filterMap Output.ack? = [(peer, a.roomId, batchId, status)]
  silent : status ≠ .ok → ∀ output ∈ result.2, output.bringsUpdate = false
  unchanged : status ≠ .ok → result.1 = a ∨
    status = .unknown ∧ ∃ admission error, a.Admitted connectionId batchId updates admission ∧
      result.1 = { a with
        blocked := some admission.pending
        lifecycle := .appendAmbiguous
        lastError := some error }

/-- An update that is refused before it is submitted. -/
theorem UpdateEnds.refused (status : UpdateStatusCode) :
    UpdateEnds a connectionId batchId updates peer status
      (a, sendAck peer a.roomId batchId status) where
  ack := rfl
  silent _ := by simp [sendAck, Output.bringsUpdate]
  unchanged _ := .inl rfl

/-- The status that acknowledges a resolved append. -/
def updateStatus : Except AppendFailure DurableAppend → UpdateStatusCode
  | .ok _ => .ok
  | .error (.definitelyRejected kind _) => rejectionStatus kind
  | .error (.outcomeUnknown _) => .unknown

omit [Hashing] [Loro Doc] in
theorem acks_finishUpdate (admission : Admission Doc)
    (resolved : Except AppendFailure DurableAppend) :
    (a.finishUpdate connectionId batchId updates peer admission resolved).2.filterMap Output.ack? =
      [(peer, a.roomId, batchId, updateStatus resolved)] := by
  match resolved with
  | .ok proof =>
    show ((sendUpdates a.roomId (a.fanOut connectionId updates) a.serverBatchIds).1 ++
      sendAck peer a.roomId batchId .ok).filterMap Output.ack? = _
    rw [List.filterMap_append, acks_sendUpdates]
    rfl
  | .error (.definitelyRejected kind message) => rfl
  | .error (.outcomeUnknown error) => rfl

/-- An update whose append has been resolved. -/
theorem Admitted.ends {admission : Admission Doc}
    (h : a.Admitted connectionId batchId updates admission)
    (resolved : Except AppendFailure DurableAppend) :
    ∃ status, UpdateEnds a connectionId batchId updates peer status
      (a.finishUpdate connectionId batchId updates peer admission resolved) := by
  refine ⟨updateStatus resolved, acks_finishUpdate admission resolved, ?_, ?_⟩
  · intro hne
    match resolved with
    | .ok proof => exact absurd rfl hne
    | .error (.definitelyRejected kind message) =>
      simp [finishUpdate, sendAck, Output.bringsUpdate]
    | .error (.outcomeUnknown error) =>
      simp [finishUpdate, sendAck, sendRoomError, Output.bringsUpdate]
  · intro hne
    match resolved with
    | .ok proof => exact absurd rfl hne
    | .error (.definitelyRejected kind message) => exact .inl rfl
    | .error (.outcomeUnknown error) => exact .inr ⟨rfl, admission, error.display, h, rfl⟩

/-- Whatever the state of the room and the answers of the store, an update sends one
acknowledgement, to its sender.  If that is not a success, no update goes out, and the
room is unchanged or blocked by the append whose outcome is unknown. -/
theorem update_ends (a : RoomActor Doc) (connectionId : UInt64) (batchId : BatchId)
    (updates : List Bytes) (peer : PeerSender) :
    (a.handle (.update connectionId batchId updates peer)).Always (fun _ => True)
      fun result => ∃ status, UpdateEnds a connectionId batchId updates peer status result := by
  unfold handle
  split_ifs
  · exact ⟨.unknown, .refused .unknown⟩
  · simp only [update]
    cases hadmit : a.admitUpdate connectionId batchId updates with
    | error status => exact ⟨status, .refused status⟩
    | ok admission =>
      apply Prog.Always.bind (Prog.always_true _)
      exact fun resolved _ => (admitUpdate_eq_ok hadmit).ends resolved

end RoomActor

end LoroGateway
