import LoroGateway.Actor
import LoroGateway.FrameCodec

/-!
# What an admitted update has prepared

`Admitted` says everything that `admitUpdate` checked and built, so that no
later proof has to unfold it.  The other lemmas say which acknowledgements the
branches of `update` send.
-/

namespace LoroGateway

open ByteCodec CrashLogic

def isAppend : Request → Bool
  | .append _ _ _ => true
  | _ => false

/-- The append that submits a pending frame. -/
def PendingAppend.request (pending : PendingAppend) : Request :=
  .append pending.targetStream pending.producer pending.bytes

variable [Hashing] {Doc : Type} [Loro Doc]

namespace RoomActor

variable {a : RoomActor Doc} {connectionId : UInt64} {batchId : BatchId} {updates : List Bytes}
  {admission : Admission Doc} {peer : PeerSender}

structure Admitted (a : RoomActor Doc) (connectionId : UInt64) (batchId : BatchId)
    (updates : List Bytes) (admission : Admission Doc) : Prop where
  joined : a.peers.containsKey connectionId
  ready : a.lifecycle = .ready
  unblocked : a.blocked = none
  blobs : validateUpdateBlobs Doc updates a.history.isEmpty = .ok ()
  candidate : buildCandidate a.doc a.history updates = .ok admission.candidate
  history : admission.candidateHistory = a.history ++ updates
  next : admission.nextProducerSequence.toNat = a.producerSequence.toNat + 1
  stream : admission.pending.targetStream = a.stream
  producer : admission.pending.producer = ⟨a.producerId, 0, a.producerSequence⟩
  frame : admission.pending.frame = DeltaFrame.new ⟨a.producerId, 0, a.producerSequence⟩ batchId updates
  encode : admission.pending.frame.encodeWithLimits a.config.frameLimits =
    .ok admission.pending.bytes

theorem admitUpdate_eq_ok (h : a.admitUpdate connectionId batchId updates = .ok admission) :
    a.Admitted connectionId batchId updates admission := by
  rw [admitUpdate, check_bind_eq_ok, check_bind_eq_ok] at h
  obtain ⟨hjoined, ⟨hready, hunblocked⟩, h⟩ := h
  obtain ⟨⟨⟩, hblobs, h⟩ := bind_eq_ok.mp h
  obtain ⟨candidate, hcandidate, h⟩ := bind_eq_ok.mp h
  obtain ⟨next, hnext, h⟩ := okOr_bind_eq_ok.mp h
  obtain ⟨bytes, hbytes, h⟩ := bind_eq_ok.mp h
  rw [mapError_eq_ok] at hblobs hcandidate hbytes
  cases h
  exact ⟨hjoined, hready, hunblocked, hblobs, hcandidate, rfl, checkedAddU64_eq_some.mp hnext, rfl,
    rfl, rfl, hbytes⟩

/-- A refusal before the append is not an acknowledgement of success. -/
theorem admitUpdate_error_ne {status : UpdateStatusCode}
    (h : a.admitUpdate connectionId batchId updates = .error status) :
    status ≠ .ok ∧ status ≠ .unknown := by
  have herrors : ErrorsIn (fun status => status ≠ .ok ∧ status ≠ .unknown)
      (a.admitUpdate connectionId batchId updates) := by
    rw [admitUpdate]
    refine .bind (.check (by decide)) fun _ _ => .bind (.check (by decide)) fun _ _ => ?_
    refine .bind (.mapError fun _ => by decide) fun _ _ => ?_
    refine .bind (.mapError fun _ => by decide) fun _ _ => ?_
    refine .bind (.okOr (by decide)) fun _ _ => .bind (.mapError fun _ => by decide) fun _ _ => ?_
    exact .ok _
  exact herrors status h

namespace Admitted

/-- The frame of an admitted update is valid. -/
theorem valid (h : a.Admitted connectionId batchId updates admission) :
    admission.pending.frame.Valid a.config.frameLimits where
  digest_eq := by
    rw [h.frame]
    rfl
  encodes := ⟨_, h.encode⟩

theorem bytes_eq (h : a.Admitted connectionId batchId updates admission) :
    admission.pending.bytes = admission.pending.frame.encoded a.config.frameLimits :=
  (DeltaFrame.encoded_eq h.encode).symm

end Admitted

omit [Hashing] [Loro Doc] in
theorem rejectionStatus_ne (kind : RejectionKind) :
    rejectionStatus kind ≠ .ok ∧ rejectionStatus kind ≠ .unknown := by
  cases kind <;> decide

end RoomActor

end LoroGateway
