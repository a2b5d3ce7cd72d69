import LoroGateway.ActorSpec

/-!
# The fields of an actor that belong together

`Seated` says that the stream and the producer of an actor are those of its
generation, and that a blocked append is one that the actor has prepared.  Every
outcome of every program keeps it.
-/

namespace LoroGateway

open ByteCodec CrashLogic CrashLogic.Server

variable [Hashing] {Doc : Type} [Loro Doc]

namespace RoomActor

/-- An append that an actor has prepared in its present generation. -/
structure Prepares (a : RoomActor Doc) (pending : PendingAppend) : Prop where
  stream : pending.targetStream = a.stream
  producer : pending.producer = ⟨a.producerId, 0, a.producerSequence⟩
  frame : pending.frame.producer = pending.producer
  valid : pending.frame.Valid a.config.frameLimits
  bytes : pending.bytes = pending.frame.encoded a.config.frameLimits

structure Seated (roomId : String) (config : ActorConfig) (a : RoomActor Doc) : Prop where
  room : a.roomId = roomId
  config : a.config = config
  stream : a.stream = (deltaStreamForGeneration roomId a.activeDeltaGeneration).physical
  producer : a.producerId = producerIdForGeneration a.bootId roomId a.activeDeltaGeneration
  blocked : ∀ pending, a.blocked = some pending → a.lifecycle ≠ .ready ∧ a.Prepares pending

variable {roomId : String} {config : ActorConfig} {a : RoomActor Doc} {connectionId : UInt64}
  {batchId : BatchId} {updates : List Bytes} {peer : PeerSender} {admission : Admission Doc}

theorem Admitted.prepares (h : a.Admitted connectionId batchId updates admission) :
    a.Prepares admission.pending where
  stream := h.stream
  producer := h.producer
  frame := by
    rw [h.frame, h.producer]
    rfl
  valid := h.valid
  bytes := h.bytes_eq

namespace Seated

theorem new (boot : Boot) (lifecycle : RoomLifecycle) (lastError : Option String)
    (endOffset : UInt64) (history : List Bytes) (doc : Doc) :
    Seated roomId config (({ (RoomActor.new roomId boot config : RoomActor Doc) with
      activeDeltaEndOffset := endOffset
      history := history
      doc := doc } : RoomActor Doc).transition lifecycle lastError) where
  room := rfl
  config := rfl
  stream := rfl
  producer := rfl
  blocked := nofun

theorem recovered {boot : Boot} {before : World → Prop} {limits : FrameLimits}
    {records : List ManifestRecord} {checkpoint : CheckpointRecord} {frames : List DeltaFrame}
    {recovery : ManifestRecovery Doc}
    (h : Recovered before roomId limits records checkpoint frames recovery) :
    Seated roomId config
      (((RoomActor.new roomId boot config).withRecovery recovery).transition .ready none) where
  room := rfl
  config := rfl
  stream := by
    change recovery.activeDeltaStream = (deltaStreamForGeneration roomId _).physical
    rw [h.stream, ← h.active]
    rfl
  producer := rfl
  blocked := nofun

theorem finishUpdate (h : Seated roomId config a)
    (hadmitted : a.Admitted connectionId batchId updates admission)
    (resolved : Except AppendFailure DurableAppend) :
    Seated roomId config
      (a.finishUpdate connectionId batchId updates peer admission resolved).1 := by
  match resolved with
  | .ok proof =>
    exact ⟨h.room, h.config, h.stream, h.producer, fun pending hpending =>
      absurd (hadmitted.unblocked.symm.trans hpending) nofun⟩
  | .error (.definitelyRejected kind message) => exact h
  | .error (.outcomeUnknown error) =>
    refine ⟨h.room, h.config, h.stream, h.producer, ?_⟩
    rintro pending ⟨⟩
    exact ⟨nofun, hadmitted.prepares.stream, hadmitted.prepares.producer, hadmitted.prepares.frame,
      hadmitted.prepares.valid, hadmitted.prepares.bytes⟩

omit [Loro Doc] in
theorem withRotation (h : Seated roomId config a) (hblocked : a.blocked = none)
    {result : RotationResult} (hstream : result.nextDeltaStream =
      (deltaStreamForGeneration roomId result.nextDeltaGeneration).physical) :
    Seated roomId config (a.withRotation result) where
  room := h.room
  config := h.config
  stream := hstream
  producer := by
    change producerIdForGeneration a.bootId a.roomId result.nextDeltaGeneration = _
    rw [h.room]
    rfl
  blocked pending hpending := absurd (hblocked.symm.trans hpending) nofun

omit [Loro Doc] in
theorem stuck (h : Seated roomId config a) {lifecycle : RoomLifecycle} (hnot : lifecycle ≠ .ready)
    (endOffset : UInt64) (lastError : Option String) :
    Seated roomId config (({ a with activeDeltaEndOffset := endOffset } : RoomActor Doc).transition
      lifecycle lastError) where
  room := h.room
  config := h.config
  stream := h.stream
  producer := h.producer
  blocked pending hpending :=
    have hprepares := (h.blocked pending hpending).2
    ⟨hnot, hprepares.stream, hprepares.producer, hprepares.frame, hprepares.valid, hprepares.bytes⟩

omit [Loro Doc] in
theorem reloaded (h : Seated roomId config a) (endOffset next : UInt64) (history : List Bytes)
    (doc : Doc) :
    Seated roomId config (({ a with
      blocked := none
      activeDeltaEndOffset := endOffset
      producerSequence := next
      history := history
      doc := doc } : RoomActor Doc).transition .ready none) where
  room := h.room
  config := h.config
  stream := h.stream
  producer := h.producer
  blocked := nofun

omit [Loro Doc] in
/-- A change of the fields that serve the peers. -/
theorem withPeers (h : Seated roomId config a) (peers : Peers) (ids : Stream' UInt64) :
    Seated roomId config { a with peers := peers, serverBatchIds := ids } where
  room := h.room
  config := h.config
  stream := h.stream
  producer := h.producer
  blocked pending hpending :=
    have hprepares := h.blocked pending hpending
    ⟨hprepares.1, hprepares.2.stream, hprepares.2.producer, hprepares.2.frame, hprepares.2.valid,
      hprepares.2.bytes⟩

end Seated

omit [Hashing] in
/-- A join changes only the peers and the batch ids. -/
theorem join_fst (a : RoomActor Doc) (connectionId : UInt64) (version : Bytes) (peer : PeerSender) :
    ∃ peers ids, (a.join connectionId version peer).1 =
      { a with peers := peers, serverBatchIds := ids } := by
  rw [join]
  split_ifs
  · exact ⟨a.peers, a.serverBatchIds, rfl⟩
  · split
    · exact ⟨a.peers, a.serverBatchIds, rfl⟩
    · dsimp only
      split_ifs
      · exact ⟨_, a.serverBatchIds, rfl⟩
      · split
        · exact ⟨_, _, rfl⟩
        · exact ⟨_, a.serverBatchIds, rfl⟩

/-- A property of an actor that every outcome of every program keeps. -/
structure ActorInvariant (roomId : String) (config : ActorConfig) (Q : RoomActor Doc → Prop) :
    Prop where
  failed : ∀ {boot endOffset lifecycle lastError}, lifecycle ≠ .ready →
    Q (({ (RoomActor.new roomId boot config : RoomActor Doc) with
      activeDeltaEndOffset := endOffset } : RoomActor Doc).transition lifecycle lastError)
  recovered : ∀ {boot before records checkpoint frames recovery},
    Recovered before roomId config.frameLimits records checkpoint frames recovery →
    Q (((RoomActor.new roomId boot config).withRecovery recovery).transition .ready none)
  legacy : ∀ {boot endOffset bytes history} {doc : Doc},
    replayStream Doc config.frameLimits bytes = .ok (history, doc) →
    Q (({ (RoomActor.new roomId boot config : RoomActor Doc) with
      activeDeltaEndOffset := endOffset
      history := history
      doc := doc } : RoomActor Doc).transition .ready none)
  update : ∀ {a connectionId batchId updates peer admission resolved}, Q a →
    a.Admitted connectionId batchId updates admission →
    Q (a.finishUpdate connectionId batchId updates peer admission resolved).1
  rotated : ∀ {a before result w}, Q a → a.lifecycle = .ready → a.blocked = none →
    Rotated before roomId a.activeDeltaGeneration a.activeDeltaEndOffset a.doc a.history result w →
    Q (a.withRotation result)
  stuck : ∀ {a endOffset lifecycle lastError}, Q a → lifecycle ≠ .ready →
    Q (({ a with activeDeltaEndOffset := endOffset } : RoomActor Doc).transition lifecycle lastError)
  reloaded : ∀ {a pending endOffset next bytes history} {doc : Doc}, Q a →
    a.blocked = some pending → next.toNat = pending.producer.sequence.toNat + 1 →
    replayStream Doc a.config.frameLimits bytes = .ok (history, doc) →
    Q (({ a with
      blocked := none
      activeDeltaEndOffset := endOffset
      producerSequence := next
      history := history
      doc := doc } : RoomActor Doc).transition .ready none)
  peers : ∀ {a peers ids}, Q a → Q { a with peers := peers, serverBatchIds := ids }

theorem ActorInvariant.trivial {roomId : String} {config : ActorConfig} :
    ActorInvariant roomId config fun (_ : RoomActor Doc) => True := by
  constructor <;> intros <;> exact True.intro

end RoomActor

end LoroGateway
