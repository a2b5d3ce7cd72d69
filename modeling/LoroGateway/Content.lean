import LoroGateway.Quiet
import LoroGateway.Remembered

/-!
# What the disk holds of a room

A recovery reads three things of a disk: the generation that the manifest names,
the checkpoint that the generation starts from, and the frames of its stream.
`OnDisk` says which they are.  The operations of the checkpoint and of the
frames are the content of the room, and a room that has been opened knows just
them (`RoomActor.Reopened.known`).

An append of a frame extends the frames (`OnDisk.tried`), and a rotation either
leaves all three as they were or makes the document of the actor the checkpoint
of the next generation (`OnDisk.closing`, `RoomActor.Superseded.baseOps`).
-/

namespace LoroGateway

open ByteCodec CrashLogic

variable [Hashing] {Doc : Type} [Loro Doc] {roomId : String} {config : ActorConfig}

/-- The parts of a disk that a recovery reads. -/
structure OnDisk (Doc : Type) [Loro Doc] (roomId : String) (limits : FrameLimits) (d : Disk)
    (generation : GenerationId) (base : Option CheckpointRecord) (frames : List DeltaFrame) :
    Prop where
  current : Current roomId generation d
  start : StartsFrom Doc roomId d generation base
  log : DeltaLog (NamedFrame roomId generation) limits
    (deltaStreamForGeneration roomId generation).physical d frames

/-- The operations of a checkpoint and of the frames after it. -/
def Loro.Observers.contentOps {Op : Type} (S : Loro.Observers Doc Op) (base : Option CheckpointRecord)
    (frames : List DeltaFrame) : Set Op :=
  S.baseOps base ∪ S.ops (frames.flatMap DeltaFrame.updates)

section ContentOps

variable {Op : Type} {S : Loro.Observers Doc Op} {base : Option CheckpointRecord}
  {frames rest : List DeltaFrame}

omit [Hashing]

theorem contentOps_append :
    S.contentOps base (frames ++ rest) =
      S.contentOps base frames ∪ S.ops (rest.flatMap DeltaFrame.updates) := by
  rw [Loro.Observers.contentOps, List.flatMap_append, Loro.Observers.ops_append, ← Set.union_assoc]
  rfl

theorem contentOps_snoc {frame : DeltaFrame} :
    S.contentOps base (frames ++ [frame]) = S.contentOps base frames ∪ S.ops frame.updates := by
  rw [contentOps_append, List.flatMap_singleton]

theorem contentOps_nil : S.contentOps base [] = S.baseOps base := by
  rw [Loro.Observers.contentOps, List.flatMap_nil, Loro.Observers.ops_nil, Set.union_empty]

theorem contentOps_mono (h : frames <+: rest) : S.contentOps base frames ⊆ S.contentOps base rest := by
  obtain ⟨more, rfl⟩ := h
  rw [contentOps_append]
  exact Set.subset_union_left

end ContentOps

/-! ## Where the start of a generation lies -/

namespace StartsFrom

variable {d d' : Disk} {generation : GenerationId} {base : Option CheckpointRecord}

/-- The start is read off one checkpoint stream. -/
theorem congr (h : StartsFrom Doc roomId d generation base)
    (hread : ∀ previous : GenerationId, generation.value.toNat = previous.value.toNat + 1 →
      d'.read (checkpointStream roomId previous).physical =
        d.read (checkpointStream roomId previous).physical) :
    StartsFrom Doc roomId d' generation base := by
  cases h with
  | nothing => exact .nothing
  | checkpoint hnext hof hencode => exact .checkpoint hnext hof (hencode.trans (by rw [hread _ hnext]))

/-- A tried append is not in a checkpoint stream. -/
theorem tried (h : StartsFrom Doc roomId d generation base) {a : RoomActor Doc}
    (ha : a.Seated roomId config) {pending : PendingAppend} (hpending : a.Prepares pending)
    (htried : Tried d pending.app d') : StartsFrom Doc roomId d' generation base := by
  rcases htried with rfl | ⟨_, rfl⟩
  · exact h
  · have happ : pending.app = _ := hpending.append_eq ha
    rw [happ]
    exact h.congr fun _ _ => Disk.read_accept_ne deltaStream_ne_checkpointStream.symm

end StartsFrom

namespace OnDisk

variable {limits : FrameLimits} {d d' : Disk} {generation generation' : GenerationId}
  {base base' : Option CheckpointRecord} {frames frames' : List DeltaFrame}

theorem empty : OnDisk Doc roomId limits Disk.empty .zero none [] where
  current := rfl
  start := .nothing
  log := .empty

theorem unique (h : OnDisk Doc roomId limits d generation base frames)
    (h' : OnDisk Doc roomId limits d generation' base' frames') :
    generation = generation' ∧ base = base' ∧ frames = frames' := by
  obtain rfl := h.current.unique h'.current
  exact ⟨rfl, h.start.unique h'.start, h.log.unique h'.log⟩

theorem same (h : OnDisk Doc roomId limits d generation base frames) (hsame : d.Same d') :
    OnDisk Doc roomId limits d' generation base frames where
  current := by
    rw [Current, hsame.read]
    exact h.current
  start := h.start.congr fun _ _ => by rw [hsame.read]
  log := h.log.congr (by rw [hsame.read]) fun _ => by rw [hsame.last]

/-- An append of a frame to the active stream extends the frames. -/
theorem accept (h : OnDisk Doc roomId config.frameLimits d generation base frames)
    {frame : DeltaFrame} (hframe : Submittable (NamedFrame roomId generation) config.frameLimits frame)
    (haccepts : d.Accepts (deltaAppend config.frameLimits
      (deltaStreamForGeneration roomId generation).physical frame)) :
    OnDisk Doc roomId config.frameLimits (d.accept (deltaAppend config.frameLimits
      (deltaStreamForGeneration roomId generation).physical frame)) generation base
      (frames ++ [frame]) where
  current := by
    rw [Current, Disk.read_accept_ne (deltaStream_ne_manifestStream.symm :
      (manifestStream roomId).physical ≠ (deltaAppend _ _ _).stream)]
    exact h.current
  start := h.start.congr fun previous _ => Disk.read_accept_ne deltaStream_ne_checkpointStream.symm
  log := h.log.accept hframe haccepts

end OnDisk

namespace RoomActor

variable {a : RoomActor Doc} {d d' : Disk} {base : Option CheckpointRecord} {frames : List DeltaFrame}

theorem Reopened.holding {boot : Boot} (h : a.Reopened roomId config boot d base frames) :
    OnDisk Doc roomId config.frameLimits d a.activeDeltaGeneration base frames :=
  ⟨h.current, h.start, h.log⟩

theorem Reopened.content {Op : Type} {S : Loro.Observers Doc Op} (sem : Loro.Semantics S)
    {boot : Boot} (h : a.Reopened roomId config boot d base frames) :
    S.known a.doc = S.contentOps base frames := h.known sem

/-- A failed start leaves a room that is not live. -/
theorem not_live_failed {boot : Boot} {endOffset : UInt64} {lifecycle : RoomLifecycle}
    {lastError : Option String} (h : lifecycle = .corrupt ∨ lifecycle = .unavailable) :
    ¬ (({ (RoomActor.new roomId boot config : RoomActor Doc) with
      activeDeltaEndOffset := endOffset } : RoomActor Doc).transition lifecycle lastError).Live := by
  rintro (hready | hblocked)
  · rcases h with rfl | rfl
    · cases hready
    · cases hready
  · exact absurd rfl hblocked

/-- The pending append is tried: its frame is new, or the disk is as it was. -/
theorem Prepares.tried_holding {pending : PendingAppend} (hpending : a.Prepares pending)
    (ha : a.Seated roomId config)
    (h : OnDisk Doc roomId config.frameLimits d a.activeDeltaGeneration base frames)
    (htried : Tried d pending.app d') :
    OnDisk Doc roomId config.frameLimits d' a.activeDeltaGeneration base frames ∨
      OnDisk Doc roomId config.frameLimits d' a.activeDeltaGeneration base
        (frames ++ [pending.frame]) := by
  rcases htried with rfl | ⟨haccepts, rfl⟩
  · exact .inl h
  · have happ : pending.app = _ := hpending.append_eq ha
    rw [happ] at haccepts ⊢
    exact .inr (h.accept (hpending.submittable ha) haccepts)

/-- The generation after the one of the actor starts from the checkpoint of the actor. -/
theorem Superseded.holding {next : GenerationId} {checkpoint : CheckpointRecord} {w : World}
    (h : a.Superseded roomId next checkpoint w.disk) (hkept : Kept Doc roomId config w) :
    OnDisk Doc roomId config.frameLimits w.disk next (some checkpoint) [] := by
  obtain ⟨log, hlog⟩ := hkept.delta.logs next
  obtain rfl := hlog.eq_nil h.empty
  exact ⟨h.current, h.start, hlog⟩

/-- That checkpoint holds all that the document of the actor knows. -/
theorem Superseded.baseOps {Op : Type} {S : Loro.Observers Doc Op} (sem : Loro.Semantics S)
    (ha : a.Remembers S) {next : GenerationId} {checkpoint : CheckpointRecord}
    (h : a.Superseded roomId next checkpoint d) : S.baseOps (some checkpoint) = S.known a.doc := by
  obtain ⟨hexport, hkept⟩ := buildCheckpointRecord_eq_ok h.built
  rw [Loro.Observers.baseOps, sem.snapshot_ops hexport]
  refine Set.Subset.antisymm (Set.union_subset Loro.Semantics.applied_subset_known ?_)
    (Set.union_subset_union_right _ ?_)
  · exact (S.ops_mono (pendingUpdatesOf_subset hkept)).trans ha.known
  · -- the blob that holds a waiting operation is not wholly applied
    intro o ho
    obtain ⟨blob, hblob, hop⟩ := ha.pending ho
    refine ⟨blob, (mem_pendingUpdatesOf sem hexport ha.known hkept).mpr ⟨hblob, fun hall => ?_⟩,
      hop⟩
    exact Set.disjoint_left.mp (sem.disjoint a.doc) (hall hop) ho

/-- While an actor closes its generation, the disk holds what it held, or it holds the
checkpoint of the actor. -/
theorem Closing.holding {w' : World} (h : a.Closing roomId d w'.disk) (hkept : Kept Doc roomId config w')
    (hheld : OnDisk Doc roomId config.frameLimits d a.activeDeltaGeneration base frames) :
    OnDisk Doc roomId config.frameLimits w'.disk a.activeDeltaGeneration base frames ∨
      ∃ next checkpoint, a.Superseded roomId next checkpoint w'.disk ∧
        OnDisk Doc roomId config.frameLimits w'.disk next (some checkpoint) [] := by
  refine h.manifest.imp (fun hsame => ⟨?_, ?_, h.log hheld.log⟩) fun ⟨next, checkpoint, hnext⟩ =>
    ⟨next, checkpoint, hnext, hnext.holding hkept⟩
  · rw [Current, hsame]
    exact hheld.current
  · refine hheld.start.congr fun previous hprevious => h.checkpoints previous fun heq => ?_
    rw [heq] at hprevious
    omega

end RoomActor

end LoroGateway
