import LoroGateway.DocSpec
import LoroGateway.StoreSafety

/-!
# Every waiting operation has a blob behind it

The history of an actor means something else in each generation: all blobs, the
blobs that a checkpoint kept, or those with the blobs of the active stream.
`Remembers` is what it means in all of them: the history holds every operation
that waits in the document, and nothing that the document does not know.  So
the round trip through a snapshot, which drops what waits, loses nothing.
-/

namespace LoroGateway

open ByteCodec CrashLogic CrashLogic.Server

section

variable {Doc : Type} [Loro Doc] {Op : Type} {S : Loro.Observers Doc Op}
  (sem : Loro.Semantics S)

namespace RoomActor

/-- The history of an actor stands behind its document. -/
structure Remembers (S : Loro.Observers Doc Op) (a : RoomActor Doc) : Prop where
  pending : S.pending a.doc ⊆ S.ops a.history
  known : S.ops a.history ⊆ S.known a.doc

end RoomActor

include sem

/-- A document that was built from the blobs of a history is remembered. -/
theorem pending_subset_of_replay {doc : Doc} {history : List Bytes}
    (h : replay Doc history = .ok doc) :
    S.pending doc ⊆ S.ops history ∧ S.ops history ⊆ S.known doc := by
  have hknown := replay_known sem h
  exact ⟨hknown ▸ Loro.Semantics.pending_subset_known, hknown.superset⟩

/-- A candidate knows what the document knows with the new updates. -/
theorem buildCandidate_eq_union {doc candidate : Doc} {history updates : List Bytes}
    (hpending : S.pending doc ⊆ S.ops history) (hknown : S.ops history ⊆ S.known doc)
    (h : buildCandidate doc history updates = .ok candidate) :
    S.known candidate = S.known doc ∪ S.ops updates := by
  rw [buildCandidate_known sem h]
  congr 1
  refine Set.Subset.antisymm (Set.union_subset Loro.Semantics.applied_subset_known hknown) ?_
  exact Set.union_subset_union_right _ hpending

variable [Hashing] {roomId : String}

/-- What a recovery has rebuilt. -/
theorem Recovered.known {before : World → Prop} {limits : FrameLimits}
    {records : List ManifestRecord} {checkpoint : CheckpointRecord} {frames : List DeltaFrame}
    {recovery : ManifestRecovery Doc}
    (h : Recovered before roomId limits records checkpoint frames recovery) :
    S.known recovery.doc = S.blobOps checkpoint.snapshot ∪ S.ops recovery.history := by
  obtain ⟨restored, base, hrestore, hbase, hdoc⟩ := h.doc
  rw [importRecovered_known sem hdoc, importRecovered_known sem hbase,
    sem.restore_known hrestore, h.history, Loro.Observers.ops_append, Set.union_assoc]

/-- The snapshot of a recovery holds what some document had applied. -/
theorem Recovered.snapshot {before : World → Prop} {limits : FrameLimits}
    {records : List ManifestRecord} {checkpoint : CheckpointRecord} {frames : List DeltaFrame}
    {recovery : ManifestRecovery Doc}
    (h : Recovered before roomId limits records checkpoint frames recovery) :
    ∃ doc : Doc, S.blobOps checkpoint.snapshot = S.applied doc := by
  obtain ⟨_, _, _, _, ⟨doc, endOffset, history, hbuilt⟩, _⟩ := h.latest
  exact ⟨doc, sem.snapshot_ops (buildCheckpointRecord_eq_ok hbuilt).1⟩

variable {config : ActorConfig}

/-- Every outcome of every program leaves an actor that remembers. -/
theorem RoomActor.Remembers.invariant :
    RoomActor.ActorInvariant roomId config (RoomActor.Remembers S) where
  failed {boot endOffset lifecycle lastError} _ := by
    refine ⟨?_, ?_⟩
    · change S.pending (Loro.new : Doc) ⊆ _
      rw [sem.pending_eq, sem.known_new, Set.empty_sdiff]
      exact Set.empty_subset _
    · change S.ops [] ⊆ _
      rw [Loro.Observers.ops_nil]
      exact Set.empty_subset _
  recovered {boot before records checkpoint frames recovery} h := by
    have hknown := h.known sem
    obtain ⟨doc, hsnapshot⟩ := h.snapshot sem
    refine ⟨?_, hknown ▸ Set.subset_union_right⟩
    rw [hsnapshot] at hknown
    exact pending_subset_of_known sem hknown
  legacy {boot endOffset bytes history doc} h := by
    obtain ⟨frames, _, _, hreplay⟩ := replayStream_eq_ok h
    obtain ⟨hpending, hknown⟩ := pending_subset_of_replay sem hreplay
    exact ⟨hpending, hknown⟩
  update {a connectionId batchId updates peer admission resolved} ha hadmitted := by
    match resolved with
    | .error (.definitelyRejected kind message) => exact ha
    | .error (.outcomeUnknown error) => exact ⟨ha.pending, ha.known⟩
    | .ok proof =>
      have hcandidate := buildCandidate_known sem hadmitted.candidate
      have hhistory := hadmitted.history
      refine ⟨?_, ?_⟩
      · change S.pending admission.candidate ⊆ S.ops admission.candidateHistory
        rw [hhistory, Loro.Observers.ops_append]
        rw [Set.union_assoc] at hcandidate
        exact pending_subset_of_known sem hcandidate
      · change S.ops admission.candidateHistory ⊆ S.known admission.candidate
        rw [hhistory, hcandidate, Loro.Observers.ops_append, Set.union_assoc]
        exact Set.subset_union_right
  rotated {a before result w} ha _ _ h := by
    obtain ⟨hexport, hkept⟩ := buildCheckpointRecord_eq_ok h.built
    rw [← h.retained] at hkept
    have hmem : ∀ blob, blob ∈ result.retainedHistory ↔
        blob ∈ a.history ∧ ¬ S.blobOps blob ⊆ S.applied a.doc :=
      fun blob => mem_pendingUpdatesOf sem hexport ha.known hkept
    refine ⟨?_, (S.ops_mono fun blob hblob => ((hmem blob).mp hblob).1).trans ha.known⟩
    -- the blob that holds a waiting operation is not wholly applied
    rintro o (ho : o ∈ S.pending a.doc)
    obtain ⟨blob, hblob, hop⟩ := ha.pending ho
    refine ⟨blob, (hmem blob).mpr ⟨hblob, fun hall => ?_⟩, hop⟩
    exact Set.disjoint_left.mp (sem.disjoint a.doc) (hall hop) ho
  stuck {a endOffset lifecycle lastError} ha _ := ⟨ha.pending, ha.known⟩
  reloaded {a pending endOffset next bytes history doc} _ _ _ h := by
    obtain ⟨frames, _, _, hreplay⟩ := replayStream_eq_ok h
    obtain ⟨hpending, hknown⟩ := pending_subset_of_replay sem hreplay
    exact ⟨hpending, hknown⟩
  peers {a peers ids} ha := ⟨ha.pending, ha.known⟩

omit sem in
/-- Every blob of a history has been imported. -/
theorem RoomActor.importable_invariant (total : Loro.Total S) :
    RoomActor.ActorInvariant roomId config
      fun a : RoomActor Doc => ∀ blob ∈ a.history, Importable Doc blob where
  failed _ := nofun
  recovered {boot before records checkpoint frames recovery} h := by
    change ∀ blob ∈ recovery.history, _
    obtain ⟨restored, base, _, hbase, hdoc⟩ := h.doc
    rw [h.history, List.forall_mem_append]
    exact ⟨importRecovered_importable total hbase, importRecovered_importable total hdoc⟩
  legacy {boot endOffset bytes history doc} h := by
    obtain ⟨frames, _, _, hreplay⟩ := replayStream_eq_ok h
    exact (importAll_total total).mp ⟨doc, hreplay⟩
  update {a connectionId batchId updates peer admission resolved} ha hadmitted := by
    match resolved with
    | .error (.definitelyRejected kind message) => exact ha
    | .error (.outcomeUnknown error) => exact ha
    | .ok proof =>
      change ∀ blob ∈ admission.candidateHistory, _
      obtain ⟨snapshot, _, hbuild⟩ := bind_eq_ok.mp hadmitted.candidate
      obtain ⟨restored, _, himport⟩ := bind_eq_ok.mp hbuild
      rw [hadmitted.history]
      exact (importAll_total total).mp ⟨_, himport⟩
  rotated {a before result w} ha _ _ h := by
    obtain ⟨_, hkept⟩ := buildCheckpointRecord_eq_ok h.built
    rw [← h.retained] at hkept
    exact fun blob hblob => ha blob (pendingUpdatesOf_subset hkept hblob)
  stuck ha _ := ha
  reloaded {a pending endOffset next bytes history doc} _ _ _ h := by
    obtain ⟨frames, _, _, hreplay⟩ := replayStream_eq_ok h
    exact (importAll_total total).mp ⟨doc, hreplay⟩
  peers ha := ha

/-- In every state of every run, what waits in the document is in a blob of the
history.  So the candidate of an update is what a direct import would give, and
it can be built whenever the import succeeds. -/
theorem pending_remembered {policy : Policy Doc roomId config} {w : World} {a : RoomActor Doc}
    {events : List (Event (gateway Doc roomId config) World)}
    (hreach : RoomReachable policy ⟨w, .idle a, events⟩) :
    (∀ o ∈ S.pending a.doc, ∃ blob ∈ a.history, o ∈ S.blobOps blob) ∧
    (∀ (updates : List Bytes) (candidate direct : Doc),
      buildCandidate a.doc a.history updates = .ok candidate →
      importAll a.doc updates = .ok direct →
      S.applied candidate = S.applied direct ∧ S.pending candidate = S.pending direct) ∧
    (Loro.Total S → ∀ updates : List Bytes,
      (∃ candidate, buildCandidate a.doc a.history updates = .ok candidate) ↔
        ∃ direct, importAll a.doc updates = .ok direct) := by
  have ha : a.Remembers S := hreach.actor (RoomActor.Remembers.invariant sem)
  refine ⟨ha.pending, ?_, ?_⟩
  · intro updates candidate direct hcandidate hdirect
    refine sem.eq_of_known ?_
    rw [buildCandidate_eq_union sem ha.pending ha.known hcandidate, importAll_known sem hdirect]
  · intro total updates
    have himportable := hreach.actor (RoomActor.importable_invariant total)
    obtain ⟨snapshot, hexport, _⟩ := total.snapshot_total a.doc
    obtain ⟨restored, hrestore⟩ := total.restore_total hexport
    have hbuild : buildCandidate a.doc a.history updates =
        importAll restored (a.history ++ updates) := by
      rw [buildCandidate, hexport]
      change (Loro.fromSnapshot snapshot >>= _) = _
      rw [hrestore]
      rfl
    rw [hbuild, importAll_total total, importAll_total total, List.forall_mem_append]
    exact and_iff_right himportable

end

open Sample

/-- An operation arrives before the one it depends on, and waits through a
rotation. -/
theorem pending_remembered_rotated :
    ∃ a : RoomActor OpDoc, a.lifecycle = .ready ∧ a.activeDeltaGeneration = ⟨1⟩ ∧
      OpDoc.observers.pending a.doc ≠ ∅ ∧
      ∀ o ∈ OpDoc.observers.pending a.doc, ∃ blob ∈ a.history, o ∈ OpDoc.observers.blobOps blob := by
  have hrun : ((lateDirection .default).director.run
      [.boot (sampleBoot 1) (answeredAll 4), .command (.join 1 [] 7) [],
        .command (.update 1 (sampleBatch 1) [[1, 1]] 7) (answeredAll 1),
        .command .rotate (answeredAll 10)]
      ⟨World.empty, .down, []⟩).any (whenIdle fun _ a _ => decide (a.lifecycle = .ready) &&
        decide (a.activeDeltaGeneration = ⟨1⟩) &&
        decide ((1 : Fin 8) ∈ a.doc.received ∧ OpDoc.isApplied a.doc.received 1 = false)) = true := by
    decide +kernel
  obtain ⟨w, a, events, hreach, hend⟩ := Direction.exists_idle_of_run hrun
  obtain ⟨hstate, hwaits⟩ := Bool.and_eq_true_iff.mp hend
  obtain ⟨hready, hgeneration⟩ := Bool.and_eq_true_iff.mp hstate
  have hone : (1 : Fin 8) ∈ a.doc.received ∧ OpDoc.isApplied a.doc.received 1 = false :=
    of_decide_eq_true hwaits
  refine ⟨a, of_decide_eq_true hready, of_decide_eq_true hgeneration, ?_, ?_⟩
  · exact Set.nonempty_iff_ne_empty.mp ⟨1, hone⟩
  · exact (pending_remembered OpDoc.semantics hreach).1

end LoroGateway
