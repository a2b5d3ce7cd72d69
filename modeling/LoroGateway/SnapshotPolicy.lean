import LoroGateway.Admission
import LoroGateway.Scripted

/-!
# The snapshot policy

A full snapshot is meant to start a room that has no durable history.  The
actor reads that off its retained history.

`BlobRules` states the rules that `validate_update_blobs` checks, and
`refusesUpdate_snapshot_iff` says which actor refuses an update with a full
snapshot.
-/

namespace LoroGateway

open ByteCodec CrashLogic CrashLogic.Server

/-! ## The rules for blobs -/

section Rules

variable (Doc : Type) [Loro Doc]

/-- The rules for the blobs of one batch. -/
structure BlobRules (allowSnapshot : Bool) (updates : List Bytes) : Prop where
  nonempty : updates ≠ []
  filled : ∀ blob ∈ updates, blob ≠ []
  mode : ∀ blob ∈ updates, Loro.decodeImportBlobMeta Doc blob = .ok .updates ∨
    Loro.decodeImportBlobMeta Doc blob = .ok .snapshot ∧ allowSnapshot = true ∧ updates.length = 1

variable {Doc}

theorem forM_eq_ok {ε α : Type} {f : α → Except ε Unit} {values : List α} :
    values.forM f = .ok () ↔ ∀ value ∈ values, f value = .ok () := by
  induction values with
  | nil => simp [pure, Except.pure]
  | cons value values ih =>
    show (f value >>= fun _ => values.forM f) = .ok () ↔ _
    rw [bind_eq_ok, List.forall_mem_cons, ← ih]
    constructor
    · rintro ⟨⟨⟩, hfirst, hrest⟩
      exact ⟨hfirst, hrest⟩
    · rintro ⟨hfirst, hrest⟩
      exact ⟨(), hfirst, hrest⟩

theorem validateUpdateBlob_eq_ok {allowSnapshot : Bool} {count : Nat} {blob : Bytes} :
    validateUpdateBlob Doc allowSnapshot count blob = .ok () ↔
      blob ≠ [] ∧ (Loro.decodeImportBlobMeta Doc blob = .ok .updates ∨
        Loro.decodeImportBlobMeta Doc blob = .ok .snapshot ∧ allowSnapshot = true ∧ count = 1) := by
  unfold validateUpdateBlob
  rw [check_bind_eq_ok, bind_eq_ok]
  apply and_congr_right
  intro _
  cases hmeta : Loro.decodeImportBlobMeta Doc blob with
  | error message => simp
  | ok mode =>
    cases mode with
    | snapshot => simp [check_eq_ok]
    | updates => simp [pure, Except.pure]
    | shallowSnapshot => simp [throw, throwThe, MonadExceptOf.throw]
    | outdatedSnapshot => simp [throw, throwThe, MonadExceptOf.throw]
    | outdatedRle => simp [throw, throwThe, MonadExceptOf.throw]

theorem validateUpdateBlobs_eq_ok {allowSnapshot : Bool} {updates : List Bytes} :
    validateUpdateBlobs Doc updates allowSnapshot = .ok () ↔
      BlobRules Doc allowSnapshot updates := by
  unfold validateUpdateBlobs
  rw [check_bind_eq_ok, forM_eq_ok]
  constructor
  · intro h
    have ⟨hne, hall⟩ := h
    constructor
    · exact hne
    · intro blob hmem
      exact (validateUpdateBlob_eq_ok.1 (hall blob hmem)).1
    · intro blob hmem
      exact (validateUpdateBlob_eq_ok.1 (hall blob hmem)).2
  · intro h
    exact ⟨h.nonempty, fun blob hmem =>
      validateUpdateBlob_eq_ok.2 ⟨h.filled blob hmem, h.mode blob hmem⟩⟩

/-- A batch with a full snapshot keeps the rules only as one blob of an empty room. -/
theorem blobRules_snapshot_iff {allowSnapshot : Bool} {updates : List Bytes} {blob : Bytes}
    (hmem : blob ∈ updates) (hmode : Loro.decodeImportBlobMeta Doc blob = .ok .snapshot) :
    BlobRules Doc allowSnapshot updates ↔
      allowSnapshot = true ∧ updates = [blob] ∧ blob ≠ [] := by
  constructor
  · intro h
    have ⟨_, hallow, hlength⟩ := (h.mode blob hmem).resolve_left (by simp [hmode])
    have ⟨only, honly⟩ := List.length_eq_one_iff.1 hlength
    have hblob : blob = only := by simpa [honly] using hmem
    exact ⟨hallow, by rw [honly, hblob], h.filled blob hmem⟩
  · intro h
    have ⟨hallow, honly, hne⟩ := h
    subst honly
    constructor
    · simp
    · simpa using hne
    · simp [hmode, hallow]

end Rules

/-! ## Updates with a full snapshot -/

section Updates

variable [Hashing] {Doc : Type} [Loro Doc]

namespace RoomActor

variable {a : RoomActor Doc} {connectionId : UInt64} {batchId : BatchId} {updates : List Bytes}
  {peer : PeerSender} {blob : Bytes}

/-- The update is answered `InvalidUpdate`, changes nothing and appends nothing. -/
def RefusesUpdate (a : RoomActor Doc) (connectionId : UInt64) (batchId : BatchId)
    (updates : List Bytes) (peer : PeerSender) : Prop :=
  (a.handle (.update connectionId batchId updates peer)).Always (fun req => isAppend req = false)
    fun result => result = (a, sendAck peer a.roomId batchId .invalidUpdate)

theorem not_always_resolveAppend {β : Type} {pending : PendingAppend}
    {next : Except AppendFailure DurableAppend → StoreM β} {post : β → Prop}
    (config : ActorConfig) :
    ¬ Prog.Always (fun req => isAppend req = false) post (resolveAppend config pending >>= next) := by
  intro h
  unfold resolveAppend at h
  cases hretries : config.ambiguousRetries <;> rw [hretries, resolveAttempts] at h <;>
    simpa [isAppend] using h.1

/-- The two checks that answer `InvalidUpdate`. -/
theorem admitUpdate_invalid_iff :
    a.admitUpdate connectionId batchId updates = .error .invalidUpdate ↔
      a.peers.containsKey connectionId ∧ (a.lifecycle = .ready ∧ a.blocked = none) ∧
        (BlobRules Doc a.history.isEmpty updates →
          ∃ message, buildCandidate a.doc a.history updates = .error message) := by
  unfold admitUpdate
  by_cases hjoined : a.peers.containsKey connectionId
  · rw [check_bind_of hjoined]
    by_cases hready : a.lifecycle = .ready ∧ a.blocked = none
    · rw [check_bind_of hready, ← validateUpdateBlobs_eq_ok]
      simp only [hjoined, hready, and_self, true_and]
      cases hblobs : validateUpdateBlobs Doc updates a.history.isEmpty with
      | error message => exact iff_of_true rfl (by simp)
      | ok rules =>
        cases hcandidate : buildCandidate a.doc a.history updates with
        | error message => exact iff_of_true rfl (by simp)
        | ok candidate =>
          apply iff_of_false
          · cases hnext : checkedAddU64 a.producerSequence 1 with
            | none =>
              show ¬ (Except.error UpdateStatusCode.appError : Except _ (Admission Doc)) = _
              simp
            | some next =>
              show ¬ (((DeltaFrame.new ⟨a.producerId, 0, a.producerSequence⟩ batchId
                updates).encodeWithLimits a.config.frameLimits).mapError _ >>= _) = _
              cases (DeltaFrame.new ⟨a.producerId, 0, a.producerSequence⟩ batchId
                  updates).encodeWithLimits a.config.frameLimits with
              | error error =>
                show ¬ (Except.error UpdateStatusCode.payloadTooLarge :
                  Except _ (Admission Doc)) = _
                simp
              | ok bytes => exact nofun
          · simp
    · rw [check_bind_of_not hready]
      simp [hready]
  · rw [check_bind_of_not hjoined]
    simp [hjoined]

theorem refusesUpdate_iff :
    a.RefusesUpdate connectionId batchId updates peer ↔
      a.admitUpdate connectionId batchId updates = .error .invalidUpdate := by
  unfold RefusesUpdate handle
  by_cases hclosed : a.Closed
  · have hnot : ¬ a.admitUpdate connectionId batchId updates = .error .invalidUpdate := by
      rw [admitUpdate_invalid_iff]
      intro h
      have hready := h.2.1.1
      simp [Closed, hready] at hclosed
    simp only [if_pos hclosed, hnot, iff_false]
    intro h
    have hack := congrArg Prod.snd h
    simp [rejectUnavailable, sendAck] at hack
  · simp only [if_neg hclosed, update]
    cases hadmit : a.admitUpdate connectionId batchId updates with
    | error status =>
      constructor
      · intro h
        have hack := congrArg Prod.snd h
        have hstatus : status = .invalidUpdate := by simpa [sendAck] using hack
        rw [hstatus]
      · intro h
        have hstatus : status = .invalidUpdate := by simpa using h
        rw [hstatus]
        rfl
    | ok admission =>
      constructor
      · intro h
        exact absurd h (not_always_resolveAppend a.config)
      · intro h
        cases h

/-- A joined connection sends the update to a ready and unblocked room, and the room
retains some history, or the snapshot is not a batch of its own, or the candidate cannot
be built. -/
def KeepsSnapshotOut (a : RoomActor Doc) (connectionId : UInt64) (updates : List Bytes)
    (blob : Bytes) : Prop :=
  a.peers.containsKey connectionId ∧ (a.lifecycle = .ready ∧ a.blocked = none) ∧
    (a.history ≠ [] ∨ updates ≠ [blob] ∨ blob = [] ∨
      ∃ message, buildCandidate a.doc a.history updates = .error message)

theorem refusesUpdate_snapshot_iff (hmem : blob ∈ updates)
    (hmode : Loro.decodeImportBlobMeta Doc blob = .ok .snapshot) :
    a.RefusesUpdate connectionId batchId updates peer ↔
      a.KeepsSnapshotOut connectionId updates blob := by
  unfold KeepsSnapshotOut
  rw [refusesUpdate_iff, admitUpdate_invalid_iff, blobRules_snapshot_iff hmem hmode,
    List.isEmpty_iff]
  tauto

end RoomActor

end Updates

end LoroGateway
