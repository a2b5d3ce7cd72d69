import LoroGateway.DurableNames
import LoroGateway.Follower

/-!
# A room keeps to its own streams

Every call of a room names its manifest stream, one of its checkpoint streams or
one of its delta streams.  This holds whatever the store answers, since no name
is read from the store: a recovery computes the names from the generations that
it has read.  A range that is read back is never empty.

The module follows the programs from the append that is settled up to the turn of
the actor, one lemma for each.
-/

namespace LoroGateway

open ByteCodec CrashLogic CrashLogic.Server

/-- The stream that a call is about. -/
def Request.stream : Request → String
  | .ensureStream stream => stream
  | .readAll stream => stream
  | .readRange stream _ _ => stream
  | .append stream _ _ => stream

/-- A call does not ask for no bytes. -/
def Request.Proper : Request → Prop
  | .readRange _ _ length => length ≠ 0
  | _ => True

/-- The call is about one of these streams. -/
structure Request.In (streams : String → Prop) (req : Request) : Prop where
  stream : streams req.stream
  proper : req.Proper

section

variable [Hashing]

/-- The stream is one of the room. -/
def OfRoom (roomId stream : String) : Prop :=
  ∃ kind, stream = (streamOf roomId kind).physical

variable {roomId : String}

theorem ofRoom_manifest : OfRoom roomId (manifestStream roomId).physical := ⟨.manifest, rfl⟩

theorem ofRoom_checkpoint (generation : GenerationId) :
    OfRoom roomId (checkpointStream roomId generation).physical := ⟨.checkpoint generation, rfl⟩

theorem ofRoom_delta (generation : GenerationId) :
    OfRoom roomId (deltaStreamForGeneration roomId generation).physical := ⟨.delta generation, rfl⟩

/-- Two rooms share no stream, unless SHA-256 maps their ids to one digest. -/
theorem ofRoom_unique {roomId' stream : String}
    (hfree : Set.InjOn Hashing.sha256 {utf8 roomId, utf8 roomId'}) (h : OfRoom roomId stream)
    (h' : OfRoom roomId' stream) : roomId = roomId' := by
  obtain ⟨kind, hstream⟩ := h
  obtain ⟨kind', hstream'⟩ := h'
  exact (physical_inj hfree (hstream.symm.trans hstream')).1

end

/-! ## Appends -/

section Appends

variable {streams : String → Prop} {stream : String} (hstream : streams stream)

include hstream

theorem keeps_ensureStream :
    (UrsulaStore.ensureStream stream).Always (Request.In streams) fun _ => True :=
  ⟨⟨hstream, trivial⟩, fun _ => trivial⟩

theorem keeps_readAll : (UrsulaStore.readAll stream).Always (Request.In streams) fun _ => True :=
  ⟨⟨hstream, trivial⟩, fun _ => trivial⟩

theorem keeps_verifyDuplicateBytes (next : UInt64) {body : Bytes} (hbody : body ≠ []) :
    (ExactAppend.verifyDuplicateBytes stream next body).run.Always (Request.In streams)
      fun _ => True := by
  unfold ExactAppend.verifyDuplicateBytes
  apply Prog.Always.run_bind (RoomActor.always_okOr _ _)
  intro length
  apply Prog.Always.run_bind (RoomActor.always_okOr _ _)
  intro start
  apply Prog.Always.run_bind
  · exact ⟨⟨hstream, fun hlength => hbody (List.length_eq_zero_iff.1 hlength)⟩, fun _ => trivial⟩
  · intro stored
    exact Prog.Always.run_bind always_check fun _ => always_check

/-- One turn of the loop of an exact append. -/
theorem keeps_attempts_turn {producer : ProducerTuple} {body : Bytes} (hbody : body ≠ [])
    {left : Nat} (again : ∀ left', left = left' + 1 →
      (ExactAppend.attempts stream producer body left').Always (Request.In streams) fun _ => True) :
    (ExactAppend.attempts stream producer body left).Always (Request.In streams)
      fun _ => True := by
  rw [ExactAppend.attempts.eq_def]
  refine Prog.always_call ⟨hstream, trivial⟩ fun x => ?_
  cases x with
  | ok outcome =>
    cases outcome with
    | committed next => trivial
    | duplicate next =>
      apply Prog.Always.bind (keeps_verifyDuplicateBytes hstream next hbody)
      intro r _
      cases r <;> trivial
  | error error =>
    cases error with
    | ambiguous message =>
      cases left with
      | zero => trivial
      | succ left => exact again left rfl
    | rejected kind message => trivial
    | integrity message => trivial

theorem keeps_appendExactWithRetry (producer : ProducerTuple) (body : Bytes) (retries : Nat) :
    (appendExactWithRetry stream producer body retries).Always (Request.In streams)
      fun _ => True := by
  unfold appendExactWithRetry
  split_ifs with hbody
  · trivial
  · induction retries with
    | zero => exact keeps_attempts_turn hstream hbody fun _ hleft => by cases hleft
    | succ left ih =>
      refine keeps_attempts_turn hstream hbody fun left' hleft => ?_
      obtain rfl := Nat.succ.inj hleft
      exact ih

end Appends

section Resolution

variable [Hashing]

/-- One turn of the retry loop of a room. -/
theorem keeps_resolveAttempts_turn {streams : String → Prop} {config : ActorConfig}
    {pending : PendingAppend} (hstream : streams pending.targetStream) (hbytes : pending.bytes ≠ [])
    {left : Nat} (again : ∀ left', left = left' + 1 →
      (resolveAttempts config pending left').Always (Request.In streams) fun _ => True) :
    (resolveAttempts config pending left).Always (Request.In streams) fun _ => True := by
  rw [resolveAttempts]
  refine Prog.always_call ⟨hstream, trivial⟩ fun x => ?_
  cases x with
  | ok outcome =>
    cases outcome with
    | committed n => trivial
    | duplicate n =>
      have hduplicate : (resolveDuplicate config pending n).run.Always (Request.In streams)
          fun _ => True := by
        unfold resolveDuplicate
        apply Prog.Always.run_bind (RoomActor.always_okOr _ _)
        intro frameLen
        apply Prog.Always.run_bind (RoomActor.always_okOr _ _)
        intro start
        apply Prog.Always.run_bind
        · exact ⟨⟨hstream, fun hlength => hbytes (List.length_eq_zero_iff.1 hlength)⟩,
            fun _ => trivial⟩
        · exact fun stored => Prog.always_run_lift _
      change Prog.Always _ _ ((resolveDuplicate config pending n).run >>= _)
      refine .bind hduplicate fun r _ => ?_
      cases r <;> trivial
  | error error =>
    cases error with
    | ambiguous message =>
      cases left with
      | zero => trivial
      | succ left => exact again left rfl
    | rejected kind message => trivial
    | integrity message => trivial

theorem keeps_resolveAppend {streams : String → Prop} {config : ActorConfig}
    {pending : PendingAppend} (hstream : streams pending.targetStream)
    (hbytes : pending.bytes ≠ []) :
    (resolveAppend config pending).Always (Request.In streams) fun _ => True := by
  unfold resolveAppend
  generalize config.ambiguousRetries = left
  induction left with
  | zero => exact keeps_resolveAttempts_turn hstream hbytes fun _ hleft => by cases hleft
  | succ left ih =>
    refine keeps_resolveAttempts_turn hstream hbytes fun left' hleft => ?_
    obtain rfl := Nat.succ.inj hleft
    exact ih

end Resolution

/-! ## Rotation and recovery -/

section Room

variable [Hashing] {Doc : Type} [Loro Doc] {roomId : String}

theorem keeps_persistCheckpoint (generation : GenerationId) (record : CheckpointRecord)
    (retries : Nat) :
    (persistCheckpoint roomId generation record retries).run.Always (Request.In (OfRoom roomId))
      fun _ => True := by
  have hstream : OfRoom roomId _ := ofRoom_checkpoint generation
  unfold persistCheckpoint
  apply Prog.Always.run_bind always_check
  intro _
  apply Prog.Always.run_bind always_check
  intro _
  apply Prog.Always.run_bind (Prog.always_run_lift _)
  intro bytes
  apply Prog.Always.run_bind (always_mapErr (keeps_ensureStream hstream))
  intro _
  apply Prog.Always.run_bind (always_mapErr (keeps_readAll hstream))
  intro existing
  split_ifs
  · apply Prog.Always.run_bind always_check
    intro _
    exact Prog.Always.run_bind (RoomActor.always_okOr _ _) fun _ => trivial
  · apply Prog.Always.run_bind (always_mapErr (keeps_appendExactWithRetry hstream _ _ _))
    intro appended
    apply Prog.Always.run_bind (RoomActor.always_okOr _ _)
    intro expectedOffset
    exact Prog.Always.run_bind always_check fun _ => trivial

theorem keeps_publishManifestRecord (record : ManifestRecord) (retries : Nat) :
    (publishManifestRecord roomId record retries).run.Always (Request.In (OfRoom roomId))
      fun _ => True := by
  have hstream : OfRoom roomId _ := ofRoom_manifest
  unfold publishManifestRecord
  apply Prog.Always.run_bind always_check
  intro _
  apply Prog.Always.run_bind (Prog.always_run_lift _)
  intro encoded
  apply Prog.Always.run_bind (always_mapErr (keeps_ensureStream hstream))
  intro _
  apply Prog.Always.run_bind (always_mapErr (keeps_readAll hstream))
  intro existing
  apply Prog.Always.run_bind (RoomActor.always_okOr _ _)
  intro existingLen
  apply Prog.Always.run_bind (Prog.always_run_lift _)
  intro plan
  cases plan with
  | none => trivial
  | some records =>
    apply Prog.Always.run_bind (Prog.always_run_lift _)
    intro _
    apply Prog.Always.run_bind (always_mapErr (keeps_appendExactWithRetry hstream _ _ _))
    intro appended
    apply Prog.Always.run_bind (RoomActor.always_okOr _ _)
    intro encodedLen
    apply Prog.Always.run_bind (RoomActor.always_okOr _ _)
    intro expectedEnd
    exact Prog.Always.run_bind always_check fun _ => trivial

theorem keeps_nextManifestPosition (generation : GenerationId) :
    (nextManifestPosition roomId generation).run.Always (Request.In (OfRoom roomId))
      fun _ => True := by
  unfold nextManifestPosition
  apply Prog.Always.run_bind (always_mapErr (keeps_ensureStream ofRoom_manifest))
  intro _
  apply Prog.Always.run_bind (always_mapErr (keeps_readAll ofRoom_manifest))
  intro bytes
  exact Prog.always_run_lift _

/-- A rotation leads to a stream of the room. -/
theorem keeps_rotateRoom (generation : GenerationId) (endOffset : UInt64) (doc : Doc)
    (history : List Bytes) (retries : Nat) :
    (rotateRoom roomId generation endOffset doc history retries).run.Always
      (Request.In (OfRoom roomId)) fun r => ∀ rotated, r = .ok rotated →
        OfRoom roomId rotated.nextDeltaStream := by
  unfold rotateRoom
  apply always_okOr_bind nofun
  intro next _
  have hnext : OfRoom roomId _ := ofRoom_delta next
  apply Prog.Always.run_bind_post (fun _ => nofun) (Prog.always_run_lift _)
  intro checkpoint
  apply Prog.Always.run_bind_post (fun _ => nofun) (Prog.always_run_lift _)
  intro checkpointBytes
  apply Prog.Always.run_bind_post (fun _ => nofun)
    (always_mapErr (keeps_persistCheckpoint _ _ _))
  intro _
  apply Prog.Always.run_bind_post (fun _ => nofun) (always_mapErr (keeps_ensureStream hnext))
  intro _
  apply Prog.Always.run_bind_post (fun _ => nofun) (always_mapErr (keeps_readAll hnext))
  intro nextDeltaBytes
  apply Prog.Always.run_bind_post (fun _ => nofun) always_check
  intro _
  apply Prog.Always.run_bind_post (fun _ => nofun) (keeps_nextManifestPosition _)
  intro position
  apply Prog.Always.run_bind_post (fun _ => nofun) (Prog.always_run_lift _)
  intro manifest
  apply Prog.Always.run_bind_post (fun _ => nofun)
    (always_mapErr (keeps_publishManifestRecord _ _))
  intro _ rotated heq
  cases heq
  exact hnext

/-- A recovery reads streams of the room only, and sets up one of them. -/
theorem keeps_recoverFromManifest (limits : FrameLimits) :
    (recoverFromManifest Doc roomId limits).run.Always (Request.In (OfRoom roomId)) fun r =>
      ∀ recovered, r = .ok (some recovered) → OfRoom roomId recovered.activeDeltaStream := by
  unfold recoverFromManifest
  apply Prog.Always.run_bind_post (fun _ => nofun)
    (always_mapErr (keeps_ensureStream ofRoom_manifest))
  intro _
  apply Prog.Always.run_bind_post (fun _ => nofun) (always_mapErr (keeps_readAll ofRoom_manifest))
  intro manifestBytes
  split_ifs
  · exact nofun
  · apply Prog.Always.run_bind_post (fun _ => nofun) (Prog.always_run_lift _)
    intro records
    apply Prog.Always.run_bind_post (fun _ => nofun) (Prog.always_run_lift _)
    intro latest
    apply Prog.Always.run_bind_post (fun _ => nofun)
      (always_mapErr (keeps_readAll (ofRoom_checkpoint _)))
    intro checkpointBytes
    apply Prog.Always.run_bind_post (fun _ => nofun) always_check
    intro _
    apply Prog.Always.run_bind_post (fun _ => nofun) always_check
    intro _
    apply Prog.Always.run_bind_post (fun _ => nofun) (Prog.always_run_lift _)
    intro checkpoint
    apply Prog.Always.run_bind_post (fun _ => nofun) (Prog.always_run_lift _)
    intro _
    apply Prog.Always.run_bind_post (fun _ => nofun) (Prog.always_run_lift _)
    intro snapshot
    apply Prog.Always.run_bind_post (fun _ => nofun) (Prog.always_run_lift _)
    intro doc
    apply Prog.Always.run_bind_post (fun _ => nofun)
      (always_mapErr (keeps_readAll (ofRoom_delta _)))
    intro deltaBytes
    apply Prog.Always.run_bind_post (fun _ => nofun) (Prog.always_run_lift _)
    intro frames
    apply Prog.Always.run_bind_post (fun _ => nofun) (Prog.always_run_lift _)
    intro replayed
    apply Prog.Always.run_bind_post (fun _ => nofun) (RoomActor.always_okOr _ _)
    intro endOffset recovered heq
    cases heq
    exact ofRoom_delta _

end Room

/-! ## The actor -/

namespace RoomActor

variable [Hashing] {Doc : Type} [Loro Doc] {roomId : String} {config : ActorConfig}

/-- The streams that the actor remembers are those of its room. -/
structure KeepsTo (roomId : String) (a : RoomActor Doc) : Prop where
  room : a.roomId = roomId
  stream : OfRoom roomId a.stream
  blocked : ∀ pending, a.blocked = some pending →
    OfRoom roomId pending.targetStream ∧ pending.bytes ≠ []

variable {a : RoomActor Doc}

theorem keeps_loadFromStore (h : a.KeepsTo roomId) :
    a.loadFromStore.Always (Request.In (OfRoom roomId)) fun r => r.1.KeepsTo roomId := by
  unfold loadFromStore
  refine Prog.always_call ⟨h.stream, trivial⟩ fun x => ?_
  cases x with
  | error error => exact h
  | ok bytes =>
    simp only [Prog.bind]
    cases u64OfUsize bytes.length with
    | none => exact h
    | some endOffset => exact { h with }

theorem keeps_initializeActor (h : a.KeepsTo roomId) :
    a.initializeActor.Always (Request.In (OfRoom roomId)) fun r => r.1.KeepsTo roomId := by
  have hroom := h.room
  subst hroom
  unfold initializeActor
  refine .bind (keeps_recoverFromManifest _) fun x hx => ?_
  cases x with
  | error error => exact h
  | ok recovered =>
    cases recovered with
    | some recovered =>
      show (a.withRecovery recovered).KeepsTo a.roomId
      exact { h with stream := hx recovered rfl }
    | none =>
      refine .bind (keeps_ensureStream h.stream) fun x _ => ?_
      cases x with
      | error error => exact h
      | ok _ =>
        refine .bind (keeps_loadFromStore h) fun r hr => ?_
        obtain ⟨b, loaded⟩ := r
        cases loaded with
        | error failure => exact hr
        | ok loaded => exact { hr with }

/-- A start calls streams of the room only. -/
theorem keeps_activate (boot : Boot) :
    (activate roomId config boot : StoreM (RoomActor Doc)).Always (Request.In (OfRoom roomId))
      fun a => a.KeepsTo roomId := by
  have hnew : (RoomActor.new roomId boot config : RoomActor Doc).KeepsTo roomId :=
    ⟨rfl, ofRoom_delta _, nofun⟩
  unfold activate
  refine .bind (keeps_initializeActor hnew) fun r hr => ?_
  obtain ⟨b, result⟩ := r
  cases result with
  | ok _ => exact { hr with }
  | error failure => exact { hr with }

theorem keeps_retryPending (h : a.KeepsTo roomId) :
    a.retryPending.Always (Request.In (OfRoom roomId)) fun r => r.1.KeepsTo roomId := by
  unfold retryPending
  split
  · exact h
  · rename_i pending hblocked
    have hpending := h.blocked pending hblocked
    have hfree : ({ a with blocked := none } : RoomActor Doc).KeepsTo roomId :=
      { h with blocked := nofun }
    have hagain : ∀ {b : RoomActor Doc}, b.KeepsTo roomId → ∀ lifecycle lastError,
        (({ b with blocked := some pending } : RoomActor Doc).transition lifecycle
          lastError).KeepsTo roomId := by
      intro b hb lifecycle lastError
      refine { hb with blocked := ?_ }
      intro other hother
      obtain rfl := Option.some.inj hother
      exact hpending
    refine .bind (keeps_resolveAppend hpending.1 hpending.2) fun x _ => ?_
    cases x with
    | error failure =>
      cases failure with
      | definitelyRejected kind message => exact hagain hfree _ _
      | outcomeUnknown error => exact hagain hfree _ _
    | ok proof =>
      refine .bind (keeps_loadFromStore hfree) fun r hr => ?_
      obtain ⟨b, loaded⟩ := r
      change Prog.Always _ _ (.ret (finishReload pending b loaded))
      cases loaded with
      | error failure => exact hagain hr _ _
      | ok loaded =>
        unfold finishReload
        dsimp only
        split
        · exact hagain hr _ _
        · exact { hr with }

theorem keeps_rotateGeneration (h : a.KeepsTo roomId) :
    a.rotateGeneration.Always (Request.In (OfRoom roomId)) fun r => r.1.KeepsTo roomId := by
  have hroom := h.room
  subst hroom
  unfold rotateGeneration
  split_ifs
  · exact h
  · refine .bind (keeps_rotateRoom _ _ _ _ _) fun x hx => ?_
    cases x with
    | error error => exact { h with }
    | ok rotated =>
      show (a.withRotation rotated).KeepsTo a.roomId
      exact { h with stream := hx rotated rfl }

theorem keeps_update (h : a.KeepsTo roomId) (connectionId : UInt64) (batchId : BatchId)
    (updates : List Bytes) (peer : PeerSender) :
    (a.update connectionId batchId updates peer).Always (Request.In (OfRoom roomId)) fun r =>
      r.1.KeepsTo roomId := by
  unfold update
  split
  · exact h
  · rename_i admission hadmission
    have hadmitted := admitUpdate_eq_ok hadmission
    have htarget : OfRoom roomId admission.pending.targetStream := by
      rw [hadmitted.stream]
      exact h.stream
    have hbytes : admission.pending.bytes ≠ [] := by
      intro hnil
      have hpos := hadmitted.valid.length_pos
      rw [← hadmitted.bytes_eq, hnil] at hpos
      exact absurd hpos (Nat.lt_irrefl 0)
    refine .bind (keeps_resolveAppend htarget hbytes) fun x _ => ?_
    cases x with
    | ok proof => exact { h with }
    | error failure =>
      cases failure with
      | definitelyRejected kind message => exact h
      | outcomeUnknown error =>
        refine { h with blocked := ?_ }
        intro pending hpending
        obtain rfl := Option.some.inj hpending
        exact ⟨htarget, hbytes⟩

/-- A command calls streams of the room only. -/
theorem keeps_handle (h : a.KeepsTo roomId) (command : Command) :
    (a.handle command).Always (Request.In (OfRoom roomId)) fun r => r.1.KeepsTo roomId := by
  cases command with
  | waitForActivation => exact h
  | retryAmbiguous => exact .bind (keeps_retryPending h) fun _ h => h
  | rotate => exact .bind (keeps_rotateGeneration h) fun _ h => h
  | join connectionId version peer =>
    unfold handle
    split_ifs
    · exact h
    · obtain ⟨peers, ids, hjoin⟩ := a.join_fst connectionId version peer
      change (a.join connectionId version peer).1.KeepsTo roomId
      rw [hjoin]
      exact { h with }
  | update connectionId batchId updates peer =>
    unfold handle
    split_ifs
    · exact h
    · exact keeps_update h connectionId batchId updates peer
  | leave connectionId =>
    unfold handle
    split_ifs
    · exact h
    · exact { h with }

end RoomActor

end LoroGateway
