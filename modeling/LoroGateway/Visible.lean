import LoroGateway.Lasting
import LoroGateway.Remembered

/-!
# Nothing uncommitted is visible

What an actor holds and what it shows to its peers has a source: a frame that is
in a delta stream of its generation or of an earlier one.  `Sourced` says so of a
document with its history.  A checkpoint is built from such a document, so what
is restored from a checkpoint has a source as well; `Backing` says that of every
checkpoint that is stored or under way.
-/

namespace LoroGateway

open ByteCodec CrashLogic CrashLogic.Server

/-- What an output shows of a document satisfies `ok`.  A fragment is a piece of
an update. -/
def Output.Shows (ok : Bytes → Prop) : Output → Prop
  | .send _ (.docUpdate _ updates _) => ∀ update ∈ updates, ok update
  | .send _ (.docUpdateFragment _ _ _ fragment) =>
    ∃ update index, ok update ∧
      fragment = (update.drop (index * fragmentSize)).take fragmentSize
  | _ => True

section Shows

variable {ok ok' : Bytes → Prop} {peer : PeerSender} {roomId : String}

theorem Output.Shows.mono {output : Output} (h : output.Shows ok)
    (himp : ∀ update, ok update → ok' update) : output.Shows ok' := by
  unfold Output.Shows at h ⊢
  split
  · exact fun update hmem => himp update (h update hmem)
  · obtain ⟨update, index, hok, hfragment⟩ := h
    exact ⟨update, index, himp update hok, hfragment⟩
  · trivial

/-- An update that is sent shows itself, whole or in fragments. -/
theorem shows_sendUpdate {update : Bytes} {counter : UInt64} (hok : ok update) :
    ∀ output ∈ sendUpdate peer roomId update counter, output.Shows ok := by
  intro output hmem
  rw [sendUpdate] at hmem
  split_ifs at hmem
  · obtain rfl := List.mem_singleton.mp hmem
    exact fun _ h => List.mem_singleton.mp h ▸ hok
  · rcases List.mem_cons.mp hmem with rfl | hmem
    · trivial
    · obtain ⟨index, hindex, rfl⟩ := List.mem_mapIdx.mp hmem
      refine ⟨update, index, hok, ?_⟩
      simp only [fragments, List.getElem_map, List.getElem_range]

theorem shows_sendUpdates {sends : List (PeerSender × Bytes)} {ids : Stream' UInt64}
    (hok : ∀ send ∈ sends, ok send.2) :
    ∀ output ∈ (sendUpdates roomId sends ids).1, output.Shows ok := by
  induction sends generalizing ids with
  | nil => nofun
  | cons first rest ih =>
    obtain ⟨hfirst, hrest⟩ := List.forall_mem_cons.mp hok
    intro output hmem
    rw [sendUpdates] at hmem
    rcases List.mem_append.mp hmem with hmem | hmem
    · exact shows_sendUpdate hfirst output hmem
    · exact ih hrest output hmem

theorem shows_sendAck {batchId : BatchId} {status : UpdateStatusCode} :
    ∀ output ∈ sendAck peer roomId batchId status, output.Shows ok := by
  intro output hmem
  obtain rfl := List.mem_singleton.mp hmem
  trivial

theorem shows_sendRoomError {message : String} :
    ∀ output ∈ sendRoomError peer roomId message, output.Shows ok := by
  intro output hmem
  obtain rfl := List.mem_singleton.mp hmem
  trivial

section Actor

variable {Doc : Type} {a : RoomActor Doc}

theorem shows_rejectUnavailable (command : Command) :
    ∀ output ∈ a.rejectUnavailable command, output.Shows ok := by
  cases command <;> simp [RoomActor.rejectUnavailable, sendAck, Output.Shows]

variable [Loro Doc] {Op : Type} {S : Loro.Observers Doc Op} (sem : Loro.Semantics S)

include sem

theorem exportFor_ops {doc : Doc} {version : Option (Loro.Version Doc)} {update : Bytes}
    (h : RoomActor.exportFor doc version = .ok update) : S.blobOps update ⊆ S.applied doc := by
  cases version with
  | none => exact (sem.snapshot_ops h).subset
  | some version => exact (sem.updates_ops h).1

/-- A backfill shows applied operations. -/
theorem shows_join {connectionId : UInt64} {version : Bytes} :
    ∀ output ∈ (a.join connectionId version peer).2,
      output.Shows fun update => S.blobOps update ⊆ S.applied a.doc := by
  intro output hmem
  rw [RoomActor.join] at hmem
  split_ifs at hmem
  · obtain rfl := List.mem_singleton.mp hmem
    trivial
  · split at hmem
    · obtain rfl := List.mem_singleton.mp hmem
      trivial
    · dsimp only at hmem
      split_ifs at hmem
      · obtain rfl := List.mem_singleton.mp hmem
        trivial
      · split at hmem
        · rename_i update hexport
          rcases List.mem_cons.mp hmem with rfl | hmem
          · trivial
          · exact shows_sendUpdate (exportFor_ops sem hexport) output hmem
        · rcases List.mem_cons.mp hmem with rfl | hmem
          · trivial
          · exact shows_sendRoomError output hmem

end Actor

end Shows

section

variable [Hashing] {Doc : Type} [Loro Doc] {Op : Type} (S : Loro.Observers Doc Op)

/-- The blob is in a committed frame of the generation or of an earlier one. -/
def FromFrame (limits : FrameLimits) (roomId : String) (generation : GenerationId) (d : Disk)
    (blob : Bytes) : Prop :=
  ∃ source frame, source.value ≤ generation.value ∧
    Committed (NamedFrame roomId) limits roomId source frame d ∧ blob ∈ frame.updates

/-- The operations of the committed frames, up to a generation. -/
def frameOps (limits : FrameLimits) (roomId : String) (generation : GenerationId) (d : Disk) :
    Set Op :=
  {o | ∃ blob, FromFrame limits roomId generation d blob ∧ o ∈ S.blobOps blob}

/-- A document and its history come from committed frames. -/
structure Sourced (limits : FrameLimits) (roomId : String) (generation : GenerationId) (d : Disk)
    (doc : Doc) (history : List Bytes) : Prop where
  history : ∀ blob ∈ history, FromFrame limits roomId generation d blob
  doc : S.known doc ⊆ frameOps S limits roomId generation d

/-- A checkpoint was built from a document that comes from committed frames. -/
def BackedBy (limits : FrameLimits) (roomId : String) (generation : GenerationId) (d : Disk)
    (checkpoint : CheckpointRecord) : Prop :=
  ∃ (doc : Doc) (endOffset : UInt64) (history : List Bytes),
    buildCheckpointRecord roomId generation.value generation.value endOffset doc history =
      .ok checkpoint ∧ Sourced S limits roomId generation d doc history

/-- Every checkpoint of the room comes from committed frames. -/
def Backing (limits : FrameLimits) (roomId : String) (w : World) : Prop :=
  ∀ generation, CheckpointInvariant (BackedBy S limits roomId generation w.disk) roomId generation w

variable {S} {limits : FrameLimits} {roomId : String} {generation generation' : GenerationId}
  {d : Disk} {w w' : World}

omit [Loro Doc] in
theorem FromFrame.mono {blob : Bytes} (h : FromFrame limits roomId generation d blob)
    (hle : generation.value ≤ generation'.value) (hgrow : d.Grows w.disk)
    (hw : DeltaKept roomId limits w) : FromFrame limits roomId generation' w.disk blob := by
  obtain ⟨source, frame, hsource, hcommitted, hmem⟩ := h
  exact ⟨source, frame, UInt64.le_trans hsource hle,
    hcommitted.mono hgrow hw.toDeltaInvariant, hmem⟩

theorem frameOps_mono (hle : generation.value ≤ generation'.value) (hgrow : d.Grows w.disk)
    (hw : DeltaKept roomId limits w) :
    frameOps S limits roomId generation d ⊆ frameOps S limits roomId generation' w.disk := by
  rintro o ⟨blob, hblob, ho⟩
  exact ⟨blob, hblob.mono hle hgrow hw, ho⟩

theorem ops_subset_frameOps {blobs : List Bytes}
    (h : ∀ blob ∈ blobs, FromFrame limits roomId generation d blob) :
    S.ops blobs ⊆ frameOps S limits roomId generation d := by
  rintro o ⟨blob, hmem, ho⟩
  exact ⟨blob, h blob hmem, ho⟩

namespace Sourced

variable {doc : Doc} {history : List Bytes}

theorem mono (h : Sourced S limits roomId generation d doc history)
    (hle : generation.value ≤ generation'.value) (hgrow : d.Grows w.disk)
    (hw : DeltaKept roomId limits w) : Sourced S limits roomId generation' w.disk doc history :=
  ⟨fun blob hmem => (h.history blob hmem).mono hle hgrow hw, h.doc.trans (frameOps_mono hle hgrow hw)⟩

/-- What knows no more than a history that has a source. -/
theorem of_history (hhistory : ∀ blob ∈ history, FromFrame limits roomId generation d blob)
    (hdoc : S.known doc ⊆ S.ops history) : Sourced S limits roomId generation d doc history :=
  ⟨hhistory, hdoc.trans (ops_subset_frameOps hhistory)⟩

end Sourced

theorem BackedBy.mono {checkpoint : CheckpointRecord}
    (h : BackedBy S limits roomId generation d checkpoint) (hgrow : d.Grows w.disk)
    (hw : DeltaKept roomId limits w) : BackedBy S limits roomId generation w.disk checkpoint := by
  obtain ⟨doc, endOffset, history, hbuilt, hsourced⟩ := h
  exact ⟨doc, endOffset, history, hbuilt, hsourced.mono (UInt64.le_refl _) hgrow hw⟩

namespace Backing

/-- The checkpoints of a later world, as they were before. -/
theorem extend (h : ∀ generation,
      CheckpointInvariant (BackedBy S limits roomId generation w.disk) roomId generation w')
    (hgrow : w.disk.Grows w'.disk) (hw : DeltaKept roomId limits w') : Backing S limits roomId w' :=
  fun generation => (h generation).mono fun _ hbacked => hbacked.mono hgrow hw

theorem empty : Backing S limits roomId World.empty :=
  fun generation => ⟨WrittenOnce.empty _ roomId generation, nofun⟩

theorem serve_ne (h : Backing S limits roomId w) {req : Request} {x : Answer req}
    (hne : ∀ stream producer body, req = .append stream producer body → ∀ generation,
      stream ≠ (checkpointStream roomId generation).physical)
    (hserve : served w req x w') (hw : DeltaKept roomId limits w') : Backing S limits roomId w' :=
  extend (fun generation => (h generation).serve_ne
    (fun stream producer body hreq => hne stream producer body hreq generation) hserve)
    (served_grows hserve) hw

theorem persist (h : Backing S limits roomId w) {checkpoint : CheckpointRecord} {bytes : Bytes}
    {x : Except StoreError AppendOutcome} (hbacked : BackedBy S limits roomId generation w.disk checkpoint)
    (hencode : checkpoint.encode = .ok bytes)
    (hserve : served w (.append (checkpointStream roomId generation).physical
      ⟨checkpointProducerId roomId generation, 0, 0⟩ bytes) x w')
    (hw : DeltaKept roomId limits w') : Backing S limits roomId w' := by
  refine extend (fun other => ?_) (served_grows hserve) hw
  by_cases heq : generation = other
  · subst heq
    exact (h generation).persist hbacked hencode hserve
  · exact (h other).append_ne (fun hsame => heq (checkpointStream_inj hsame)) hserve

theorem deliver (h : Backing S limits roomId w) {app : Append} (hmem : app ∈ w.underWay)
    (hw : DeltaKept roomId limits (w.deliver app)) : Backing S limits roomId (w.deliver app) :=
  extend (fun generation => (h generation).deliver hmem) (Disk.grows_append _ _) hw

theorem crashed (h : Backing S limits roomId w) : Backing S limits roomId (crashedWorld w) :=
  fun generation => ⟨(h generation).once, (h generation).underWay⟩

/-- The checkpoint that a stream holds is backed. -/
theorem stored (h : Backing S limits roomId w) {checkpoint : CheckpointRecord}
    (hencode : checkpoint.encode =
      .ok (w.disk.read (checkpointStream roomId generation).physical)) :
    BackedBy S limits roomId generation w.disk checkpoint := by
  have hlength := (CheckpointRecord.encode_length hencode).1
  rcases (h generation).once with ⟨_, hempty⟩ | ⟨_, other, hbacked, hother⟩
  · rw [hempty] at hlength
    exact absurd hlength (by decide)
  · have hdecode := CheckpointRecord.decodeExact_encode hencode
    rw [CheckpointRecord.decodeExact_encode hother] at hdecode
    exact Except.ok.inj hdecode ▸ hbacked

end Backing

variable (sem : Loro.Semantics S)

include sem

/-- What a replay has rebuilt comes from the frames of the stream. -/
theorem sourced_of_replay {history : List Bytes} {doc : Doc} (hw : DeltaKept roomId limits w)
    (h : replayStream Doc limits
      (w.disk.read (deltaStreamForGeneration roomId generation).physical) = .ok (history, doc)) :
    Sourced S limits roomId generation w.disk doc history := by
  obtain ⟨frames, hframes, hhistory, hreplay⟩ := replayStream_eq_ok h
  obtain ⟨logged, hlog⟩ := hw.logs generation
  obtain rfl := hlog.eq_of_decode hframes
  refine .of_history (fun blob hmem => ?_) (replay_known sem hreplay).subset
  rw [collectHistory_eq_ok hhistory, List.nil_append, List.mem_flatMap] at hmem
  obtain ⟨frame, hframe, hblob⟩ := hmem
  exact ⟨generation, frame, UInt64.le_refl _, ⟨_, hlog, hframe⟩, hblob⟩

/-- What a recovery has rebuilt comes from the frames behind its checkpoint and
from those of the active stream. -/
theorem sourced_of_recovered {records : List ManifestRecord} {checkpoint : CheckpointRecord}
    {frames : List DeltaFrame} {recovery : ManifestRecovery Doc} {before : World → Prop}
    (hw : DeltaKept roomId limits w)
    (hbefore : ∀ w₁, before w₁ → (DeltaKept roomId limits w₁ ∧ Backing S limits roomId w₁) ∧
      w₁.disk.Grows w.disk)
    (h : Recovered before roomId limits records checkpoint frames recovery) :
    Sourced S limits roomId recovery.activeDeltaGeneration w.disk recovery.doc recovery.history := by
  obtain ⟨w₁, _, hrecords⟩ := h.manifest
  obtain ⟨latest, w₂, hlast, hw₂, _, hencode⟩ := h.latest
  obtain ⟨w₃, hw₃, hdecode, _⟩ := h.delta
  have hlinked := hrecords.manifest.linked latest (List.mem_of_getLast? hlast)
  have hactive : recovery.activeDeltaGeneration = ⟨latest.activeDeltaGeneration⟩ := by
    rw [h.active, activeGeneration, hlast]
  have hle : latest.checkpointGeneration ≤ recovery.activeDeltaGeneration.value := by
    rw [hactive, UInt64.le_iff_toNat_le, hlinked.active, hlinked.generation]
    exact Nat.le_succ _
  obtain ⟨doc, endOffset, history, hbuilt, hsourced⟩ := (hbefore w₂ hw₂).1.2.stored hencode
  obtain ⟨hexport, hkept⟩ := buildCheckpointRecord_eq_ok hbuilt
  have hsourced := hsourced.mono hle (hbefore w₂ hw₂).2 hw
  have hhistory : ∀ blob ∈ recovery.history,
      FromFrame limits roomId recovery.activeDeltaGeneration w.disk blob := by
    intro blob hmem
    rw [h.history] at hmem
    rcases List.mem_append.mp hmem with hmem | hmem
    · exact hsourced.history blob (pendingUpdatesOf_subset hkept hmem)
    · obtain ⟨frame, hframe, hblob⟩ := List.mem_flatMap.mp hmem
      rw [h.stream, ← h.active] at hdecode
      obtain ⟨logged, hlog⟩ := (hbefore w₃ hw₃).1.1.logs recovery.activeDeltaGeneration
      obtain rfl := hlog.eq_of_decode hdecode
      exact ⟨_, frame, UInt64.le_refl _,
        Committed.mono ⟨_, hlog, hframe⟩ (hbefore w₃ hw₃).2 hw.toDeltaInvariant, hblob⟩
  refine ⟨hhistory, ?_⟩
  rw [h.known sem, sem.snapshot_ops hexport]
  exact Set.union_subset (Loro.Semantics.applied_subset_known.trans hsourced.doc)
    (ops_subset_frameOps hhistory)

section Programs

variable (S) (config : ActorConfig)

omit sem

/-- What is known of the world of a run whose store is honest. -/
structure Backed (roomId : String) (w : World) : Prop extends Kept Doc roomId config w where
  backing : Backing S config.frameLimits roomId w

/-- What a command may show: a join shows operations of committed frames, and an
update shows blobs of committed frames. -/
def mayShow (roomId : String) (command : Command) (generation : GenerationId) (d : Disk) :
    Bytes → Prop :=
  match command with
  | .join _ _ _ => fun update =>
      S.blobOps update ⊆ frameOps S config.frameLimits roomId generation d
  | _ => FromFrame config.frameLimits roomId generation d

variable {S} {config} {policy : Policy Doc roomId config} {task : Task (gateway Doc roomId config)}

/-- A call that goes to no checkpoint stream keeps the checkpoints. -/
theorem backed_keeps {req : Request} {assertion : World → Prop} (hassertion : GrowthStable assertion)
    (hne : ∀ stream producer body, req = .append stream producer body → ∀ generation,
      stream ≠ (checkpointStream roomId generation).physical) :
    Keeps ((keptEnvironment policy).serve task)
      ((keptEnvironment policy).contract (Backed S config roomId)) assertion req := by
  refine Keeps.of_growthStable (confined_grounded _) hassertion fun w x w' _ h hserve => ⟨?_, trivial⟩
  have hkept' := hserve.2.2
  exact ⟨hkept', h.backing.serve_ne hne (served_of_confined hserve) hkept'.delta⟩

/-- The append of a frame goes to no checkpoint stream. -/
theorem backed_resolve (honest : policy.Honest) {a : RoomActor Doc} (ha : a.Seated roomId config)
    {pending : PendingAppend} (hpending : a.Prepares pending) (w : World) :
    wp ((keptEnvironment policy).serve task)
      ((keptEnvironment policy).contract (Backed S config roomId)) (resolveAppend a.config pending)
      (fun r t => ∀ proof, r = .ok proof →
        Committed (NamedFrame roomId) config.frameLimits roomId a.activeDeltaGeneration
          pending.frame t.disk) w := by
  refine honest_resolve honest ha hpending (fun _ h => h.toKept)
    (backed_keeps growthStable_true ?_) w
  rintro stream _ _ ⟨⟩ generation
  rw [hpending.stream, ha.stream]
  exact deltaStream_ne_checkpointStream

include sem

theorem visible_boot (boot : Boot) (w : World) :
    wp ((keptEnvironment policy).serve task)
      ((keptEnvironment policy).contract (Backed S config roomId))
      (RoomActor.activate roomId config boot)
      (fun (a : RoomActor Doc) t => ∀ w', DeltaKept roomId config.frameLimits w' →
        t.disk.Grows w'.disk →
        Sourced S config.frameLimits roomId a.activeDeltaGeneration w'.disk a.doc a.history) w := by
  have hc := kept_grounded policy (RoomActor.Placed roomId config) task (Backed S config roomId)
  refine RoomActor.wp_activate hc (growthStable_true.stable hc.grows) (fun _ h => h.stored) trivial
    (fun stream => backed_keeps growthStable_true nofun) ?_ ?_ ?_
  · intro _ _ _ _ _ _ w' _ _
    refine ⟨nofun, ?_⟩
    exact sem.known_new.trans_subset (Set.empty_subset _)
  · intro records checkpoint frames recovery t _ ht h w' hw' hgrow
    refine (sourced_of_recovered sem ht.delta (fun w₁ hw₁ => ?_) h).mono (UInt64.le_refl _) hgrow hw'
    exact ⟨⟨hw₁.1.2.delta, hw₁.1.2.backing⟩, hw₁.2⟩
  · intro _ _ history doc t _ _ _ ht _ hreplay w' hw' hgrow
    exact (sourced_of_replay sem ht.delta hreplay).mono (UInt64.le_refl _) hgrow hw'

variable {a : RoomActor Doc} (ha : a.Placed roomId config w)
  (hsourced : Sourced S config.frameLimits roomId a.activeDeltaGeneration w.disk a.doc a.history)

include ha hsourced

omit sem in
theorem visible_rotate :
    wp ((keptEnvironment policy).serve task)
      ((keptEnvironment policy).contract (Backed S config roomId)) a.rotateGeneration
      (fun r t => ∀ w', DeltaKept roomId config.frameLimits w' → w.disk.Grows w'.disk →
        t.disk.Grows w'.disk → Sourced S config.frameLimits roomId r.1.activeDeltaGeneration w'.disk
          r.1.doc r.1.history) w := by
  have hc := kept_grounded policy (RoomActor.Placed roomId config) task (Backed S config roomId)
  have hsince := growthStable_after w.disk
  have hsame : ∀ w', DeltaKept roomId config.frameLimits w' → w.disk.Grows w'.disk →
      Sourced S config.frameLimits roomId a.activeDeltaGeneration w'.disk a.doc a.history :=
    fun w' hw' hgrow => hsourced.mono (UInt64.le_refl _) hgrow hw'
  refine RoomActor.wp_rotateGeneration (fun _ w' hw' hgrow _ => hsame w' hw' hgrow) fun _ _ => ?_
  rw [ha.room]
  refine wp_rotateRoom hc (hsince.stable hc.grows) (Disk.Grows.refl _) (fun w h => ?_)
    (fun stream => backed_keeps hsince nofun) ?_ ?_
    (fun _ _ _ w' hw' hgrow _ => hsame w' hw' hgrow) ?_
  · obtain ⟨records, hrecords⟩ := h.stored
    exact ⟨records, hrecords.manifest.log⟩
  · intro checkpoint bytes hencode hbuilt
    refine Keeps.of_growthStable (confined_grounded _) hsince
      fun w₁ x w₂ hgrow h hserve => ⟨⟨hserve.2.2, ?_⟩, trivial⟩
    exact h.backing.persist ⟨_, _, _, hbuilt, hsame w₁ h.delta hgrow⟩ hencode
      (served_of_confined hserve) hserve.2.2.delta
  · intro result _
    refine backed_keeps ((hsince.and (Prepared.stable result)).and (CheckedAgainst.stable _ _)) ?_
    rintro _ _ _ ⟨⟩ generation
    exact checkpointStream_ne_manifestStream.symm
  · intro result t _ hrotated w' hw' hgrow _
    obtain ⟨_, hkept⟩ := buildCheckpointRecord_eq_ok hrotated.built
    rw [← hrotated.retained] at hkept
    have hle : a.activeDeltaGeneration.value ≤ result.nextDeltaGeneration.value := by
      rw [UInt64.le_iff_toNat_le, hrotated.next]
      exact Nat.le_succ _
    have hnext := hsourced.mono hle hgrow hw'
    exact ⟨fun blob hmem => hnext.history blob (pendingUpdatesOf_subset hkept hmem), hnext.doc⟩

theorem visible_retry (honest : policy.Honest) :
    wp ((keptEnvironment policy).serve task)
      ((keptEnvironment policy).contract (Backed S config roomId)) a.retryPending
      (fun r t => ∀ w', DeltaKept roomId config.frameLimits w' → w.disk.Grows w'.disk →
        t.disk.Grows w'.disk → Sourced S config.frameLimits roomId r.1.activeDeltaGeneration w'.disk
          r.1.doc r.1.history) w := by
  have hc := kept_grounded policy (RoomActor.Placed roomId config) task (Backed S config roomId)
  have hsame : ∀ w', DeltaKept roomId config.frameLimits w' → w.disk.Grows w'.disk →
      Sourced S config.frameLimits roomId a.activeDeltaGeneration w'.disk a.doc a.history :=
    fun w' hw' hgrow => hsourced.mono (UInt64.le_refl _) hgrow hw'
  refine RoomActor.wp_retryPending hc (fun _ => True) (fun _ => True)
    (growthStable_true.stable hc.grows) (fun _ w' hw' hgrow _ => hsame w' hw' hgrow) ?_
    (fun _ _ _ _ _ _ _ _ w' hw' hgrow _ => hsame w' hw' hgrow) ?_
  · intro pending hpending
    refine wp_mono (fun r _ _ => ?_)
      (backed_resolve honest ha.toSeated (ha.blocked pending hpending).2 w)
    cases r <;> exact trivial
  · intro _ _ _ history doc t _ _ ht _ _ hreplay _ w' hw' _ hgrow
    rw [ha.stream, ha.config] at hreplay
    exact (sourced_of_replay sem ht.delta hreplay).mono (UInt64.le_refl _) hgrow hw'

theorem visible_handle (honest : policy.Honest) (command : Command) :
    wp ((keptEnvironment policy).serve task)
      ((keptEnvironment policy).contract (Backed S config roomId)) (a.handle command)
      (fun r t => ∀ w', DeltaKept roomId config.frameLimits w' → w.disk.Grows w'.disk →
        t.disk.Grows w'.disk →
          Sourced S config.frameLimits roomId r.1.activeDeltaGeneration w'.disk r.1.doc
            r.1.history ∧
          ∀ output ∈ r.2,
            output.Shows (mayShow S config roomId command r.1.activeDeltaGeneration w'.disk)) w := by
  have hsame : ∀ w', DeltaKept roomId config.frameLimits w' → w.disk.Grows w'.disk →
      Sourced S config.frameLimits roomId a.activeDeltaGeneration w'.disk a.doc a.history :=
    fun w' hw' hgrow => hsourced.mono (UInt64.le_refl _) hgrow hw'
  have hrespond : ∀ {ok : Bytes → Prop} {value : Bool},
      ∀ output ∈ [Output.respond value], output.Shows ok := by
    intro ok value output hmem
    obtain rfl := List.mem_singleton.mp hmem
    trivial
  refine RoomActor.wp_handle ?_ ?_ ?_ ?_ ?_ ?_ ?_
  · intro _ w' hw' hgrow _
    refine ⟨hsame w' hw' hgrow, fun output hmem => ?_⟩
    obtain rfl := List.mem_singleton.mp hmem
    trivial
  · intro _
    refine wp_mono ?_ (visible_retry sem ha hsourced honest)
    exact fun r t h w' hw' hgrow hafter => ⟨h w' hw' hgrow hafter, hrespond⟩
  · intro _
    refine wp_mono ?_ (visible_rotate ha hsourced)
    exact fun r t h w' hw' hgrow hafter => ⟨h w' hw' hgrow hafter, hrespond⟩
  · exact fun _ w' hw' hgrow _ => ⟨hsame w' hw' hgrow, shows_rejectUnavailable command⟩
  · rintro connectionId version peer rfl _ w' hw' hgrow _
    have hafter := hsame w' hw' hgrow
    obtain ⟨peers, ids, hjoin⟩ := a.join_fst connectionId version peer
    have happlied : S.applied a.doc ⊆ _ := Loro.Semantics.applied_subset_known.trans hafter.doc
    refine ⟨by rw [hjoin]; exact hafter, fun output hmem => ?_⟩
    rw [hjoin]
    exact (shows_join sem output hmem).mono fun update hupdate => hupdate.trans happlied
  · rintro connectionId batchId updates peer rfl _
    refine RoomActor.wp_update (fun _ _ w' hw' hgrow _ => ⟨hsame w' hw' hgrow, shows_sendAck⟩)
      fun admission hadmitted => ?_
    refine wp_mono ?_ (backed_resolve honest ha.toSeated hadmitted.prepares w)
    intro r t hresolved w' hw' hgrow hafter
    have hkept := hsame w' hw' hgrow
    match r with
    | .error (.definitelyRejected kind message) => exact ⟨hkept, shows_sendAck⟩
    | .error (.outcomeUnknown error) =>
      exact ⟨hkept, List.forall_mem_append.mpr ⟨shows_sendAck, shows_sendRoomError⟩⟩
    | .ok proof =>
      have hcommitted := (hresolved proof rfl).mono hafter hw'.toDeltaInvariant
      have hnew : ∀ blob ∈ updates, FromFrame config.frameLimits roomId a.activeDeltaGeneration
          w'.disk blob := by
        intro blob hmem
        refine ⟨_, _, UInt64.le_refl _, hcommitted, ?_⟩
        rw [hadmitted.frame]
        exact hmem
      refine ⟨⟨?_, ?_⟩, List.forall_mem_append.mpr ⟨shows_sendUpdates ?_, shows_sendAck⟩⟩
      · change ∀ blob ∈ admission.candidateHistory, _
        rw [hadmitted.history]
        exact List.forall_mem_append.mpr ⟨hkept.history, hnew⟩
      · change S.known admission.candidate ⊆ _
        rw [buildCandidate_known sem hadmitted.candidate]
        refine Set.union_subset (Set.union_subset ?_ ?_) (ops_subset_frameOps hnew)
        · exact Loro.Semantics.applied_subset_known.trans hkept.doc
        · exact ops_subset_frameOps hkept.history
      · intro send hmem
        obtain ⟨entry, _, hsend⟩ := List.mem_flatMap.mp hmem
        obtain ⟨update, hupdate, rfl⟩ := List.mem_map.mp hsend
        exact hnew update hupdate
  · exact fun _ _ _ w' hw' hgrow _ => ⟨hsame w' hw' hgrow, nofun⟩

end Programs

variable (S) (config : ActorConfig)

omit sem

/-- The invariant of what is visible. -/
def visibleInvariant (roomId : String) : Invariant (gateway Doc roomId config) World where
  idle w a _ := Backed S config roomId w ∧
    Sourced S config.frameLimits roomId a.activeDeltaGeneration w.disk a.doc a.history
  crash w _ := Backed S config roomId w

variable {S} {config} {policy : Policy Doc roomId config}

theorem backed_of_drift {up : Bool} (h : Backed S config roomId w)
    (hdrift : (keptEnvironment policy).drift up w w') : Backed S config roomId w' := by
  obtain ⟨⟨app, hmem, _, rfl⟩, _, hkept⟩ := hdrift
  exact ⟨hkept, h.backing.deliver hmem hkept.delta⟩

theorem backed_of_rely (h : Backed S config roomId w)
    (hrely : Relation.ReflTransGen ((keptEnvironment policy).drift true) w w') :
    Backed S config roomId w' := by
  induction hrely with
  | refl => exact h
  | tail _ hlast ih => exact backed_of_drift ih hlast

include sem

theorem visibleInvariant_preserved (honest : policy.Honest) :
    (visibleInvariant S config roomId).Preserved (keptEnvironment policy) where
  crash_of_idle h := h.1
  boot := by
    rintro w events boot _ hbacked
    refine wp_mono ?_ (wp_inv hbacked (visible_boot sem boot w))
    rintro a t ⟨hpost, hbacked'⟩ w' hrely
    have hafter := backed_of_rely hbacked' hrely
    exact ⟨hafter, hpost w' hafter.delta ((environment_progresses policy).rely hrely).disk⟩
  handle := by
    rintro w a events command ⟨_, ha⟩ ⟨hbacked, hsourced⟩
    refine wp_mono ?_ (wp_inv hbacked (wp_extends (visible_handle sem ha hsourced honest command)))
    rintro r t ⟨⟨hpost, hle⟩, hbacked'⟩ w' hrely
    have hafter := backed_of_rely hbacked' hrely
    have hgrow := ((environment_progresses policy).rely hrely).disk
    exact ⟨hafter, (hpost w' hafter.delta (hle.disk.trans hgrow) hgrow).1⟩
  crash := by
    rintro w w' events hbacked ⟨rfl, _, hkept⟩
    exact ⟨hkept, hbacked.backing.crashed⟩
  drift_idle := by
    rintro w w' a events ⟨hbacked, hsourced⟩ hdrift
    have hbacked' := backed_of_drift hbacked hdrift
    have hle := (environment_progresses policy).drift hdrift.1
    exact ⟨hbacked', hsourced.mono (UInt64.le_refl _) hle.disk hbacked'.delta⟩
  drift_crash h hdrift := backed_of_drift h hdrift

/-- What an idle actor holds, and what any of its commands has shown, comes from
frames that were in the delta streams at that moment. -/
theorem nothing_uncommitted_visible (honest : policy.Honest)
    {g : System (gateway Doc roomId config) World} (hreach : RoomReachable policy g) :
    (∀ a : RoomActor Doc, g.phase = .idle a →
      (∀ blob ∈ a.history,
        FromFrame config.frameLimits roomId a.activeDeltaGeneration g.world.disk blob) ∧
      S.known a.doc ⊆ frameOps S config.frameLimits roomId a.activeDeltaGeneration g.world.disk) ∧
    ∀ (command : Command) (before : World) (a : RoomActor Doc) (outputs : List Output)
      (after : World) (a' : RoomActor Doc), .handled command before a outputs after a' ∈ g.events →
      ∀ output ∈ outputs,
        output.Shows (mayShow S config roomId command a'.activeDeltaGeneration after.disk) := by
  have hinit : ∀ w, w = World.empty → (visibleInvariant S config roomId).crash w [] := by
    rintro w rfl
    exact ⟨kept_empty, .empty⟩
  have hpreserved : (visibleInvariant S config roomId).Preserved (keptEnvironment policy) :=
    visibleInvariant_preserved sem honest
  refine ⟨?_, ?_⟩
  · intro a hidle
    obtain ⟨w, phase, events⟩ := g
    obtain rfl : phase = .idle a := hidle
    have hsourced := (Reachable.idle_invariant hpreserved hinit hreach.inKept).2
    exact ⟨hsourced.history, hsourced.doc⟩
  · intro command before a outputs after a' hmem output houtput
    obtain ⟨⟨events, hbefore, ha⟩, t, hrun, hrely⟩ := hreach.inKept.traced.handled hmem
    obtain ⟨hbacked, hsourced⟩ := Reachable.idle_invariant hpreserved hinit hbefore
    obtain ⟨hbacked', hpost, hle⟩ := hrun.sound
      (c := (keptEnvironment policy).contract (Backed S config roomId))
      (fun _ _ h hrely => backed_of_rely h hrely) hbacked
      (wp_extends (visible_handle sem ha.2 hsourced honest command))
    have hgrow := ((environment_progresses policy).rely hrely).disk
    have hafter := backed_of_rely hbacked' hrely
    exact (hpost after hafter.delta (hle.disk.trans hgrow) hgrow).2 output houtput

end

open Sample

/-- An update whose first answer is lost reaches another peer. -/
theorem nothing_uncommitted_visible_retried :
    ∃ (w : World) (a : RoomActor OpDoc), a.history = [[1, 0]] ∧
      FromFrame ActorConfig.default.frameLimits "r" a.activeDeltaGeneration w.disk [1, 0] ∧
      OpDoc.observers.known a.doc ⊆
        frameOps OpDoc.observers ActorConfig.default.frameLimits "r" a.activeDeltaGeneration w.disk := by
  have hrun : ((lateDirection .default).director.run
      [.boot (sampleBoot 1) (answeredAll 4), .command (.join 1 [] 7) [],
        .command (.join 2 [] 8) [],
        .command (.update 1 (sampleBatch 1) [[1, 0]] 7) [.lost "timeout", .answered, .answered]]
      ⟨World.empty, .down, []⟩).any (whenIdle fun _ a _ =>
        decide (a.history = [[1, 0]])) = true := by
    decide +kernel
  obtain ⟨w, a, events, hreach, hend⟩ := Direction.exists_idle_of_run hrun
  have hhistory : a.history = [[1, 0]] := of_decide_eq_true hend
  obtain ⟨hblobs, hknown⟩ :=
    (nothing_uncommitted_visible OpDoc.semantics Policy.late_honest hreach).1 a rfl
  exact ⟨w, a, hhistory, hblobs _ (hhistory ▸ List.mem_singleton_self _), hknown⟩

end LoroGateway
