import LoroGateway.Lasting

/-!
# Delta streams are exactly-once logs

Each acknowledgement of success belongs to a frame: the one that the actor made
of the batch, in the generation of that moment.  The module shows that these
frames are in the logs and that no frame is acknowledged twice.  The second part
rests on the producer: within one producer id the sequences of acknowledged
frames lie below the next one of the actor, and an actor gets a producer id that
no acknowledged frame carries.
-/

namespace LoroGateway

open ByteCodec CrashLogic CrashLogic.Server

/-- The batch that an output acknowledges. -/
def Output.acked : Output → Option BatchId
  | .send _ (.ack _ refId .ok) => some refId
  | _ => none

/-- The batches that some outputs acknowledge. -/
def ackedIn (outputs : List Output) : List BatchId := outputs.filterMap Output.acked

/-- The updates that a command brings. -/
def Command.updates : Command → List Bytes
  | .update _ _ updates _ => updates
  | _ => []

section AckedIn

variable {peer : PeerSender} {roomId : String} {batchId : BatchId} {update : Bytes}

theorem ackedIn_append (left right : List Output) :
    ackedIn (left ++ right) = ackedIn left ++ ackedIn right := List.filterMap_append

theorem ackedIn_sendAck_ne {status : UpdateStatusCode} (h : status ≠ .ok) :
    ackedIn (sendAck peer roomId batchId status) = [] := by
  cases status with
  | ok => exact absurd rfl h
  | _ => rfl

theorem ackedIn_sendUpdate (counter : UInt64) :
    ackedIn (sendUpdate peer roomId update counter) = [] := by
  rw [sendUpdate]
  split_ifs
  · rfl
  · refine List.filterMap_eq_nil_iff.mpr fun output hmem => ?_
    rcases List.mem_cons.mp hmem with rfl | hmem
    · rfl
    · obtain ⟨index, _, rfl⟩ := List.mem_mapIdx.mp hmem
      rfl

theorem ackedIn_sendUpdates (sends : List (PeerSender × Bytes)) (ids : Stream' UInt64) :
    ackedIn (sendUpdates roomId sends ids).1 = [] := by
  induction sends generalizing ids with
  | nil => rfl
  | cons first rest ih =>
    rw [sendUpdates, ackedIn_append, ackedIn_sendUpdate, ih]
    rfl

variable {Doc : Type} [Loro Doc] {a : RoomActor Doc} {connectionId : UInt64} {version : Bytes}

theorem ackedIn_join : ackedIn (a.join connectionId version peer).2 = [] := by
  rw [RoomActor.join]
  split_ifs
  · rfl
  · split
    · rfl
    · dsimp only
      split_ifs
      · rfl
      · split
        · exact ackedIn_sendUpdate _
        · rfl

variable {batchId : BatchId} {updates : List Bytes} {admission : RoomActor.Admission Doc}

omit [Loro Doc] in
/-- A committed update is acknowledged. -/
theorem ackedIn_finishUpdate_ok (proof : DurableAppend) :
    ackedIn (a.finishUpdate connectionId batchId updates peer admission (.ok proof)).2 = [batchId] := by
  change ackedIn ((sendUpdates _ _ _).1 ++ _) = _
  rw [ackedIn_append, ackedIn_sendUpdates]
  rfl

omit [Loro Doc] in
theorem ackedIn_finishUpdate_error (failure : AppendFailure) :
    ackedIn (a.finishUpdate connectionId batchId updates peer admission (.error failure)).2 = [] := by
  cases failure with
  | definitelyRejected kind message =>
    exact ackedIn_sendAck_ne (RoomActor.rejectionStatus_ne kind).1
  | outcomeUnknown error => rfl

omit [Loro Doc] in
theorem ackedIn_rejectUnavailable (command : Command) : ackedIn (a.rejectUnavailable command) = [] := by
  cases command <;> rfl

end AckedIn

section

variable [Hashing] {Doc : Type} [Loro Doc] {roomId : String} {config : ActorConfig}

/-- The acknowledged batches of a run with their updates, the newest first. -/
def acks (events : List (Event (gateway Doc roomId config) World)) : List (BatchId × List Bytes) :=
  events.flatMap fun
    | .handled command _ _ outputs _ _ =>
      (ackedIn outputs).map fun refId => (refId, command.updates)
    | _ => []

/-- The frames that the acknowledged batches were made into, with the generation
of the actor that made them. -/
def ackedFrames (events : List (Event (gateway Doc roomId config) World)) :
    List (GenerationId × DeltaFrame) :=
  events.flatMap fun
    | .handled command _ (a : RoomActor Doc) outputs _ _ =>
      (ackedIn outputs).map fun refId => (a.activeDeltaGeneration,
        DeltaFrame.new ⟨a.producerId, 0, a.producerSequence⟩ refId command.updates)
    | _ => []

variable {events : List (Event (gateway Doc roomId config) World)} {w w' : World}

/-- The two lists belong together. -/
theorem acks_forall₂_ackedFrames (events : List (Event (gateway Doc roomId config) World)) :
    List.Forall₂ (fun ack entry => entry.2.batchId = ack.1 ∧ entry.2.updates = ack.2) (acks events)
      (ackedFrames events) := by
  induction events with
  | nil => exact .nil
  | cons event events ih =>
    rw [acks, ackedFrames, List.flatMap_cons, List.flatMap_cons]
    refine List.rel_append ?_ ih
    cases event with
    | handled command before a outputs after a' =>
      rw [List.forall₂_map_left_iff, List.forall₂_map_right_iff, List.forall₂_same]
      exact fun refId _ => ⟨rfl, rfl⟩
    | booted b after a => exact .nil
    | crashed => exact .nil

/-- The frames of a log differ: the producer counts them. -/
theorem DeltaLog.nodup {P : DeltaFrame → Prop} {limits : FrameLimits} {stream : String} {d : Disk}
    {frames : List DeltaFrame} (h : DeltaLog P limits stream d frames) : frames.Nodup := by
  apply List.nodup_iff_count_le_one.2
  intro frame
  have hsequences := h.sequences frame.producer.id
  have hnodup : (framesOf frame.producer.id frames).Nodup := by
    apply List.Nodup.of_map fun f : DeltaFrame => f.producer.sequence.toNat
    rw [hsequences]
    exact List.nodup_range
  have hcount : (framesOf frame.producer.id frames).count frame = frames.count frame :=
    List.count_filter (by simp)
  rw [← hcount]
  exact List.nodup_iff_count_le_one.1 hnodup frame

/-- What is known of the acknowledged frames at every moment. -/
structure Acked (w : World) (events : List (Event (gateway Doc roomId config) World)) : Prop where
  nodup : (ackedFrames events).Nodup
  committed : ∀ entry ∈ ackedFrames events,
    Committed (NamedFrame roomId) config.frameLimits roomId entry.1 entry.2 w.disk

/-- The next frame of the actor is not among the acknowledged ones. -/
def Ahead (events : List (Event (gateway Doc roomId config) World)) (a : RoomActor Doc) : Prop :=
  ∀ entry ∈ ackedFrames events, entry.2.producer.id = a.producerId →
    entry.2.producer.sequence.toNat < a.producerSequence.toNat

theorem lasting_acked (events : List (Event (gateway Doc roomId config) World)) :
    Lasting (Kept Doc roomId config) World.Extends fun w => Acked w events := by
  intro w w' hkept hkept' hle h
  refine ⟨h.nodup, fun entry hmem => ?_⟩
  exact lasting_committed w w' hkept hkept' hle (h.committed entry hmem)

theorem ackedFrames_silent {command : Command} {a a' : RoomActor Doc} {outputs : List Output}
    (h : ackedIn outputs = []) :
    ackedFrames (.handled command w a outputs w' a' :: events) = ackedFrames events := by
  rw [ackedFrames, List.flatMap_cons]
  dsimp only
  rw [h]
  rfl

theorem Acked.silent (h : Acked w events) {command : Command} {before after : World}
    {a a' : RoomActor Doc} {outputs : List Output} (hsilent : ackedIn outputs = [])
    (hahead : Ahead events a') :
    Acked w (.handled command before a outputs after a' :: events) ∧
      Ahead (.handled command before a outputs after a' :: events) a' := by
  have hsame : ackedFrames (.handled command before a outputs after a' :: events) =
      ackedFrames events := ackedFrames_silent hsilent
  refine ⟨⟨?_, ?_⟩, ?_⟩
  · exact hsame ▸ h.nodup
  · exact hsame ▸ h.committed
  · unfold Ahead
    exact hsame ▸ hahead

/-- A new acknowledgement: its frame is committed and the next one of its
producer. -/
theorem Acked.acknowledge (h : Acked w events) {before after : World} {a a' : RoomActor Doc}
    (hahead : Ahead events a) {connectionId : UInt64} {batchId : BatchId} {updates : List Bytes}
    {peer : PeerSender} {outputs : List Output} (hacked : ackedIn outputs = [batchId])
    {frame : DeltaFrame}
    (hframe : frame = DeltaFrame.new ⟨a.producerId, 0, a.producerSequence⟩ batchId updates)
    (hcommitted : Committed (NamedFrame roomId) config.frameLimits roomId a.activeDeltaGeneration
      frame w.disk)
    (hproducer : a'.producerId = a.producerId)
    (hnext : a'.producerSequence.toNat = a.producerSequence.toNat + 1) :
    Acked w (.handled (.update connectionId batchId updates peer) before a outputs after a' ::
      events) ∧
    Ahead (.handled (.update connectionId batchId updates peer) before a outputs after a' :: events)
      a' := by
  have hcons : ackedFrames (.handled (.update connectionId batchId updates peer) before a outputs
      after a' :: events) = (a.activeDeltaGeneration, frame) :: ackedFrames events := by
    rw [ackedFrames, List.flatMap_cons]
    dsimp only
    rw [hacked, hframe]
    rfl
  have hid : frame.producer.id = a.producerId := by
    rw [hframe]
    rfl
  have hsequence : frame.producer.sequence = a.producerSequence := by
    rw [hframe]
    rfl
  refine ⟨⟨?_, ?_⟩, ?_⟩
  · rw [hcons]
    refine List.nodup_cons.mpr ⟨fun hmem => ?_, h.nodup⟩
    have hlt := hahead _ hmem hid
    rw [hsequence] at hlt
    exact Nat.lt_irrefl _ hlt
  · rw [hcons]
    exact List.forall_mem_cons.mpr ⟨hcommitted, h.committed⟩
  · unfold Ahead
    rw [hcons, hproducer, hnext]
    refine List.forall_mem_cons.mpr ⟨fun _ => ?_, fun entry hmem hentry => ?_⟩
    · rw [hsequence]
      exact Nat.lt_succ_self _
    · exact (hahead entry hmem hentry).trans (Nat.lt_succ_self _)

section Programs

variable {policy : Policy Doc roomId config} {task : Task (gateway Doc roomId config)}

/-- A fresh boot gives the actor a producer that nothing carries. -/
theorem acked_boot {boot : Boot} (hkept : Kept Doc roomId config w)
    (hfresh : FreshBoot roomId w boot) (h : Acked w events) :
    wp ((keptEnvironment policy).serve task)
      ((keptEnvironment policy).contract (Kept Doc roomId config))
      (RoomActor.activate roomId config boot)
      (fun (a : RoomActor Doc) t => ∀ w', Kept Doc roomId config w' → w.Extends w' → t.Extends w' →
        Acked w' (.booted boot w' a :: events) ∧ Ahead (.booted boot w' a :: events) a) w := by
  have hc := kept_grounded policy (RoomActor.Placed roomId config) task (Kept Doc roomId config)
  have hahead : ∀ (a : RoomActor Doc) generation,
      a.producerId = producerIdForGeneration boot.bootId roomId generation → Ahead events a := by
    intro a generation hproducer entry hmem hid
    obtain ⟨frames, hlog, hframe⟩ := h.committed entry hmem
    exact absurd (hid.trans hproducer) (hkept.framesOf_fresh hfresh hlog generation _ hframe)
  have hpost : ∀ (a : RoomActor Doc) generation w',
      a.producerId = producerIdForGeneration boot.bootId roomId generation →
      Kept Doc roomId config w' →
      w.Extends w' →
      Acked w' (.booted boot w' a :: events) ∧ Ahead (.booted boot w' a :: events) a := by
    intro a generation w' hproducer hkept' hle
    have hacked := lasting_acked events w w' hkept hkept' hle h
    exact ⟨⟨hacked.nodup, hacked.committed⟩, hahead a generation hproducer⟩
  refine RoomActor.wp_activate hc (growthStable_true.stable hc.grows) (fun _ h => h.stored) trivial
    (fun stream => lasting_keeps growthStable_true.lasting _) ?_ ?_ ?_
  · exact fun _ _ _ _ _ _ w' hkept' hle _ => hpost _ .zero w' rfl hkept' hle
  · exact fun _ _ _ recovery _ _ _ _ w' hkept' hle _ =>
      hpost _ recovery.activeDeltaGeneration w' rfl hkept' hle
  · exact fun _ _ _ _ _ _ _ _ _ _ _ w' hkept' hle _ => hpost _ .zero w' rfl hkept' hle

variable {a : RoomActor Doc} (hkept : Kept Doc roomId config w) (ha : a.Placed roomId config w)
  (hacked : Acked w events) (hahead : Ahead events a)

include hkept ha hacked hahead

omit hkept in
/-- The producer of the next generation is one that no acknowledged frame carries:
such a frame would be in a stream that was found empty. -/
theorem acked_rotate
    (hinj : Set.InjOn Hashing.sha256
      {input | ∃ bootId generation, input = producerInput bootId roomId generation}) :
    wp ((keptEnvironment policy).serve task)
      ((keptEnvironment policy).contract (Kept Doc roomId config))
      a.rotateGeneration (fun r _ => Ahead events r.1) w := by
  have hc := kept_grounded policy (RoomActor.Placed roomId config) task (Kept Doc roomId config)
  have hsince := growthStable_after w.disk
  refine RoomActor.wp_rotateGeneration (fun _ => hahead) fun _ _ => ?_
  rw [ha.room]
  refine wp_rotateRoom hc (hsince.stable hc.grows) (Disk.Grows.refl _) (fun w h => ?_)
    (fun stream => lasting_keeps hsince.lasting _)
    (fun record bytes _ _ => lasting_keeps hsince.lasting _)
    (fun result _ => lasting_keeps
      ((hsince.and (Prepared.stable result)).and (CheckedAgainst.stable _ _)).lasting _)
    (fun _ _ _ => hahead) ?_
  · obtain ⟨records, hrecords⟩ := h.stored
    exact ⟨records, hrecords.manifest.log⟩
  · intro result w' _ hrotated entry hmem hid
    obtain ⟨frames, hlog, hframe⟩ := hacked.committed entry hmem
    obtain ⟨boot, hnamed⟩ := (hlog.submitted entry.2 hframe).named
    have hnext : (a.withRotation result).producerId =
        producerIdForGeneration a.bootId roomId result.nextDeltaGeneration := by
      rw [← ha.room]
      rfl
    have hgeneration : entry.1 = result.nextDeltaGeneration :=
      producerId_generation hinj (hnamed.symm.trans (hid.trans hnext))
    obtain ⟨w₁, ⟨hgrow, hkept₁⟩, hempty⟩ := hrotated.nextEmpty
    obtain ⟨frames₁, hlog₁⟩ := hkept₁.delta.logs entry.1
    have hmem₁ := (hlog.isPrefix hlog₁ hgrow).subset hframe
    have hpos := (hlog₁.valid _ hmem₁).length_pos
    rw [hrotated.stream, ← hgeneration, hlog₁.content] at hempty
    have hnil := List.flatMap_eq_nil_iff.mp hempty _ hmem₁
    rw [hnil] at hpos
    exact absurd hpos (Nat.lt_irrefl 0)

omit hkept hacked in
theorem acked_retry (honest : policy.Honest) :
    wp ((keptEnvironment policy).serve task)
      ((keptEnvironment policy).contract (Kept Doc roomId config))
      a.retryPending (fun r _ => Ahead events r.1) w := by
  have hc := kept_grounded policy (RoomActor.Placed roomId config) task (Kept Doc roomId config)
  refine RoomActor.wp_retryPending hc (fun _ => True) (fun _ => True)
    (growthStable_true.stable hc.grows) (fun _ => hahead) ?_ ?_ ?_
  · intro pending hpending
    refine wp_mono ?_ (honest_resolve honest ha.toSeated (ha.blocked pending hpending).2
      (fun _ h => h) (lasting_keeps growthStable_true.lasting _) w)
    intro r t _
    cases r <;> exact trivial
  · exact fun _ _ _ _ _ _ _ _ => hahead
  · intro pending _ next _ _ _ hpending _ _ _ _ _ hnext entry hmem hid
    change entry.2.producer.sequence.toNat < next.toNat
    rw [hnext, (ha.blocked pending hpending).2.producer]
    exact (hahead entry hmem hid).trans (Nat.lt_succ_self _)

theorem acked_handle (honest : policy.Honest)
    (hinj : Set.InjOn Hashing.sha256
      {input | ∃ bootId generation, input = producerInput bootId roomId generation})
    (command : Command) :
    wp ((keptEnvironment policy).serve task)
      ((keptEnvironment policy).contract (Kept Doc roomId config)) (a.handle command)
      (fun r t => ∀ w', Kept Doc roomId config w' → w.Extends w' → t.Extends w' →
        Acked w' (.handled command w a r.2 w' r.1 :: events) ∧
          Ahead (.handled command w a r.2 w' r.1 :: events) r.1) w := by
  have hlast : ∀ w', Kept Doc roomId config w' → w.Extends w' → Acked w' events :=
    fun w' hkept' hle => lasting_acked events w w' hkept hkept' hle hacked
  refine RoomActor.wp_handle ?_ ?_ ?_ ?_ ?_ ?_ ?_
  · exact fun _ w' hkept' hle _ => (hlast w' hkept' hle).silent rfl hahead
  · intro _
    refine wp_mono ?_ (acked_retry ha hahead honest)
    exact fun r t hahead' w' hkept' hle _ => (hlast w' hkept' hle).silent rfl hahead'
  · intro _
    refine wp_mono ?_ (acked_rotate ha hacked hahead hinj)
    exact fun r t hahead' w' hkept' hle _ => (hlast w' hkept' hle).silent rfl hahead'
  · exact fun _ w' hkept' hle _ =>
      (hlast w' hkept' hle).silent (ackedIn_rejectUnavailable command) hahead
  · intro connectionId version peer _ _ w' hkept' hle _
    refine (hlast w' hkept' hle).silent ackedIn_join ?_
    obtain ⟨peers, ids, hjoin⟩ := a.join_fst connectionId version peer
    rw [hjoin]
    exact hahead
  · rintro connectionId batchId updates peer rfl _
    refine RoomActor.wp_update (fun status hstatus w' hkept' hle _ => ?_) fun admission hadmitted => ?_
    · exact (hlast w' hkept' hle).silent
        (ackedIn_sendAck_ne (RoomActor.admitUpdate_error_ne hstatus).1) hahead
    · refine wp_mono ?_ (honest_resolve honest ha.toSeated hadmitted.prepares
        (fun _ h => h) (lasting_keeps growthStable_true.lasting _) w)
      intro r t hresolved w' hkept' hle hafter
      match r with
      | .ok proof =>
        exact (hlast w' hkept' hle).acknowledge hahead (ackedIn_finishUpdate_ok proof) hadmitted.frame
          ((hresolved proof rfl).mono hafter.disk hkept'.delta.toDeltaInvariant) rfl hadmitted.next
      | .error failure =>
        refine (hlast w' hkept' hle).silent (ackedIn_finishUpdate_error failure) ?_
        cases failure <;> exact hahead
  · exact fun _ _ _ w' hkept' hle _ => (hlast w' hkept' hle).silent rfl hahead

end Programs

variable {policy : Policy Doc roomId config}

/-- The invariant of the acknowledgements. -/
def ackInvariant (Doc : Type) [Loro Doc] (roomId : String) (config : ActorConfig) :
    Invariant (gateway Doc roomId config) World :=
  .over (Kept Doc roomId config) (fun w a events => Acked w events ∧ Ahead events a) Acked

theorem ackInvariant_preserved (honest : policy.Honest)
    (hinj : Set.InjOn Hashing.sha256
      {input | ∃ bootId generation, input = producerInput bootId roomId generation}) :
    (ackInvariant Doc roomId config).Preserved (keptEnvironment policy) :=
  Invariant.over_preserved (environment_progresses policy)
    (fun _ events w w' hkept hkept' hle h =>
      ⟨lasting_acked events w w' hkept hkept' hle h.1, h.2⟩)
    lasting_acked (fun _ h => h.1) (fun _ h => ⟨h.nodup, h.committed⟩)
    (fun hfresh hkept h => acked_boot hkept hfresh h)
    (fun _ ha hkept h => acked_handle hkept ha h.1 h.2 honest hinj _)

/-- In every state the acknowledged frames are in their streams. -/
theorem RoomReachable.acked (honest : policy.Honest)
    (hinj : Set.InjOn Hashing.sha256
      {input | ∃ bootId generation, input = producerInput bootId roomId generation})
    {g : System (gateway Doc roomId config) World} (h : RoomReachable policy g) :
    Acked g.world g.events := by
  have hempty : ∀ w : World, w = World.empty →
      (ackInvariant Doc roomId config).crash w [] := by
    rintro w rfl
    exact ⟨kept_empty, .nil, by simp [ackedFrames]⟩
  exact (Reachable.crash_invariant (ackInvariant_preserved honest hinj) hempty h.inKept).2

/-- The acknowledged frames are those of the logs of their generations. -/
theorem Acked.mem_logs (h : Acked w events) {logs : GenerationId → List DeltaFrame}
    (hlogs : ∀ generation, DeltaLog (NamedFrame roomId generation) config.frameLimits
      (deltaStreamForGeneration roomId generation).physical w.disk (logs generation)) :
    ∀ entry ∈ ackedFrames events, entry.2 ∈ logs entry.1 := by
  intro entry hmem
  obtain ⟨frames, hlog, hframe⟩ := h.committed entry hmem
  exact hlog.unique (hlogs entry.1) ▸ hframe

/-- Every delta stream is a list of frames in which each producer counts from zero,
each producer keeps to one generation, and the acknowledgements of success stand
for different frames of the streams. -/
theorem delta_streams_exactly_once (honest : policy.Honest)
    (hinj : Set.InjOn Hashing.sha256
      {input | ∃ bootId generation, input = producerInput bootId roomId generation})
    {g : System (gateway Doc roomId config) World} (hreach : RoomReachable policy g) :
    ∃ logs : GenerationId → List DeltaFrame,
      (∀ generation,
        g.world.disk.read (deltaStreamForGeneration roomId generation).physical =
          logBytes config.frameLimits (logs generation) ∧
        (∀ frame ∈ logs generation, frame.Valid config.frameLimits) ∧
        ∀ id, (framesOf id (logs generation)).map (fun frame => frame.producer.sequence.toNat) =
          List.range (framesOf id (logs generation)).length) ∧
      (∀ generation generation' frame frame', frame ∈ logs generation →
        frame' ∈ logs generation' → frame.producer.id = frame'.producer.id →
          generation = generation') ∧
      ∃ frames : List DeltaFrame, frames.Nodup ∧
        List.Forall₂ (fun ack frame => frame.batchId = ack.1 ∧ frame.updates = ack.2 ∧
          ∃ generation, frame ∈ logs generation) (acks g.events) frames := by
  choose logs hlogs using hreach.kept.delta.logs
  have hdistinct : ∀ generation generation' frame frame', frame ∈ logs generation →
      frame' ∈ logs generation' → frame.producer.id = frame'.producer.id →
        generation = generation' := by
    intro generation generation' frame frame' hmem hmem' hid
    obtain ⟨boot, hnamed⟩ := ((hlogs generation).submitted frame hmem).named
    obtain ⟨boot', hnamed'⟩ := ((hlogs generation').submitted frame' hmem').named
    exact producerId_generation hinj (hnamed.symm.trans (hid.trans hnamed'))
  have hacked := hreach.acked honest hinj
  have hmem := hacked.mem_logs hlogs
  refine ⟨logs, fun generation => ⟨(hlogs generation).content, (hlogs generation).valid,
    (hlogs generation).sequences⟩, hdistinct, (ackedFrames g.events).map Prod.snd, ?_, ?_⟩
  · refine List.Nodup.map_on (fun entry hentry entry' hentry' heq => ?_) hacked.nodup
    refine Prod.ext (hdistinct _ _ _ _ (hmem entry hentry) (hmem entry' hentry') ?_) heq
    rw [heq]
  · have hboth := (List.forall₂_and_left _ _).mpr ⟨hmem, (acks_forall₂_ackedFrames g.events).flip⟩
    refine List.forall₂_map_right_iff.mpr (hboth.flip.imp ?_)
    exact fun ack entry h => ⟨h.2.1, h.2.2, entry.1, h.1⟩

end

open Sample

/-- The first answer of an update is lost, the room rotates, and another update
follows. -/
theorem delta_streams_exactly_once_rotated :
    ∃ g : System (gateway OpDoc "r" .default) World,
      RoomReachable (lateDirection .default).policy g ∧ (acks g.events).length = 2 ∧
      ∃ frames : List DeltaFrame, frames.Nodup ∧
        List.Forall₂ (fun ack frame => frame.batchId = ack.1 ∧ frame.updates = ack.2 ∧
          ∃ generation, frame.encoded .default <:+:
            g.world.disk.read (deltaStreamForGeneration "r" generation).physical)
          (acks g.events) frames := by
  have hrun : ((lateDirection .default).director.run
      [.boot (sampleBoot 1) (answeredAll 4), .command (.join 1 [] 7) [],
        .command (.update 1 (sampleBatch 1) [[1, 0]] 7) [.lost "timeout", .answered, .answered],
        .command .rotate (answeredAll 10),
        .command (.update 1 (sampleBatch 2) [[1, 1]] 7) (answeredAll 1)]
      ⟨World.empty, .down, []⟩).any (fun g => decide ((acks g.events).length = 2)) = true := by
    decide +kernel
  obtain ⟨g, hreach, hacks⟩ := Direction.exists_of_run hrun
  obtain ⟨logs, hlogs, _, frames, hnodup, hframes⟩ :=
    delta_streams_exactly_once Policy.late_honest injOn_producerInput hreach
  refine ⟨g, hreach, of_decide_eq_true hacks, frames, hnodup, hframes.imp ?_⟩
  rintro ack frame ⟨hbatch, hupdates, generation, hmem⟩
  refine ⟨hbatch, hupdates, generation, ?_⟩
  obtain ⟨front, rest, hsplit⟩ := List.append_of_mem hmem
  rw [(hlogs generation).1, hsplit, logBytes_append, logBytes_cons]
  exact ⟨_, _, List.append_assoc _ _ _⟩

end LoroGateway
