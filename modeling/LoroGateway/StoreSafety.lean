import LoroGateway.Scripted
import LoroGateway.Seated

/-!
# The store of a room in every run

Whatever the surroundings do, the store of a room satisfies its invariant at
every moment, and an idle actor is seated.  So the manifest never names what is
not there.
-/

namespace LoroGateway

open ByteCodec CrashLogic CrashLogic.Server

section

variable [Hashing] {Doc : Type} [Loro Doc] {roomId : String} {config : ActorConfig}

/-- What every run keeps of the store. -/
def Stored (Doc : Type) [Loro Doc] (roomId : String) (w : World) : Prop :=
  ∃ records, StoreInvariant Doc roomId w records

theorem Stored.serve {w w' : World} {req : Request} {x : Answer req} (h : Stored Doc roomId w)
    (hpermitted : Permitted Doc roomId w req) (hserve : served w req x w') :
    Stored Doc roomId w' := by
  obtain ⟨records, h⟩ := h
  exact h.serve hpermitted hserve

/-- The invariant of the store, with a seated actor that satisfies `Q`. -/
def storeInvariant (Doc : Type) [Loro Doc] (roomId : String) (config : ActorConfig)
    (Q : RoomActor Doc → Prop) : Invariant (gateway Doc roomId config) World where
  idle w a _ := Stored Doc roomId w ∧ a.Seated roomId config ∧ Q a
  crash w _ := Stored Doc roomId w

variable {policy : Policy Doc roomId config}

theorem stored_of_drift {up : Bool} {w w' : World} (h : Stored Doc roomId w)
    (hdrift : (environment policy).drift up w w') : Stored Doc roomId w' := by
  obtain ⟨records, h⟩ := h
  obtain ⟨app, hmem, _, rfl⟩ := hdrift
  exact h.deliver hmem

theorem stored_of_rely {w w' : World} (h : Stored Doc roomId w)
    (hrely : Relation.ReflTransGen ((environment policy).drift true) w w') :
    Stored Doc roomId w' := by
  induction hrely with
  | refl => exact h
  | tail _ hlast ih => exact stored_of_drift ih hlast

theorem stored_crashed {w : World} (h : Stored Doc roomId w) :
    Stored Doc roomId (crashedWorld w) := by
  obtain ⟨records, h⟩ := h
  exact ⟨records, h.transport rfl fun _ hmem => hmem⟩

section Programs

variable {task : Task (gateway Doc roomId config)}

/-- A permitted call keeps the store. -/
theorem stored_keeps {req : Request} {assertion : World → Prop} (hassertion : GrowthStable assertion)
    (hpermitted : ∀ w, assertion w → Permitted Doc roomId w req) :
    Keeps ((environment policy).serve task) ((environment policy).contract (Stored Doc roomId))
      assertion req := by
  have hc := environment_grounded policy task (Stored Doc roomId)
  refine Keeps.of_growthStable hc hassertion fun w x w' hw hstored hserve => ⟨?_, trivial⟩
  exact hstored.serve (hpermitted w hw) (hc.sub hserve)

variable {Q : RoomActor Doc → Prop} (hQ : RoomActor.ActorInvariant roomId config Q)

include hQ

theorem stored_boot (boot : Boot) (w : World) :
    wp ((environment policy).serve task) ((environment policy).contract (Stored Doc roomId))
      (RoomActor.activate roomId config boot)
      (fun (a : RoomActor Doc) _ => a.Seated roomId config ∧ Q a) w := by
  have hc := environment_grounded policy task (Stored Doc roomId)
  refine RoomActor.wp_activate hc (growthStable_true.stable hc.grows) (fun _ h => h) trivial
    (fun stream => stored_keeps growthStable_true fun _ _ => .ensureStream stream) ?_ ?_ ?_
  · intro endOffset lifecycle lastError _ _ hstate
    exact ⟨RoomActor.Seated.new boot _ _ _ _ _,
      hQ.failed (by rcases hstate with rfl | rfl <;> decide)⟩
  · intro records checkpoint frames recovery _ _ _ h
    exact ⟨RoomActor.Seated.recovered h, hQ.recovered h⟩
  · intro _ endOffset history doc _ _ _ _ _ _ hreplay
    exact ⟨RoomActor.Seated.new boot _ _ _ _ _, hQ.legacy hreplay⟩

variable {a : RoomActor Doc}

omit hQ in
theorem stored_resolve (ha : a.Seated roomId config) {pending : PendingAppend}
    (hpending : a.Prepares pending) (w : World) :
    wp ((environment policy).serve task) ((environment policy).contract (Stored Doc roomId))
      (resolveAppend a.config pending) (fun _ _ => True) w := by
  have hc := environment_grounded policy task (Stored Doc roomId)
  refine wp_resolveAppend hc (growthStable_true.stable hc.grows) trivial
    (stored_keeps growthStable_true fun _ _ => ?_) ?_ ?_ ?_ ?_
  · exact .delta (hpending.stream.trans ha.stream)
  · exact fun _ _ _ _ _ _ _ _ => trivial
  · exact fun _ _ _ _ _ _ _ _ _ _ _ => trivial
  · exact fun _ _ _ _ _ _ _ _ _ => trivial
  · exact fun _ _ _ _ => trivial

theorem stored_rotate (ha : a.Seated roomId config) (hqa : Q a) (w : World) :
    wp ((environment policy).serve task) ((environment policy).contract (Stored Doc roomId))
      a.rotateGeneration (fun r _ => r.1.Seated roomId config ∧ Q r.1) w := by
  have hc := environment_grounded policy task (Stored Doc roomId)
  refine RoomActor.wp_rotateGeneration (fun _ => ⟨ha, hqa⟩) fun hready hblocked => ?_
  rw [ha.room]
  refine wp_rotateRoom hc (growthStable_true.stable hc.grows) trivial ?_
    (fun stream => stored_keeps growthStable_true fun _ _ => .ensureStream stream) ?_ ?_ ?_ ?_
  · rintro w ⟨records, h⟩
    exact ⟨records, h.manifest.log⟩
  · intro record bytes hencode hbuilt
    exact stored_keeps growthStable_true fun _ _ => .checkpoint ⟨_, _, _, hbuilt⟩ hencode
  · rintro result hvalid w x w' ⟨⟨-, hprepared⟩, hchecked⟩ hstored hserve
    have hlinked := (hprepared.linked fun _ h => h.2).2
    have hgrow := served_grows (hc.sub hserve)
    exact ⟨⟨hstored.serve (.manifest hvalid hchecked hlinked) (hc.sub hserve), trivial⟩,
      ⟨trivial, Prepared.stable result _ _ hgrow hprepared⟩,
      CheckedAgainst.stable _ _ _ _ hgrow hchecked⟩
  · exact fun error _ _ => ⟨ha.stuck (by decide) _ _, hQ.stuck hqa (by decide)⟩
  · intro result w' _ hrotated
    exact ⟨ha.withRotation hblocked hrotated.stream, hQ.rotated hqa hready hblocked hrotated⟩

theorem stored_retry (ha : a.Seated roomId config) (hqa : Q a) (w : World) :
    wp ((environment policy).serve task) ((environment policy).contract (Stored Doc roomId))
      a.retryPending (fun r _ => r.1.Seated roomId config ∧ Q r.1) w := by
  have hc := environment_grounded policy task (Stored Doc roomId)
  refine RoomActor.wp_retryPending hc (fun _ => True) (fun _ => True)
    (growthStable_true.stable hc.grows) (fun _ => ⟨ha, hqa⟩) ?_ ?_ ?_
  · intro pending hpending
    refine wp_mono ?_ (stored_resolve ha (ha.blocked pending hpending).2 w)
    intro r t _
    cases r <;> exact trivial
  · intro pending endOffset lifecycle lastError _ _ _ hnot
    exact ⟨ha.stuck hnot endOffset lastError, hQ.stuck hqa hnot⟩
  · intro pending endOffset next history doc _ hpending _ _ _ _ hreplay hnext
    exact ⟨ha.reloaded endOffset next history doc, hQ.reloaded hqa hpending hnext hreplay⟩

theorem stored_handle (ha : a.Seated roomId config) (hqa : Q a) (command : Command) (w : World) :
    wp ((environment policy).serve task) ((environment policy).contract (Stored Doc roomId))
      (a.handle command) (fun r _ => r.1.Seated roomId config ∧ Q r.1) w := by
  refine RoomActor.wp_handle (fun _ => ⟨ha, hqa⟩) (fun _ => stored_retry hQ ha hqa w)
    (fun _ => stored_rotate hQ ha hqa w) (fun _ => ⟨ha, hqa⟩) ?_ ?_ ?_
  · intro connectionId version peer _ _
    obtain ⟨peers, ids, hjoin⟩ := a.join_fst connectionId version peer
    rw [hjoin]
    exact ⟨ha.withPeers peers ids, hQ.peers hqa⟩
  · intro connectionId batchId updates peer _ _
    refine RoomActor.wp_update (fun _ _ => ⟨ha, hqa⟩) fun admission hadmitted => ?_
    exact wp_mono (fun r _ _ => ⟨ha.finishUpdate hadmitted r, hQ.update hqa hadmitted⟩)
      (stored_resolve ha hadmitted.prepares w)
  · exact fun connectionId _ _ => ⟨ha.withPeers _ _, hQ.peers hqa⟩

end Programs

variable {Q : RoomActor Doc → Prop}

theorem storeInvariant_preserved (hQ : RoomActor.ActorInvariant roomId config Q) :
    (storeInvariant Doc roomId config Q).Preserved (environment policy) where
  crash_of_idle h := h.1
  boot _ hcrash := by
    refine wp_mono ?_ (wp_inv hcrash (stored_boot hQ _ _))
    rintro a w ⟨ha, hstored⟩ w' hrely
    exact ⟨stored_of_rely hstored hrely, ha⟩
  handle _ hidle := by
    refine wp_mono ?_ (wp_inv hidle.1 (stored_handle hQ hidle.2.1 hidle.2.2 _ _))
    rintro r w ⟨ha, hstored⟩ w' hrely
    exact ⟨stored_of_rely hstored hrely, ha⟩
  crash := by
    rintro w w' evs hstored rfl
    exact stored_crashed hstored
  drift_idle hidle hdrift := ⟨stored_of_drift hidle.1 hdrift, hidle.2⟩
  drift_crash hcrash hdrift := stored_of_drift hcrash hdrift

variable {g : System (gateway Doc roomId config) World}

/-- The store of a room satisfies its invariant at every moment. -/
theorem RoomReachable.stored (h : RoomReachable policy g) : Stored Doc roomId g.world :=
  Reachable.crash_invariant (storeInvariant_preserved RoomActor.ActorInvariant.trivial)
    (by rintro w rfl; exact ⟨[], .empty⟩) h

/-- An idle actor is seated. -/
theorem RoomReachable.seated {w : World} {a : RoomActor Doc}
    {events : List (Event (gateway Doc roomId config) World)}
    (h : RoomReachable policy ⟨w, .idle a, events⟩) : a.Seated roomId config :=
  (Reachable.idle_invariant (storeInvariant_preserved RoomActor.ActorInvariant.trivial)
    (by rintro w rfl; exact ⟨[], .empty⟩) h).2.1

/-- What every outcome of every program keeps holds of every idle actor. -/
theorem RoomReachable.actor (hQ : RoomActor.ActorInvariant roomId config Q) {w : World}
    {a : RoomActor Doc} {events : List (Event (gateway Doc roomId config) World)}
    (h : RoomReachable policy ⟨w, .idle a, events⟩) : Q a :=
  (Reachable.idle_invariant (storeInvariant_preserved hQ)
    (by rintro w rfl; exact ⟨[], .empty⟩) h).2.2

/-! ## The manifest never dangles -/

/-- What stands behind the record at an index of the manifest. -/
structure Anchored (roomId : String) (d : Disk) (index : Nat) (record : ManifestRecord) : Prop where
  revision : record.revision.toNat = index
  checkpoint : record.checkpointGeneration.toNat = index
  active : record.activeDeltaGeneration.toNat = index + 1
  verified : record.verifiesCheckpointBytes
    (d.read (checkpointStream roomId ⟨record.checkpointGeneration⟩).physical)
  decodes : ∃ checkpoint,
    CheckpointRecord.decodeExact
      (d.read (checkpointStream roomId ⟨record.checkpointGeneration⟩).physical) .default =
        .ok checkpoint ∧
      checkpoint.belongsToRoom roomId ∧
      checkpoint.checkpointGeneration = record.checkpointGeneration ∧
      checkpoint.sourceDeltaGeneration = checkpoint.checkpointGeneration
  next : d.content (deltaStreamForGeneration roomId ⟨record.activeDeltaGeneration⟩).physical ≠ none

theorem StoreInvariant.anchored {w : World} {records : List ManifestRecord}
    (h : StoreInvariant Doc roomId w records) {index : Nat} {record : ManifestRecord}
    (hrecord : records[index]? = some record) : Anchored roomId w.disk index record := by
  have hlinked := h.manifest.linked record (List.mem_of_getElem? hrecord)
  have hrevision := h.manifest.log.chain.revision_eq index record hrecord
  obtain ⟨checkpoint, ⟨doc, endOffset, history, hbuilt⟩, hencode, hverifies, _⟩ :=
    hlinked.checkpoint h
  obtain ⟨hroom, hgeneration, hsource, _⟩ := CheckpointRecord.generation_of_build hbuilt
  exact
    { revision := hrevision
      checkpoint := by rw [hlinked.generation, hrevision]
      active := by rw [hlinked.active, hrevision]
      verified := hverifies
      decodes := ⟨checkpoint, CheckpointRecord.decodeExact_encode hencode, hroom, hgeneration,
        hsource.trans hgeneration.symm⟩
      next := hlinked.nextExists }

/-- A recovery that fails does not blame what the manifest names. -/
theorem recovery_not_dangling {task : Task (gateway Doc roomId config)} {limits : FrameLimits}
    {w w' : World} {error : RecoveryError} (hstored : Stored Doc roomId w)
    (hrun : Runs ((environment policy).serve task)
      (Relation.ReflTransGen ((environment policy).drift true))
      (recoverFromManifest Doc roomId limits).run w (.error error) w') : ¬ error.Dangling := by
  have hc := environment_grounded policy task (Stored Doc roomId)
  have hsafe : wp ((environment policy).serve task)
      ((environment policy).contract (Stored Doc roomId)) (recoverFromManifest Doc roomId limits).run
      (fun r _ => ∀ error, r = .error error → ¬ error.Dangling) w := by
    refine wp_recoverFromManifest hc (growthStable_true.stable hc.grows) (fun _ h => h) trivial
      (stored_keeps growthStable_true fun _ _ => .ensureStream _) ?_ ?_ ?_
    · rintro error _ _ hfault _ ⟨⟩
      exact hfault.not_dangling
    · exact fun _ _ _ _ => nofun
    · exact fun _ _ _ _ _ _ _ _ _ => nofun
  exact (hrun.sound (c := (environment policy).contract (Stored Doc roomId))
    (fun _ _ hinv hrely => stored_of_rely hinv hrely) hstored hsafe).2 error rfl

/-- At every moment of every run the manifest is a list of records behind each of
which stand its checkpoint and the next delta stream, and no recovery says
otherwise. -/
theorem manifest_never_dangles (h : RoomReachable policy g) :
    (∃ records : List ManifestRecord,
      g.world.disk.read (manifestStream roomId).physical = manifestBytes records ∧
      (∀ decoded, decodeManifestStream (g.world.disk.read (manifestStream roomId).physical) .default =
        .ok decoded → decoded = records) ∧
      ∀ (index : Nat) (record : ManifestRecord), records[index]? = some record →
        Anchored roomId g.world.disk index record) ∧
    ∀ (task : Task (gateway Doc roomId config)) (limits : FrameLimits) (error : RecoveryError)
      (w : World),
      Runs ((environment policy).serve task)
        (Relation.ReflTransGen ((environment policy).drift true))
        (recoverFromManifest Doc roomId limits).run g.world (.error error) w → ¬ error.Dangling := by
  obtain ⟨records, hrecords⟩ := h.stored
  have hlog := hrecords.manifest.log
  refine ⟨⟨records, hlog.content, ?_, fun index record => hrecords.anchored⟩, ?_⟩
  · intro decoded hdecoded
    rw [hlog.content] at hdecoded
    exact decodeManifestStream_eq_ok hlog.valid hlog.word hdecoded
  · exact fun task limits error w hrun => recovery_not_dangling h.stored hrun

end

open Sample

/-- A room that has rotated, and whose process has died. -/
theorem manifest_never_dangles_rotated :
    ∃ g : System (gateway OpDoc "r" .default) World,
      RoomReachable (lateDirection .default).policy g ∧
      ∃ records : List ManifestRecord, records ≠ [] ∧
        ∀ (index : Nat) (record : ManifestRecord), records[index]? = some record →
          Anchored "r" g.world.disk index record := by
  have hrun : ((lateDirection .default).director.run
      [.boot (sampleBoot 1) (answeredAll 4), .command (.join 1 [] 7) [],
        .command (.update 1 (sampleBatch 1) [[1, 0]] 7) (answeredAll 1),
        .command .rotate (answeredAll 10), .crash]
      ⟨World.empty, .down, []⟩).any (fun g =>
        decide (g.world.disk.read (manifestStream "r").physical ≠ [])) = true := by
    decide +kernel
  obtain ⟨g, hreach, hwritten⟩ := Direction.exists_of_run hrun
  obtain ⟨⟨records, hread, _, hanchored⟩, _⟩ := manifest_never_dangles hreach
  refine ⟨g, hreach, records, ?_, hanchored⟩
  rintro rfl
  exact of_decide_eq_true hwritten hread

end LoroGateway
