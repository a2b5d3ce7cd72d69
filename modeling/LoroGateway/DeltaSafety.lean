import LoroGateway.DeltaLog
import LoroGateway.StoreSafety

/-!
# The delta streams of a room in every run

Whatever the surroundings do, the delta streams of a room are logs of frames
that its actors have named, and a stream that holds a frame belongs to a
generation that the manifest has opened.

`Kept` is what this module and the one on the store know of every world, and
`Placed` what they know of every idle actor.  The modules that follow assume
both of every step (`RoomReachable.within`).
-/

namespace LoroGateway

open ByteCodec CrashLogic CrashLogic.Server

variable [Hashing] {Doc : Type} [Loro Doc] {roomId : String} {config : ActorConfig}

/-- The producer of the frame is that of some boot in the generation. -/
def NamedFrame (roomId : String) (generation : GenerationId) (frame : DeltaFrame) : Prop :=
  ∃ bootId, frame.producer.id = producerIdForGeneration bootId roomId generation

/-- The manifest has as many records as it takes to reach the generation. -/
def Opened (roomId : String) (generation : GenerationId) (w : World) : Prop :=
  188 * generation.value.toNat ≤ (w.disk.read (manifestStream roomId).physical).length

theorem growthStable_opened (generation : GenerationId) :
    GrowthStable (Opened roomId generation) :=
  fun _ _ hgrow h => h.trans (hgrow _).1.length_le

theorem opened_zero (w : World) : Opened roomId .zero w := Nat.zero_le _

theorem opened_iff {w : World} {records : List ManifestRecord}
    (h : StoreInvariant Doc roomId w records) {generation : GenerationId} :
    Opened roomId generation w ↔
      generation.value.toNat ≤ (activeGeneration records).value.toNat := by
  rw [Opened, h.manifest.log.content, length_manifestBytes h.manifest.log.valid, h.active_eq]
  exact Nat.mul_le_mul_left_iff (by decide)

/-- What every run keeps of the delta streams. -/
structure DeltaKept (roomId : String) (limits : FrameLimits) (w : World) : Prop
    extends DeltaInvariant (NamedFrame roomId) limits roomId w where
  opened : ∀ generation, w.disk.read (deltaStreamForGeneration roomId generation).physical ≠ [] →
    Opened roomId generation w
  sent : ∀ app ∈ w.underWay, ∀ generation,
    app.stream = (deltaStreamForGeneration roomId generation).physical → Opened roomId generation w

namespace DeltaKept

variable {limits : FrameLimits} {w w' : World}

theorem empty : DeltaKept roomId limits World.empty :=
  { DeltaInvariant.empty with
    opened := fun _ h => absurd rfl h
    sent := nofun }

/-- The streams that an append leaves are as far opened as they were. -/
theorem opened_append (h : DeltaKept roomId limits w) {app : Append}
    (happ : ∀ generation, app.stream = (deltaStreamForGeneration roomId generation).physical →
      Opened roomId generation w) {generation : GenerationId}
    (hne : (w.disk.append app).read (deltaStreamForGeneration roomId generation).physical ≠ []) :
    Opened roomId generation w := by
  by_cases hstream : app.stream = (deltaStreamForGeneration roomId generation).physical
  · exact happ generation hstream
  · by_cases haccepts : w.disk.Accepts app
    · rw [Disk.append_of_accepts haccepts, Disk.read_accept_ne (Ne.symm hstream)] at hne
      exact h.opened generation hne
    · rw [Disk.append_of_not_accepts haccepts] at hne
      exact h.opened generation hne

/-- A call that submits frames of opened generations keeps the delta streams. -/
theorem serve (h : DeltaKept roomId limits w) {req : Request} {x : Answer req}
    (hsubmits : Submits (NamedFrame roomId) limits roomId req)
    (hopened : ∀ stream producer body, req = .append stream producer body → ∀ generation,
      stream = (deltaStreamForGeneration roomId generation).physical → Opened roomId generation w)
    (hserve : served w req x w') : DeltaKept roomId limits w' := by
  have hstable : ∀ {generation}, Opened roomId generation w → Opened roomId generation w' :=
    growthStable_opened _ _ _ (served_grows hserve)
  refine { h.toDeltaInvariant.serve hsubmits hserve with opened := ?_, sent := ?_ }
  · intro generation hne
    refine hstable ?_
    cases req with
    | ensureStream stream =>
      rcases (served_ensureStream hserve).1 with rfl | rfl
      · exact h.opened generation hne
      · exact h.opened generation (by rwa [Disk.read_ensure] at hne)
    | readAll stream => exact h.opened generation ((served_readAll hserve).1 ▸ hne)
    | readRange stream offset length =>
      exact h.opened generation ((served_readRange hserve).1 ▸ hne)
    | append stream producer body =>
      cases served_append hserve with
      | accepted haccepts =>
        rw [← Disk.append_of_accepts haccepts] at hne
        exact h.opened_append (hopened _ _ _ rfl) hne
      | duplicate => exact h.opened generation hne
      | refused => exact h.opened generation hne
  · intro app hmem generation hstream
    refine hstable ?_
    cases req with
    | ensureStream stream =>
      rcases (served_ensureStream hserve).1 with rfl | rfl
      · exact h.sent app hmem generation hstream
      · exact h.sent app hmem generation hstream
    | readAll stream => exact h.sent app ((served_readAll hserve).1 ▸ hmem) generation hstream
    | readRange stream offset length =>
      exact h.sent app ((served_readRange hserve).1 ▸ hmem) generation hstream
    | append stream producer body =>
      rcases served_underWay hserve app hmem with hmem | rfl
      · exact h.sent app hmem generation hstream
      · exact hopened _ _ _ rfl generation hstream

theorem deliver (h : DeltaKept roomId limits w) {app : Append} (hmem : app ∈ w.underWay) :
    DeltaKept roomId limits (w.deliver app) :=
  have hstable : ∀ {generation}, Opened roomId generation w →
      Opened roomId generation (w.deliver app) :=
    growthStable_opened _ _ _ (Disk.grows_append _ _)
  { h.toDeltaInvariant.deliver hmem with
    opened := fun _ hne => hstable (h.opened_append (h.sent app hmem) hne)
    sent := fun other hother generation hstream =>
      hstable (h.sent other hother generation hstream) }

theorem crashed (h : DeltaKept roomId limits w) : DeltaKept roomId limits (crashedWorld w) :=
  have hsame : DeltaInvariant (NamedFrame roomId) limits roomId (crashedWorld w) :=
    h.toDeltaInvariant.transport rfl fun _ hmem => hmem
  { hsame with
    opened := h.opened
    sent := h.sent }

end DeltaKept

/-! ## The invariant -/

/-- What is known of every world of a run. -/
structure Kept (Doc : Type) [Loro Doc] (roomId : String) (config : ActorConfig) (w : World) :
    Prop where
  stored : Stored Doc roomId w
  delta : DeltaKept roomId config.frameLimits w
  journaled : Journaled w

theorem kept_empty : Kept Doc roomId config World.empty := ⟨⟨[], .empty⟩, .empty, .empty⟩

/-- A fresh boot has no frames. -/
theorem Kept.framesOf_fresh {w : World} (h : Kept Doc roomId config w) {boot : Boot}
    (hfresh : FreshBoot roomId w boot) {limits : FrameLimits} {P : DeltaFrame → Prop}
    {stream : String} {frames : List DeltaFrame} (hlog : DeltaLog P limits stream w.disk frames)
    (generation : GenerationId) :
    ∀ frame ∈ frames, frame.producer.id ≠ producerIdForGeneration boot.bootId roomId generation := by
  intro frame hmem hid
  obtain ⟨attempt, hattempt, hsame⟩ := h.journaled.last stream _ (hlog.last_ne_none hmem)
  exact hfresh attempt hattempt generation (hsame.trans hid)

/-- What is known of every idle actor of a run. -/
structure RoomActor.Placed (roomId : String) (config : ActorConfig) (w : World)
    (a : RoomActor Doc) : Prop extends a.Seated roomId config where
  opened : Opened roomId a.activeDeltaGeneration w

variable {policy : Policy Doc roomId config} {task : Task (gateway Doc roomId config)}

/-- The surroundings, cut down to the steps that are known to happen. -/
@[reducible]
def confined (policy : Policy Doc roomId config) (K : World → Prop)
    (L : World → RoomActor Doc → Prop) : Environment (gateway Doc roomId config) World :=
  (environment policy).within K L

section Confined

variable {K : World → Prop} {L : World → RoomActor Doc → Prop}

theorem served_of_confined {w w' : World} {req : Request} {x : Answer req}
    (h : (confined policy K L).serve task w req x w') : served w req x w' := by
  obtain ⟨⟨fate, _, _, heq⟩, _⟩ := h
  exact ⟨fate, heq⟩

theorem confined_grounded (inv : World → Prop) :
    Grounded ((confined policy K L).serve task) ((confined policy K L).contract inv) where
  sub h := served_of_confined h
  grows := by
    intro w w' hrely
    exact (environment_grounded policy task inv).grows
      (Relation.ReflTransGen.mono (fun _ _ h => h.1) _ _ hrely)
  guar_refl _ := trivial

end Confined

section Prepares

variable {a : RoomActor Doc} (ha : a.Seated roomId config) {pending : PendingAppend}

omit [Loro Doc]

include ha

theorem RoomActor.Prepares.submittable (h : a.Prepares pending) :
    Submittable (NamedFrame roomId a.activeDeltaGeneration) config.frameLimits pending.frame where
  valid := ha.config ▸ h.valid
  epoch := by rw [h.frame, h.producer]
  named := ⟨a.bootId, by rw [h.frame, h.producer]; exact ha.producer⟩

theorem RoomActor.Prepares.append_eq (h : a.Prepares pending) :
    (⟨pending.targetStream, pending.producer, pending.bytes⟩ : Append) =
      deltaAppend config.frameLimits
        (deltaStreamForGeneration roomId a.activeDeltaGeneration).physical pending.frame := by
  rw [deltaAppend, h.frame, ← ha.stream, ← h.stream, h.bytes, ha.config]

/-- The appends of a seated actor submit frames. -/
theorem RoomActor.Prepares.submits (h : a.Prepares pending) :
    Submits (NamedFrame roomId) config.frameLimits roomId pending.request := by
  intro generation hstream
  have hactive : a.activeDeltaGeneration = generation := by
    rw [h.stream, ha.stream] at hstream
    exact deltaStream_inj hstream
  subst hactive
  exact ⟨pending.frame, h.submittable ha, h.append_eq ha⟩

end Prepares

/-- The invariant of the delta streams, on top of the one of the store. -/
def deltaInvariant (Doc : Type) [Loro Doc] (roomId : String) (config : ActorConfig) :
    Invariant (gateway Doc roomId config) World where
  idle w a _ := Kept Doc roomId config w ∧ Opened roomId a.activeDeltaGeneration w
  crash w _ := Kept Doc roomId config w

section Programs

/-- The surroundings in which the store is known to be in order. -/
abbrev storedEnvironment (policy : Policy Doc roomId config) :
    Environment (gateway Doc roomId config) World :=
  confined policy (fun w => Stored Doc roomId w ∧ Journaled w) fun _ a => a.Seated roomId config

theorem stored_grounded (policy : Policy Doc roomId config) (task : Task (gateway Doc roomId config))
    (inv : World → Prop) :
    Grounded ((storedEnvironment policy).serve task) ((storedEnvironment policy).contract inv) :=
  confined_grounded inv

/-- A call that goes to no delta stream, or that submits a frame, keeps what is kept. -/
theorem delta_keeps {req : Request} {assertion : World → Prop} (hassertion : GrowthStable assertion)
    (hsubmits : Submits (NamedFrame roomId) config.frameLimits roomId req)
    (hopened : ∀ w, assertion w → ∀ stream producer body, req = .append stream producer body →
      ∀ generation, stream = (deltaStreamForGeneration roomId generation).physical →
        Opened roomId generation w) :
    Keeps ((storedEnvironment policy).serve task)
      ((storedEnvironment policy).contract (Kept Doc roomId config)) assertion req := by
  refine Keeps.of_growthStable (confined_grounded _) hassertion fun w x w' hw hkept hserve => ⟨?_, trivial⟩
  obtain ⟨hstored, hjournaled⟩ := hserve.2.2
  exact ⟨hstored, hkept.delta.serve hsubmits (hopened w hw) (served_of_confined hserve), hjournaled⟩

/-- A call that goes to no delta stream. -/
theorem delta_keeps_other {req : Request} {assertion : World → Prop}
    (hassertion : GrowthStable assertion)
    (hother : ∀ stream producer body, req = .append stream producer body → ∀ generation,
      stream ≠ (deltaStreamForGeneration roomId generation).physical) :
    Keeps ((storedEnvironment policy).serve task)
      ((storedEnvironment policy).contract (Kept Doc roomId config)) assertion req := by
  refine delta_keeps hassertion ?_ fun _ _ stream producer body hreq generation hstream =>
    absurd hstream (hother stream producer body hreq generation)
  cases req with
  | append stream producer body =>
    exact fun generation hstream => absurd hstream (hother stream producer body rfl generation)
  | _ => trivial

theorem delta_boot (boot : Boot) (w : World) :
    wp ((storedEnvironment policy).serve task)
      ((storedEnvironment policy).contract (Kept Doc roomId config))
      (RoomActor.activate roomId config boot)
      (fun (a : RoomActor Doc) w' => Opened roomId a.activeDeltaGeneration w') w := by
  have hc := stored_grounded policy task (Kept Doc roomId config)
  refine RoomActor.wp_activate hc (growthStable_true.stable hc.grows) (fun _ h => h.stored) trivial
    (fun stream => delta_keeps_other growthStable_true nofun) ?_ ?_ ?_
  · exact fun _ _ _ w' _ _ => opened_zero w'
  · intro records checkpoint frames recovery w' _ _ h
    obtain ⟨w₁, ⟨_, hgrow⟩, hrecords⟩ := h.manifest
    refine growthStable_opened _ _ _ hgrow ((opened_iff hrecords).mpr ?_)
    exact (congrArg (fun generation => generation.value.toNat) h.active).le
  · exact fun _ _ _ _ w' _ _ _ _ _ _ => opened_zero w'

variable {a : RoomActor Doc}

theorem delta_resolve (ha : a.Seated roomId config) {pending : PendingAppend}
    (hpending : a.Prepares pending) {w : World} (hopened : Opened roomId a.activeDeltaGeneration w) :
    wp ((storedEnvironment policy).serve task)
      ((storedEnvironment policy).contract (Kept Doc roomId config))
      (resolveAppend a.config pending) (fun _ w' => Opened roomId a.activeDeltaGeneration w') w := by
  have hc := stored_grounded policy task (Kept Doc roomId config)
  refine wp_resolveAppend hc ((growthStable_opened a.activeDeltaGeneration).stable hc.grows) hopened
    (delta_keeps (growthStable_opened _) (hpending.submits ha) ?_) ?_ ?_ ?_ ?_
  · rintro w hw stream producer body hreq generation hstream
    cases hreq
    rw [hpending.stream, ha.stream] at hstream
    exact deltaStream_inj hstream ▸ hw
  · exact fun _ _ _ _ _ _ hw₂ _ => hw₂
  · exact fun _ _ _ _ _ _ _ hw₃ _ _ _ => hw₃
  · exact fun _ _ _ _ _ _ _ hw₂ _ => hw₂
  · exact fun _ _ hw₂ _ => hw₂

theorem delta_rotate (ha : a.Seated roomId config) {w : World}
    (hopened : Opened roomId a.activeDeltaGeneration w) :
    wp ((storedEnvironment policy).serve task)
      ((storedEnvironment policy).contract (Kept Doc roomId config))
      a.rotateGeneration (fun r w' => Opened roomId r.1.activeDeltaGeneration w') w := by
  have hc := stored_grounded policy task (Kept Doc roomId config)
  have hstable : GrowthStable (Opened roomId a.activeDeltaGeneration) := growthStable_opened _
  refine RoomActor.wp_rotateGeneration (fun _ => hopened) fun _ _ => ?_
  rw [ha.room]
  refine wp_rotateRoom hc (hstable.stable hc.grows) hopened
    (fun w h => ?_) (fun stream => delta_keeps_other hstable nofun) ?_ ?_ ?_ ?_
  · obtain ⟨records, hrecords⟩ := h.stored
    exact ⟨records, hrecords.manifest.log⟩
  · rintro record bytes _ _
    refine delta_keeps_other hstable ?_
    rintro _ _ _ ⟨⟩ generation
    exact deltaStream_ne_checkpointStream.symm
  · intro result _
    refine delta_keeps_other ((hstable.and (Prepared.stable result)).and
      (CheckedAgainst.stable _ _)) ?_
    rintro _ _ _ ⟨⟩ generation
    exact deltaStream_ne_manifestStream.symm
  · exact fun _ _ hw' => hw'
  · intro result w' _ hrotated
    have hrevision := (hrotated.toPrepared.linked fun _ h => h.2.stored).1
    have hfits := hrotated.published.slice.2.1
    change 188 * result.nextDeltaGeneration.value.toNat ≤ _
    rwa [hrotated.next, ← hrevision]

theorem delta_retry (ha : a.Seated roomId config) {w : World}
    (hopened : Opened roomId a.activeDeltaGeneration w) :
    wp ((storedEnvironment policy).serve task)
      ((storedEnvironment policy).contract (Kept Doc roomId config))
      a.retryPending (fun r w' => Opened roomId r.1.activeDeltaGeneration w') w := by
  have hc := stored_grounded policy task (Kept Doc roomId config)
  refine RoomActor.wp_retryPending hc (Opened roomId a.activeDeltaGeneration)
    (Opened roomId a.activeDeltaGeneration) ((growthStable_opened _).stable hc.grows)
    (fun _ => hopened) ?_ ?_ ?_
  · intro pending hpending
    refine wp_mono ?_ (delta_resolve ha (ha.blocked pending hpending).2 hopened)
    intro r t ht
    cases r <;> exact ht
  · exact fun _ _ _ _ w' _ hw' _ => or_self_iff.mp hw'
  · exact fun _ _ _ _ _ w' _ hw' _ _ _ _ _ => hw'

theorem delta_handle (ha : a.Seated roomId config) (command : Command) {w : World}
    (hopened : Opened roomId a.activeDeltaGeneration w) :
    wp ((storedEnvironment policy).serve task)
      ((storedEnvironment policy).contract (Kept Doc roomId config))
      (a.handle command) (fun r w' => Opened roomId r.1.activeDeltaGeneration w') w := by
  refine RoomActor.wp_handle (fun _ => hopened) (fun _ => delta_retry ha hopened)
    (fun _ => delta_rotate ha hopened) (fun _ => hopened) ?_ ?_ (fun _ _ _ => hopened)
  · intro connectionId version peer _ _
    obtain ⟨peers, ids, hjoin⟩ := a.join_fst connectionId version peer
    rw [hjoin]
    exact hopened
  · intro connectionId batchId updates peer _ _
    refine RoomActor.wp_update (fun _ _ => hopened) fun admission hadmitted => ?_
    refine wp_mono ?_ (delta_resolve ha hadmitted.prepares hopened)
    intro r t ht
    match r with
    | .ok proof => exact ht
    | .error (.definitelyRejected kind message) => exact ht
    | .error (.outcomeUnknown error) => exact ht

end Programs

theorem kept_of_drift {up : Bool} {w w' : World} (h : Kept Doc roomId config w)
    (hdrift : (storedEnvironment policy).drift up w w') : Kept Doc roomId config w' := by
  obtain ⟨⟨app, hmem, _, rfl⟩, _, hstored, hjournaled⟩ := hdrift
  exact ⟨hstored, h.delta.deliver hmem, hjournaled⟩

theorem kept_of_drifts {w w' : World} (h : Kept Doc roomId config w)
    (hrely : Relation.ReflTransGen ((storedEnvironment policy).drift true) w w') :
    Kept Doc roomId config w' := by
  induction hrely with
  | refl => exact h
  | tail _ hlast ih => exact kept_of_drift ih hlast

theorem opened_of_drifts {w w' : World} {generation : GenerationId} (h : Opened roomId generation w)
    (hrely : Relation.ReflTransGen ((storedEnvironment policy).drift true) w w') :
    Opened roomId generation w' :=
  growthStable_opened generation w w'
    ((stored_grounded policy (.boot ⟨ByteArr.zero 16, fun _ => 0⟩) fun _ => True).grows hrely) h

theorem deltaInvariant_preserved :
    (deltaInvariant Doc roomId config).Preserved (storedEnvironment policy) where
  crash_of_idle h := h.1
  boot _ hcrash := by
    refine wp_mono ?_ (wp_inv hcrash (delta_boot _ _))
    rintro a w ⟨hopened, hkept⟩ w' hrely
    exact ⟨kept_of_drifts hkept hrely, opened_of_drifts hopened hrely⟩
  handle haccepts hidle := by
    refine wp_mono ?_ (wp_inv hidle.1 (delta_handle haccepts.2 _ hidle.2))
    rintro r w ⟨hopened, hkept⟩ w' hrely
    exact ⟨kept_of_drifts hkept hrely, opened_of_drifts hopened hrely⟩
  crash := by
    rintro w w' evs hkept ⟨rfl, _, hstored, hjournaled⟩
    exact ⟨hstored, hkept.delta.crashed, hjournaled⟩
  drift_idle hidle hdrift :=
    ⟨kept_of_drift hidle.1 hdrift, opened_of_drifts hidle.2 (.single hdrift)⟩
  drift_crash hcrash hdrift := kept_of_drift hcrash hdrift

variable {g : System (gateway Doc roomId config) World}

theorem RoomReachable.journaled (h : RoomReachable policy g) : Journaled g.world := by
  refine Reachable.world (by rintro w rfl; exact .empty) ?_ ?_ ?_ h
  · rintro task w req _ w' hw ⟨fate, _, _, heq⟩
    exact hw.serve ⟨fate, heq⟩
  · rintro up w w' hw ⟨app, hmem, _, rfl⟩
    exact hw.deliver hmem
  · rintro w w' hw rfl
    exact ⟨hw.last, hw.sent⟩

theorem RoomReachable.inStore (h : RoomReachable policy g) :
    Reachable (storedEnvironment policy) (fun w => w = World.empty) g :=
  Reachable.within (fun h => ⟨RoomReachable.stored h, RoomReachable.journaled h⟩)
    (fun h : RoomReachable policy _ => RoomReachable.seated h) h

/-- The store and the delta streams are in order at every moment. -/
theorem RoomReachable.kept (h : RoomReachable policy g) : Kept Doc roomId config g.world :=
  Reachable.crash_invariant deltaInvariant_preserved
    (by rintro w rfl; exact kept_empty) h.inStore

/-- An idle actor is in its place. -/
theorem RoomReachable.placed {w : World} {a : RoomActor Doc}
    {events : List (Event (gateway Doc roomId config) World)}
    (h : RoomReachable policy ⟨w, .idle a, events⟩) : a.Placed roomId config w :=
  { h.seated with
    opened := (Reachable.idle_invariant deltaInvariant_preserved
      (by rintro w rfl; exact kept_empty) h.inStore).2 }

end LoroGateway
