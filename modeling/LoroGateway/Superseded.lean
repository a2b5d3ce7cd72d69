import LoroGateway.Lasting
import LoroGateway.Scripted
import LoroGateway.Tracking

/-!
# Superseded generations

A rotation commits with its manifest record.  The append of the record may outlive the call that
sent it: when the room gives up it is unavailable, but the record can still take effect.

`Fenced` says that the manifest names no generation after a bound, and that no append which the
process has sent can change this.  A process keeps it up for its own generation.  The appends of
a process that has crashed are another matter (`Policy.fenced`): nothing in the store tells their
sender from the next process.
-/

namespace LoroGateway

open ByteCodec CrashLogic CrashLogic.Server

section

variable [Hashing] {Doc : Type} [Loro Doc] {roomId : String} {config : ActorConfig}
  {bound bound' : Nat} {w w' : World} {app : Append} {req : Request}

/-! ## The manifest and its bound -/

/-- The head of the manifest names a generation after this one. -/
def Superseded (roomId : String) (generation : GenerationId) (d : Disk) : Prop :=
  ∃ records latest, ManifestHeld roomId d records ∧ records.getLast? = some latest ∧
    generation.value < latest.activeDeltaGeneration

/-- Each generation after the first has one record in the manifest. -/
theorem superseded_iff {generation : GenerationId} (hstored : Stored Doc roomId w) :
    Superseded roomId generation w.disk ↔
      188 * generation.value.toNat < (w.disk.read (manifestStream roomId).physical).length := by
  obtain ⟨records, hrecords⟩ := hstored
  have hlog := hrecords.manifest.log
  have hactive := hrecords.active_eq
  rw [hlog.content, length_manifestBytes hlog.valid]
  constructor
  · intro h
    obtain ⟨records', latest, hheld, hlast, hlt⟩ := h
    obtain rfl : records' = records := hheld.unique hlog.toManifestHeld
    rw [activeGeneration, hlast] at hactive
    have hlt' := UInt64.lt_iff_toNat_lt.mp hlt
    dsimp only at hactive
    omega
  · intro h
    have hne : records ≠ [] := by
      intro hnil
      subst hnil
      simp at h
    obtain ⟨latest, hlast⟩ := Option.ne_none_iff_exists'.mp (mt List.getLast?_eq_none_iff.mp hne)
    rw [activeGeneration, hlast] at hactive
    dsimp only at hactive
    refine ⟨records, latest, hlog.toManifestHeld, hlast, UInt64.lt_iff_toNat_lt.mpr ?_⟩
    omega

/-- The manifest names no generation after the bound, and no append that the process has sent
makes it do so. -/
structure Fenced (roomId : String) (bound : Nat) (w : World) : Prop where
  length : (w.disk.read (manifestStream roomId).physical).length ≤ 188 * bound
  sent : ∀ app ∈ w.inflight, app.stream = (manifestStream roomId).physical →
    app.producer.sequence.toNat < bound

/-- The call does not append to the manifest. -/
def SparesManifest (roomId : String) (req : Request) : Prop :=
  ∀ stream producer body, req = .append stream producer body →
    stream ≠ (manifestStream roomId).physical

omit [Hashing] in
/-- What is under way after an append was so before, or is the append. -/
theorem mem_inflight_served {stream : String} {producer : ProducerTuple} {body : Bytes}
    {x : Except StoreError AppendOutcome} (hserve : served w (.append stream producer body) x w')
    (hmem : app ∈ w'.inflight) : app ∈ w.inflight ∨ app = ⟨stream, producer, body⟩ := by
  cases served_append hserve with
  | accepted => exact .inl hmem
  | duplicate => exact .inl hmem
  | refused hsent =>
    cases hsent with
    | inl hsame => exact .inl (hsame ▸ hmem)
    | inr hmore =>
      rw [hmore] at hmem
      exact (List.mem_cons.mp hmem).symm

namespace Fenced

omit [Loro Doc] in
theorem mono (h : Fenced roomId bound w) (hle : bound ≤ bound') : Fenced roomId bound' w where
  length := h.length.trans (Nat.mul_le_mul_left 188 hle)
  sent app hmem hstream := (h.sent app hmem hstream).trans_le hle

/-- A manifest that is fenced at a generation does not name a later one. -/
theorem not_superseded {generation : GenerationId} (h : Fenced roomId generation.value.toNat w)
    (hstored : Stored Doc roomId w) : ¬ Superseded roomId generation w.disk := by
  rw [superseded_iff hstored]
  exact Nat.not_lt.mpr h.length

/-- A record below the bound that is accepted leaves the manifest within it. -/
theorem length_accept {records : List ManifestRecord} {record : ManifestRecord}
    (hlog : ManifestLog roomId w.disk records) (hvalid : record.Valid)
    (haccepts : w.disk.Accepts (manifestAppend roomId record))
    (hlt : record.revision.toNat < bound) :
    ((w.disk.accept (manifestAppend roomId record)).read (manifestStream roomId).physical).length ≤
      188 * bound := by
  have hread := Disk.read_accept_self w.disk (manifestAppend roomId record)
  have hrevision := hlog.revision_of_accepts haccepts
  show ((w.disk.accept (manifestAppend roomId record)).read
    (manifestAppend roomId record).stream).length ≤ _
  rw [hread, List.length_append]
  show (w.disk.read (manifestStream roomId).physical).length + record.encoded.length ≤ _
  rw [hlog.content, length_manifestBytes hlog.valid, hvalid.length_eq]
  omega

/-- An append under way that reaches the store, and that is not one of a crashed process to
the manifest. -/
theorem deliver (h : Fenced roomId bound w) (hstored : Stored Doc roomId w)
    (hmem : app ∈ w.underWay)
    (hown : app.stream = (manifestStream roomId).physical →
      app ∈ w.inflight ∨ ¬ w.disk.Accepts app) : Fenced roomId bound (w.deliver app) where
  sent := h.sent
  length := by
    show ((w.disk.append app).read _).length ≤ _
    by_cases haccepts : w.disk.Accepts app
    · rw [Disk.append_of_accepts haccepts]
      by_cases hstream : app.stream = (manifestStream roomId).physical
      · obtain ⟨records, hrecords⟩ := hstored
        obtain ⟨record, happ, hsubmitted, _⟩ := hrecords.manifest.underWay app hmem hstream
        have hlt := h.sent app ((hown hstream).resolve_right (absurd haccepts)) hstream
        subst happ
        exact length_accept hrecords.manifest.log hsubmitted.valid haccepts hlt
      · rw [Disk.read_accept_ne (Ne.symm hstream)]
        exact h.length
    · rw [Disk.append_of_not_accepts haccepts]
      exact h.length

omit [Loro Doc] in
/-- A call that spares the manifest. -/
theorem spared (h : Fenced roomId bound w) (hspares : SparesManifest roomId req) {x : Answer req}
    (hserve : served w req x w') : Fenced roomId bound w' := by
  cases req with
  | ensureStream stream =>
    rcases (served_ensureStream hserve).1 with rfl | rfl
    · exact h
    · refine ⟨?_, h.sent⟩
      rw [Disk.read_ensure]
      exact h.length
  | readAll stream => exact (served_readAll hserve).1 ▸ h
  | readRange stream offset length => exact (served_readRange hserve).1 ▸ h
  | append stream producer body =>
    have hne := hspares stream producer body rfl
    constructor
    · cases served_append hserve with
      | accepted =>
        rw [Disk.read_accept_ne hne.symm]
        exact h.length
      | duplicate => exact h.length
      | refused => exact h.length
    · intro app hmem hstream
      cases mem_inflight_served hserve hmem with
      | inl hold => exact h.sent app hold hstream
      | inr hnew =>
        subst hnew
        exact absurd hstream hne

/-- A call that submits a record below the bound. -/
theorem publish (h : Fenced roomId bound w) (hstored : Stored Doc roomId w)
    {record : ManifestRecord} (hvalid : record.Valid) (hlt : record.revision.toNat < bound)
    {x : Except StoreError AppendOutcome}
    (hserve : served w (.append (manifestStream roomId).physical
      ⟨manifestProducerId roomId, 0, record.revision⟩ record.encoded) x w') :
    Fenced roomId bound w' := by
  constructor
  · cases served_append hserve with
    | accepted haccepts =>
      obtain ⟨records, hrecords⟩ := hstored
      exact length_accept hrecords.manifest.log hvalid haccepts hlt
    | duplicate => exact h.length
    | refused => exact h.length
  · intro app hmem hstream
    cases mem_inflight_served hserve hmem with
    | inl hold => exact h.sent app hold hstream
    | inr hnew =>
      subst hnew
      exact hlt

end Fenced

/-! ## The programs -/

/-- While a process is up, an append to the manifest takes effect only if the process has sent
it itself. -/
def Policy.fenced : Policy Doc roomId config where
  fate _ _ := True
  answer _ _ _ _ := True
  deliver up w app := up = true → app.stream = (manifestStream roomId).physical →
    app ∈ w.inflight ∨ ¬ w.disk.Accepts app
  accept _ _ _ _ := True

/-- The surroundings of a fenced room whose store is in order. -/
abbrev fencedEnvironment (Doc : Type) [Loro Doc] (roomId : String) (config : ActorConfig) :
    Environment (gateway Doc roomId config) World :=
  keptEnvironment .fenced

theorem fenced_of_drift (h : Fenced roomId bound w)
    (hdrift : (fencedEnvironment Doc roomId config).drift true w w') : Fenced roomId bound w' := by
  obtain ⟨⟨app, hmem, hdeliver, hdelivered⟩, hkept, _⟩ := hdrift
  subst hdelivered
  exact h.deliver hkept.stored hmem (hdeliver rfl)

theorem fenced_of_rely (h : Fenced roomId bound w)
    (hrely : (fencedEnvironment Doc roomId config).rely w w') : Fenced roomId bound w' := by
  induction hrely with
  | refl => exact h
  | tail _ hlast ih => exact fenced_of_drift ih hlast

section Programs

variable {task : Task (gateway Doc roomId config)}

theorem fenced_keeps (hspares : SparesManifest roomId req) :
    Keeps ((fencedEnvironment Doc roomId config).serve task)
      ((fencedEnvironment Doc roomId config).contract (Kept Doc roomId config))
      (Fenced roomId bound) req := by
  intro w x w' h _ hserve
  exact ⟨⟨hserve.2.2, trivial⟩, h.spared hspares (served_of_confined hserve)⟩

/-- What a room keeps up while it may still append to its stream. -/
def RoomActor.Fences (roomId : String) (a : RoomActor Doc) (w : World) : Prop :=
  a.Live → Fenced roomId a.activeDeltaGeneration.value.toNat w

theorem fences_boot (boot : Boot) (hkept : Kept Doc roomId config w) (hdown : w.inflight = []) :
    wp ((fencedEnvironment Doc roomId config).serve task)
      ((fencedEnvironment Doc roomId config).contract (Kept Doc roomId config))
      (RoomActor.activate roomId config boot)
      (fun (a : RoomActor Doc) t => a.Fences roomId t) w := by
  have hc := kept_grounded Policy.fenced (RoomActor.Placed roomId config) task
    (Kept Doc roomId config)
  obtain ⟨records, hrecords⟩ := hkept.stored
  have hlog := hrecords.manifest.log
  have hlength : (w.disk.read (manifestStream roomId).physical).length = 188 * records.length := by
    rw [hlog.content, length_manifestBytes hlog.valid]
  have hsince := growthStable_after w.disk
  have hfenced : Fenced roomId records.length w := by
    refine ⟨hlength.le, ?_⟩
    intro app hmem
    rw [hdown] at hmem
    cases hmem
  -- what has been read since the start is the manifest of the start
  have hread : ∀ {t₁ : World} {records₁ : List ManifestRecord}, w.disk.Grows t₁.disk →
      StoreInvariant Doc roomId t₁ records₁ → records.length ≤ records₁.length := by
    intro t₁ records₁ hgrow hrecords₁
    have hle := (hgrow (manifestStream roomId).physical).1.length_le
    have hlog₁ := hrecords₁.manifest.log
    rw [hlength, hlog₁.content, length_manifestBytes hlog₁.valid] at hle
    omega
  refine RoomActor.wp_activate hc
    (stable_and (fun _ _ h hrely => fenced_of_rely h hrely) (hsince.stable hc.grows))
    (fun _ h => h.stored) ⟨hfenced, .refl _⟩ ?_ ?_ ?_ ?_
  · intro stream
    exact Keeps.and hc (fenced_keeps nofun) hsince
  · intro endOffset lifecycle lastError t _ hstate hlive
    rcases hlive with hready | hblocked
    · have hlifecycle : lifecycle = .ready := hready
      subst hlifecycle
      simp at hstate
    · exact absurd rfl hblocked
  · intro records₁ checkpoint frames recovery t ht _ hrecovered _
    obtain ⟨t₁, hbefore, hrecords₁⟩ := hrecovered.manifest
    have hactive := hrecords₁.active_eq
    rw [← hrecovered.active] at hactive
    refine ht.1.mono ?_
    show records.length ≤ recovery.activeDeltaGeneration.value.toNat
    rw [hactive]
    exact hread hbefore.1.1.2 hrecords₁
  · intro t₁ endOffset history doc t ht₁ hempty ht _ _ _ _
    exact ht.1.mono (hread ht₁.2 hempty)

variable {a : RoomActor Doc} (ha : a.Seated roomId config)

include ha

theorem fenced_resolve {pending : PendingAppend} (hprepares : a.Prepares pending)
    (h : Fenced roomId bound w) :
    wp ((fencedEnvironment Doc roomId config).serve task)
      ((fencedEnvironment Doc roomId config).contract (Kept Doc roomId config))
      (resolveAppend a.config pending) (fun _ t => Fenced roomId bound t) w := by
  have hc := kept_grounded Policy.fenced (RoomActor.Placed roomId config) task
    (Kept Doc roomId config)
  have hspares : SparesManifest roomId pending.request := by
    intro stream producer body heq
    cases heq
    rw [hprepares.stream, ha.stream]
    exact deltaStream_ne_manifestStream
  refine wp_resolveAppend hc (fun _ _ h hrely => fenced_of_rely h hrely) h (fenced_keeps hspares)
    ?_ ?_ ?_ ?_
  · exact fun _ _ _ _ _ _ ht _ => ht
  · exact fun _ _ _ _ _ _ _ ht _ _ _ => ht
  · exact fun _ _ _ _ _ _ _ ht _ => ht
  · exact fun _ _ ht _ => ht

variable (h : a.Fences roomId w)

include h

theorem fences_retry :
    wp ((fencedEnvironment Doc roomId config).serve task)
      ((fencedEnvironment Doc roomId config).contract (Kept Doc roomId config))
      a.retryPending (fun r t => r.1.Fences roomId t) w := by
  have hc := kept_grounded Policy.fenced (RoomActor.Placed roomId config) task
    (Kept Doc roomId config)
  refine RoomActor.wp_retryPending hc (Fenced roomId a.activeDeltaGeneration.value.toNat)
    (Fenced roomId a.activeDeltaGeneration.value.toNat) (fun _ _ h hrely => fenced_of_rely h hrely)
    (fun _ => h) ?_ ?_ ?_
  · intro pending hblocked
    have hfenced := h (.inr (by simp [hblocked]))
    refine wp_mono ?_ (fenced_resolve ha (ha.blocked pending hblocked).2 hfenced)
    intro r t ht
    cases r with
    | ok proof => exact ht
    | error failure => exact ht
  · intro pending endOffset lifecycle lastError t _ hend _ _
    exact hend.elim id id
  · intro pending endOffset next history doc t _ ht _ _ _ _ _ _
    exact ht

/-- A rotation moves the bound up by one, and so does the generation if it succeeds. -/
theorem fences_rotate :
    wp ((fencedEnvironment Doc roomId config).serve task)
      ((fencedEnvironment Doc roomId config).contract (Kept Doc roomId config))
      a.rotateGeneration (fun r t => r.1.Fences roomId t) w := by
  have hc := kept_grounded Policy.fenced (RoomActor.Placed roomId config) task
    (Kept Doc roomId config)
  refine RoomActor.wp_rotateGeneration (fun _ => h) fun hready hblocked => ?_
  have hfenced : Fenced roomId (a.activeDeltaGeneration.value.toNat + 1) w :=
    (h (.inl hready)).mono (Nat.le_succ _)
  rw [ha.room]
  refine wp_rotateRoom hc (fun _ _ h hrely => fenced_of_rely h hrely) hfenced ?_
    (fun _ => fenced_keeps nofun) ?_ ?_ ?_ ?_
  · intro t hkept
    obtain ⟨records, hrecords⟩ := hkept.stored
    exact ⟨records, hrecords.manifest.log⟩
  · intro record bytes _ _
    refine fenced_keeps ?_
    intro stream producer body heq
    cases heq
    exact checkpointStream_ne_manifestStream
  · intro result hvalid t x t' ht hkept hserve
    obtain ⟨⟨hbound, hprepared⟩, hchecked⟩ := ht
    have hserved := served_of_confined hserve
    have hgrow := served_grows hserved
    have hrevision := (hprepared.linked fun _ h => h.2.stored).1
    refine ⟨⟨hserve.2.2, trivial⟩, ⟨hbound.publish hkept.stored hvalid ?_ hserved,
      Prepared.stable result _ _ hgrow hprepared⟩, CheckedAgainst.stable _ _ _ _ hgrow hchecked⟩
    rw [hrevision]
    exact Nat.lt_succ_self _
  · intro error t _ hlive
    rcases hlive with hunavailable | hnot
    · cases hunavailable
    · exact absurd hblocked hnot
  · intro result t ht hrotated _
    show Fenced roomId result.nextDeltaGeneration.value.toNat t
    rw [hrotated.next]
    exact ht

/-- An update that is acknowledged has found the manifest within its bound. -/
theorem fences_update {connectionId : UInt64} {batchId : BatchId} {updates : List Bytes}
    {peer : PeerSender} :
    wp ((fencedEnvironment Doc roomId config).serve task)
      ((fencedEnvironment Doc roomId config).contract (Kept Doc roomId config))
      (a.update connectionId batchId updates peer)
      (fun r t => r.1.Fences roomId t ∧
        ∀ receiver ref, .send receiver (.ack ref batchId .ok) ∈ r.2 →
          Fenced roomId a.activeDeltaGeneration.value.toNat t) w := by
  refine RoomActor.wp_update ?_ ?_
  · intro status hrefused
    refine ⟨h, ?_⟩
    intro receiver ref hmem
    have hne := (RoomActor.admitUpdate_error_ne hrefused).1
    simp only [sendAck, List.mem_singleton, Output.send.injEq, ProtocolMessage.ack.injEq] at hmem
    exact absurd hmem.2.2.2.symm hne
  · intro admission hadmitted
    have hfenced := h (.inl hadmitted.ready)
    refine wp_mono ?_ (fenced_resolve ha hadmitted.prepares hfenced)
    intro r t ht
    refine ⟨?_, fun _ _ _ => ht⟩
    match r with
    | .ok proof => exact fun _ => ht
    | .error (.definitelyRejected kind message) => exact fun _ => ht
    | .error (.outcomeUnknown error) => exact fun _ => ht

theorem fences_handle (command : Command) :
    wp ((fencedEnvironment Doc roomId config).serve task)
      ((fencedEnvironment Doc roomId config).contract (Kept Doc roomId config))
      (a.handle command)
      (fun r t => r.1.Fences roomId t ∧ ∀ connectionId batchId updates peer,
        command = .update connectionId batchId updates peer →
        ∀ receiver ref, .send receiver (.ack ref batchId .ok) ∈ r.2 →
          Fenced roomId a.activeDeltaGeneration.value.toNat t) w := by
  refine RoomActor.wp_handle ?_ ?_ ?_ ?_ ?_ ?_ ?_
  · intro hcommand
    exact ⟨h, by simp [hcommand]⟩
  · intro hcommand
    refine wp_mono ?_ (fences_retry ha h)
    exact fun r t ht => ⟨ht, by simp [hcommand]⟩
  · intro hcommand
    refine wp_mono ?_ (fences_rotate ha h)
    exact fun r t ht => ⟨ht, by simp [hcommand]⟩
  · intro _
    refine ⟨h, ?_⟩
    intro connectionId batchId updates peer hcommand receiver ref hmem
    subst hcommand
    simp [RoomActor.rejectUnavailable, sendAck] at hmem
  · intro connectionId version peer hcommand _
    obtain ⟨peers, ids, hjoin⟩ := a.join_fst connectionId version peer
    rw [hjoin]
    exact ⟨h, by simp [hcommand]⟩
  · intro connectionId batchId updates peer hcommand _
    subst hcommand
    refine wp_mono ?_ (fences_update ha h)
    intro r t ht
    refine ⟨ht.1, ?_⟩
    intro _ _ _ _ hsame
    cases hsame
    exact ht.2
  · intro connectionId hcommand _
    exact ⟨h, by simp [hcommand]⟩

end Programs

/-! ## Runs -/

/-- A command that has completed leaves the room fenced, and has acknowledged nothing on a
generation beyond the bound. -/
theorem fences_completed {a : RoomActor Doc} {command : Command} {r : RoomActor Doc × List Output}
    {before after : World} (hkept : Kept Doc roomId config before) (ha : a.Seated roomId config)
    (h : a.Fences roomId before)
    (hcompletes : Completes (fencedEnvironment Doc roomId config) (.command command a)
      (a.handle command) before r after) :
    r.1.Fences roomId after ∧
      ∀ connectionId batchId updates peer, command = .update connectionId batchId updates peer →
        ∀ receiver ref, .send receiver (.ack ref batchId .ok) ∈ r.2 →
          Fenced roomId a.activeDeltaGeneration.value.toNat after := by
  obtain ⟨t, hrun, hrely⟩ := hcompletes
  obtain ⟨_, hfences, hacked⟩ := hrun.sound
    (c := (fencedEnvironment Doc roomId config).contract (Kept Doc roomId config))
    (fun _ _ h hrely => kept_of_rely h hrely) hkept (fences_handle ha h command)
  refine ⟨fun hlive => fenced_of_rely (hfences hlive) hrely, ?_⟩
  intro connectionId batchId updates peer hcommand receiver ref hmem
  exact fenced_of_rely (hacked connectionId batchId updates peer hcommand receiver ref hmem) hrely

/-- An idle room is fenced at its generation. -/
theorem fences_idle {a : RoomActor Doc} {events : List (Event (gateway Doc roomId config) World)}
    (hreach : Reachable (fencedEnvironment Doc roomId config) (fun w => w = World.empty)
      ⟨w, .idle a, events⟩) : a.Fences roomId w := by
  refine Reachable.idle_rule (J := fun w (a : RoomActor Doc) => a.Fences roomId w) ?_ ?_ ?_ hreach
  · intro boot before a after hstarted hcompletes
    obtain ⟨events, hdown, _, hkept⟩ := hstarted
    obtain ⟨t, hrun, hrely⟩ := hcompletes
    have hinflight : before.inflight = [] := RoomReachable.inflight_down hdown.of_within rfl
    obtain ⟨_, hfences⟩ := hrun.sound
      (c := (fencedEnvironment Doc roomId config).contract (Kept Doc roomId config))
      (fun _ _ h hrely => kept_of_rely h hrely) hkept (fences_boot boot hkept hinflight)
    exact fun hlive => fenced_of_rely (hfences hlive) hrely
  · intro command before a r after hreceived hfences hcompletes
    obtain ⟨events, hidle, _, ha⟩ := hreceived
    have hkept : Kept Doc roomId config before := RoomReachable.kept hidle.of_within
    exact (fences_completed hkept ha.toSeated hfences hcompletes).1
  · intro w w' a hfences hdrift hlive
    exact fenced_of_drift (hfences hlive) hdrift

/-- As long as no append of a crashed process to the manifest takes effect while a later process
is up, no update is acknowledged on a generation that the manifest has superseded. -/
theorem superseded_generation_not_acked {g : System (gateway Doc roomId config) World}
    (hreach : RoomReachable (Policy.fenced : Policy Doc roomId config) g) :
    ∀ (connectionId : UInt64) (batchId : BatchId) (updates : List Bytes) (peer : PeerSender)
      (before : World) (a : RoomActor Doc) (outputs : List Output) (after : World)
      (a' : RoomActor Doc),
      .handled (.update connectionId batchId updates peer) before a outputs after a' ∈ g.events →
      ∀ receiver ref, .send receiver (.ack ref batchId .ok) ∈ outputs →
        ¬ Superseded roomId a.activeDeltaGeneration after.disk := by
  intro connectionId batchId updates peer before a outputs after a' hmem receiver ref hacked
  obtain ⟨⟨events, hidle, _, ha⟩, hcompletes⟩ := hreach.inKept.traced.handled hmem
  have hkept : Kept Doc roomId config before := RoomReachable.kept hidle.of_within
  obtain ⟨_, hfenced⟩ := fences_completed hkept ha.toSeated (fences_idle hidle) hcompletes
  exact (hfenced _ _ _ _ rfl receiver ref hacked).not_superseded
    (kept_of_completes hkept hcompletes).stored

end

open Sample

/-- Scripts in which what a crashed process has sent to the manifest does not take effect any
more. -/
def fencedDirection (config : ActorConfig) : Direction config where
  policy := .fenced
  permits _ _ := true
  permits_fate _ := trivial
  allows _ _ _ _ _ := true
  answers_boot _ _ _ _ := trivial
  answers_command _ := trivial
  delivers w app := decide (app.stream = (manifestStream "r").physical →
    app ∈ w.inflight ∨ ¬ w.disk.Accepts app)
  delivers_deliver h _ _ hstream := of_decide_eq_true h hstream
  accepts _ _ := true
  accepts_accept _ := trivial

/-- An acknowledged update in a generation. -/
def acksOn (generation : GenerationId) (events : List (Event (sampleGateway .default) World)) :
    Bool :=
  events.any (reportsTurn fun command _ a outputs _ _ =>
    decide (command = .update 1 (sampleBatch 1) [[1, 0]] 7) &&
    decide (a.activeDeltaGeneration = generation) &&
    decide (.send 7 (.ack "r" (sampleBatch 1) .ok) ∈ outputs))

theorem exists_of_acksOn {generation : GenerationId}
    {events : List (Event (sampleGateway .default) World)} (h : acksOn generation events = true) :
    ∃ before a outputs after a',
      .handled (.update 1 (sampleBatch 1) [[1, 0]] 7) before a outputs after a' ∈ events ∧
      a.activeDeltaGeneration = generation ∧
      .send 7 (.ack "r" (sampleBatch 1) .ok) ∈ outputs := by
  obtain ⟨command, before, a, outputs, after, a', hmem, hturn⟩ := exists_turn h
  simp only [Bool.and_eq_true, decide_eq_true_eq] at hturn
  obtain ⟨⟨hcommand, hgeneration⟩, hsent⟩ := hturn
  subst hcommand
  exact ⟨before, a, outputs, after, a', hmem, hgeneration, hsent⟩

/-- A rotation whose record is sent twice, and the first append of it arrives late. -/
def rotated : List (Move (sampleGateway .default) Fate Append) :=
  [.boot (sampleBoot 1) (answeredAll 4), .command (.join 1 [] 7) [],
    .command .rotate (answeredAll 9 ++ [.delayed "timeout", .answered])]

/-- The late append of the room itself does no harm. -/
theorem superseded_generation_not_acked_rotated :
    ∃ (g : System (sampleGateway .default) World) (before : World) (a : RoomActor OpDoc)
      (outputs : List Output) (after : World) (a' : RoomActor OpDoc),
      RoomReachable (Policy.fenced : Policy OpDoc "r" .default) g ∧
      .handled (.update 1 (sampleBatch 1) [[1, 0]] 7) before a outputs after a' ∈ g.events ∧
      a.activeDeltaGeneration = ⟨1⟩ ∧ .send 7 (.ack "r" (sampleBatch 1) .ok) ∈ outputs ∧
      ¬ Superseded "r" a.activeDeltaGeneration after.disk := by
  have hrun : (((fencedDirection .default).director.run rotated ⟨World.empty, .down, []⟩).bind
      fun g => g.world.inflight.head?).any (fun app =>
        ((fencedDirection .default).director.run (rotated ++ [.drift app,
          .command (.update 1 (sampleBatch 1) [[1, 0]] 7) (answeredAll 1)])
          ⟨World.empty, .down, []⟩).any fun g => acksOn ⟨1⟩ g.events) = true := by
    decide +kernel
  obtain ⟨app, _, hrun⟩ := (Option.any_eq_true _ _).mp hrun
  obtain ⟨g, hreach, hend⟩ := Direction.exists_of_run hrun
  obtain ⟨before, a, outputs, after, a', hmem, hgeneration, hsent⟩ := exists_of_acksOn hend
  exact ⟨g, before, a, outputs, after, a', hreach, hmem, hgeneration, hsent,
    superseded_generation_not_acked hreach _ _ _ _ _ _ _ _ _ hmem _ _ hsent⟩

/-- A rotation that gives up on its record, and the end of its process. -/
def abandoned : List (Move (sampleGateway .default) Fate Append) :=
  [.boot (sampleBoot 1) (answeredAll 4),
    .command .rotate (answeredAll 9 ++ List.replicate 6 (.delayed "timeout")), .crash]

/-- The record of a crashed process takes effect after the room has been started again, and the
room acknowledges an update on the generation that it has left. -/
theorem superseded_generation_acked :
    ∃ (g : System (sampleGateway .default) World) (before : World) (a : RoomActor OpDoc)
      (outputs : List Output) (after : World) (a' : RoomActor OpDoc),
      RoomReachable (Policy.late : Policy OpDoc "r" .default) g ∧
      .handled (.update 1 (sampleBatch 1) [[1, 0]] 7) before a outputs after a' ∈ g.events ∧
      .send 7 (.ack "r" (sampleBatch 1) .ok) ∈ outputs ∧
      Superseded "r" a.activeDeltaGeneration after.disk := by
  have hrun : (((lateDirection .default).director.run abandoned ⟨World.empty, .down, []⟩).bind
      fun g => g.world.orphans.head?).any (fun app =>
        ((lateDirection .default).director.run (abandoned ++ [.boot (sampleBoot 2) (answeredAll 4),
          .drift app, .command (.join 1 [] 7) [],
          .command (.update 1 (sampleBatch 1) [[1, 0]] 7) (answeredAll 1)])
          ⟨World.empty, .down, []⟩).any fun g =>
            g.events.any (reportsTurn fun command _ a outputs after _ =>
              decide (command = .update 1 (sampleBatch 1) [[1, 0]] 7) &&
              decide (.send 7 (.ack "r" (sampleBatch 1) .ok) ∈ outputs) &&
              decide (188 * a.activeDeltaGeneration.value.toNat <
                (after.disk.read (manifestStream "r").physical).length))) = true := by
    decide +kernel
  obtain ⟨app, _, hrun⟩ := (Option.any_eq_true _ _).mp hrun
  obtain ⟨g, hreach, hend⟩ := Direction.exists_of_run hrun
  obtain ⟨command, before, a, outputs, after, a', hmem, hturn⟩ := exists_turn hend
  simp only [Bool.and_eq_true, decide_eq_true_eq] at hturn
  obtain ⟨⟨hcommand, hsent⟩, hlength⟩ := hturn
  subst hcommand
  obtain ⟨⟨events, hidle, _⟩, hcompletes⟩ := hreach.inKept.traced.handled hmem
  have hkept := kept_of_completes (RoomReachable.kept hidle.of_within) hcompletes
  exact ⟨g, before, a, outputs, after, a', hreach, hmem, hsent,
    (superseded_iff hkept.stored).mpr hlength⟩

end LoroGateway
