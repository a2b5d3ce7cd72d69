import LoroGateway.Attempts
import LoroGateway.Quiet
import LoroGateway.Scripted
import LoroGateway.UpdateOutcome

/-!
# Answers that leave the outcome unclear

`resolve_append` submits an append again when its answer got lost, and only the last answer
counts: a rejection after a lost answer is taken for the outcome of the whole update.
`ambiguity_never_downgraded` says what holds as long as no update is answered in this way, and
`ambiguity_downgraded` is a run in which one is.
-/

namespace LoroGateway

open ByteCodec CrashLogic CrashLogic.Server

section Actor

variable [Hashing] {Doc : Type} [Loro Doc] {roomId : String} {config : ActorConfig}

/-! ## The programs of an actor -/

/-- Nothing was committed between two worlds. -/
def Uncommitted (w t : World) : Prop :=
  t.disk = w.disk ∧ ∃ attempts, t.journal = attempts ++ w.journal ∧
    ∀ attempt ∈ attempts, attempt.committed = false

omit [Hashing] in
theorem Uncommitted.refl (w : World) : Uncommitted w w := ⟨rfl, [], rfl, nofun⟩

/-- A definite status other than success is sent only when nothing was committed. -/
def NacksTruly : Event (gateway Doc roomId config) World → Prop
  | .handled (.update _ batchId _ _) before _ outputs after _ =>
    ∀ receiver ref status, .send receiver (.ack ref batchId status) ∈ outputs →
      status ≠ .ok → status ≠ .unknown → Uncommitted before after
  | _ => True

section Programs

variable {serve : Serve Request Answer World} {F : World → Prop} {w : World}
  {events : List (Event (gateway Doc roomId config) World)}
  (hc : Grounded serve (Contract.orderly Doc roomId config F))
  (hkept : ∀ {u req x t}, serve u req x t → Kept Doc roomId config t)
  (hF : ∀ {t}, Straight roomId t.journal → F t)

include hc hkept hF

theorem accounts_boot {boot : Boot} (hfresh : FreshBoot roomId w boot)
    (hstraight : Straight roomId w.journal) :
    wp serve (Contract.orderly Doc roomId config F) (RoomActor.activate roomId config boot)
      (fun (a : RoomActor Doc) t => Straight roomId t.journal ∧
        ∀ events : List (Event (gateway Doc roomId config) World),
          a.Accounts t (.booted boot t a :: events)) w := by
  have hpost : ∀ (a : RoomActor Doc) t, t.journal = w.journal →
      (a.Live → a.lifecycle = .ready) → a.bootId = boot.bootId →
      (∃ generation, a.producerId = producerIdForGeneration boot.bootId roomId generation) →
      Straight roomId t.journal ∧ ∀ events : List (Event (gateway Doc roomId config) World),
          a.Accounts t (.booted boot t a :: events) := by
    intro a t hjournal hlive hboot hproducer
    refine ⟨hjournal ▸ hstraight, fun events => ⟨?_, ?_, ?_⟩⟩
    · intro hstill attempt hmem generation _ _
      exact .inl ⟨boot, t, a, List.mem_cons_self, hlive hstill, hmem⟩
    · intro attempt hmem _ hid
      obtain ⟨generation, hproducer⟩ := hproducer
      rw [hjournal] at hmem
      exact absurd (hid.trans hproducer) (hfresh attempt hmem generation)
    · intro generation _ attempt hmem _
      rw [hjournal] at hmem
      rw [hboot]
      exact hfresh attempt hmem generation
  refine RoomActor.wp_activate hc (stable_alone fun t => t.journal = w.journal)
    (fun _ h => h.1.stored) rfl ?_ ?_ ?_ ?_
  · intro stream u x t hu _ hserve
    have hsame : t.journal = w.journal := by
      rcases (served_ensureStream (hc.sub hserve)).1 with rfl | rfl
      · exact hu
      · exact hu
    exact ⟨⟨⟨hkept hserve, hF (hsame ▸ hstraight)⟩, trivial⟩, hsame⟩
  · intro endOffset lifecycle lastError t hjournal _
    exact hpost _ t hjournal (fun h => h.resolve_right (absurd rfl)) rfl ⟨.zero, rfl⟩
  · intro records checkpoint frames recovery t hjournal _ _
    exact hpost _ t hjournal (fun _ => rfl) rfl ⟨recovery.activeDeltaGeneration, rfl⟩
  · intro _ endOffset history doc t _ _ hjournal _ _ _
    exact hpost _ t hjournal (fun _ => rfl) rfl ⟨.zero, rfl⟩

variable {a : RoomActor Doc} (ha : a.Seated roomId config) (h : a.Accounts w events)
  (hstraight : Straight roomId w.journal)

include ha hstraight

/-- What the next append of an actor leaves. -/
theorem resolution_next {pending : PendingAppend} (hprepares : a.Prepares pending)
    (hfits : Fits w.journal pending.app) :
    wp serve (Contract.orderly Doc roomId config F) (resolveAppend a.config pending)
      (fun r t => Resolution serve pending w r t ∧ w.Extends t) w := by
  refine wp_reaches World.Extends.refl (fun h h' => h.trans h') ?_
    (fun hserve => served_extends (hc.sub hserve)) (resolution_append hc ?_)
  · intro u t hrely
    obtain rfl : u = t := hrely
    exact .refl u
  · intro u x t attempts hserve hjournal halike
    refine ⟨hkept hserve, hF ?_⟩
    rw [hjournal]
    exact hstraight.tried ha hprepares hfits halike

include h

theorem accounts_retry :
    wp serve (Contract.orderly Doc roomId config F) a.retryPending
      (fun r t => Straight roomId t.journal ∧ r.1.Accounts t events) w := by
  cases hblocked : a.blocked with
  | none =>
    rw [RoomActor.retryPending, hblocked]
    exact ⟨hstraight, h⟩
  | some pending =>
    have hprepares := (ha.blocked pending hblocked).2
    have hlive : a.Live := .inr (by simp [hblocked])
    have honly : ∀ other, a.blocked = some other → other = pending := by
      intro other hother
      exact Option.some.inj (hother.symm.trans hblocked)
    have hfits := h.fits hprepares honly
    refine RoomActor.wp_retryPending hc
      (fun t => w.Extends t ∧ ∃ attempts, t.journal = attempts ++ w.journal ∧
        ∀ attempt ∈ attempts, attempt.app = pending.app)
      (fun t => w.Extends t ∧ ∃ attempts, t.journal = attempts ++ w.journal ∧
        (∀ attempt ∈ attempts, attempt.app = pending.app) ∧
        ∃ outcome committed, ⟨pending.app, .ok outcome, committed⟩ ∈ attempts ∧
          EndsAt (t.disk.read pending.targetStream) outcome.nextOffset.toNat pending.bytes)
      (stable_alone _) (fun _ => ⟨hstraight, h⟩) ?_ ?_ ?_
    · intro other hother
      rw [honly other hother]
      refine wp_mono ?_ (resolution_next hc hkept hF ha hstraight hprepares hfits)
      intro r t hend
      obtain ⟨hresolution, hle⟩ := hend
      cases r with
      | error failure => exact ⟨hle, hresolution.tried hc.sub⟩
      | ok proof =>
        cases hresolution with
        | resolved hjournal halike hanswered => exact ⟨hle, _, hjournal, halike, hanswered⟩
    · intro other endOffset lifecycle lastError t _ hend _
      have htried : w.Extends t ∧ ∃ attempts, t.journal = attempts ++ w.journal ∧
          ∀ attempt ∈ attempts, attempt.app = pending.app := by
        cases hend with
        | inl hfailed => exact hfailed
        | inr hsettled =>
          obtain ⟨hle, attempts, hjournal, halike, _⟩ := hsettled
          exact ⟨hle, attempts, hjournal, halike⟩
      obtain ⟨hle, attempts, hjournal, halike⟩ := htried
      refine ⟨hjournal ▸ hstraight.tried ha hprepares hfits halike, ?_⟩
      exact h.tried ha hlive hprepares hle hjournal halike (fun _ _ _ => hblocked)
        (fun _ hother => hother) rfl rfl rfl rfl rfl
    · intro other endOffset next history doc t hother hend _ _ _ _ hnext
      obtain ⟨hle, attempts, hjournal, halike, hanswered⟩ := hend
      refine ⟨hjournal ▸ hstraight.tried ha hprepares hfits halike, ?_⟩
      rw [honly other hother, hprepares.producer] at hnext
      exact h.resolved ha hlive hprepares hle hjournal halike hanswered honly rfl rfl rfl rfl
        hnext

theorem accounts_rotate :
    wp serve (Contract.orderly Doc roomId config F) a.rotateGeneration
      (fun r t => Straight roomId t.journal ∧ r.1.Accounts t events) w := by
  refine RoomActor.wp_rotateGeneration (fun _ => ⟨hstraight, h⟩) fun hready hblocked => ?_
  rw [ha.room]
  refine wp_mono ?_ (wp_of_allowed
    (stable_alone fun t => w.Extends t ∧ Straight roomId t.journal ∧
      ∀ attempt ∈ t.journal, attempt ∈ w.journal ∨ ∀ generation,
        attempt.app.stream ≠ (deltaStreamForGeneration roomId generation).physical)
    ?_ (always_rotateRoom a.activeDeltaGeneration a.activeDeltaEndOffset a.doc a.history
      a.config.ambiguousRetries) ⟨.refl w, hstraight, fun _ hmem => .inl hmem⟩)
  · intro r t hend
    obtain ⟨hrotated, hle, hstraight', hothers⟩ := hend
    cases r with
    | error error =>
      exact ⟨hstraight', h.stays hle hothers ha (fun _ => .inl hready) rfl rfl rfl rfl rfl rfl⟩
    | ok rotated =>
      obtain ⟨hnext, hstream⟩ := hrotated rotated rfl
      refine ⟨hstraight', h.rotated hle hothers hready hblocked rfl hstream ?_ ?_⟩
      · apply UInt64.lt_iff_toNat_lt.mpr
        show _ < rotated.nextDeltaGeneration.value.toNat
        omega
      · rw [← ha.room]
        rfl
  · intro req hspares u x t hu _ hserve
    obtain ⟨hle, hbefore, hothers⟩ := hu
    have hserved := hc.sub hserve
    have hafter := hbefore.spares hspares hserved
    refine ⟨⟨⟨hkept hserve, hF hafter⟩, trivial⟩, hle.trans (served_extends hserved), hafter, ?_⟩
    cases Straight.journal_of_spares hspares hserved with
    | inl hsame => rwa [hsame]
    | inr hmore =>
      obtain ⟨attempt, hjournal, hother⟩ := hmore
      rw [hjournal]
      exact List.forall_mem_cons.mpr ⟨.inr hother, hothers⟩

theorem accounts_update {connectionId : UInt64} {batchId : BatchId} {updates : List Bytes}
    {peer : PeerSender}
    (hdecisive : ∀ {u t pending kind message}, a.Prepares pending →
      serve u pending.request (.error (.rejected kind message)) t →
      ∀ attempt ∈ u.journal, attempt.app = pending.app → ¬ attempt.Unclear) :
    wp serve (Contract.orderly Doc roomId config F) (a.update connectionId batchId updates peer)
      (fun r t => Straight roomId t.journal ∧ r.1.Accounts t events ∧
        ∀ receiver ref status, .send receiver (.ack ref batchId status) ∈ r.2 →
          status ≠ .ok → status ≠ .unknown → Uncommitted w t) w := by
  refine RoomActor.wp_update (fun status _ => ⟨hstraight, h, fun _ _ _ _ _ _ => .refl w⟩) ?_
  intro admission hadmitted
  have hprepares := hadmitted.prepares
  have hlive : a.Live := .inl hadmitted.ready
  have hnone : ∀ other, a.blocked = some other → other = admission.pending := by
    intro other hother
    rw [hadmitted.unblocked] at hother
    cases hother
  have hfits := h.fits hprepares hnone
  refine wp_mono ?_ (resolution_next hc hkept hF ha hstraight hprepares hfits)
  intro r t hend
  obtain ⟨hresolution, hle⟩ := hend
  have hack : ∀ {receiver ref status}, .send receiver (.ack ref batchId status) ∈
      (a.finishUpdate connectionId batchId updates peer admission r).2 →
      status = RoomActor.updateStatus r := by
    intro receiver ref status hmem
    have hsent : (receiver, ref, batchId, status) ∈ (a.finishUpdate connectionId batchId updates
        peer admission r).2.filterMap Output.ack? := List.mem_filterMap.mpr ⟨_, hmem, rfl⟩
    rw [RoomActor.acks_finishUpdate, List.mem_singleton] at hsent
    simp only [Prod.mk.injEq] at hsent
    exact hsent.2.2.2
  cases hresolution with
  | resolved hjournal halike hanswered =>
    refine ⟨hjournal ▸ hstraight.tried ha hprepares hfits halike,
      h.resolved ha hlive hprepares hle hjournal halike hanswered hnone rfl rfl rfl rfl
        hadmitted.next, ?_⟩
    intro receiver ref status hmem hok _
    exact absurd (hack hmem) hok
  | unknown hjournal halike =>
    refine ⟨hjournal ▸ hstraight.tried ha hprepares hfits halike,
      h.tried ha hlive hprepares hle hjournal halike (fun _ _ _ => rfl) ?_ rfl rfl rfl rfl rfl,
      ?_⟩
    · intro other hother
      rw [hadmitted.unblocked] at hother
      cases hother
    · intro receiver ref status hmem _ hunknown
      exact absurd (hack hmem) hunknown
  | @rejected kind message u _ attempts hjournal hunclear hfirst hserve =>
    -- an unclear attempt would have kept the store from rejecting this one
    have hnil : attempts = [] := by
      cases attempts with
      | nil => rfl
      | cons attempt attempts =>
        obtain ⟨happ, hopen⟩ := hunclear attempt List.mem_cons_self
        have hmem : attempt ∈ u.journal := by
          rw [hjournal]
          exact List.mem_cons_self
        exact absurd hopen (hdecisive hprepares hserve attempt hmem happ)
    have hsame : u = w := hfirst hnil
    subst hsame
    obtain ⟨hdisk, hafter⟩ := served_rejected (hc.sub hserve)
    let attempt : Attempt := ⟨admission.pending.app, .error (.rejected kind message), false⟩
    have hone : t.journal = [attempt] ++ u.journal := hafter
    have halike : ∀ other ∈ [attempt], other.app = admission.pending.app := by
      simp [attempt]
    refine ⟨hone ▸ hstraight.tried ha hprepares hfits halike,
      h.tried ha hlive hprepares hle hone halike ?_ (fun _ hother => hother) rfl rfl rfl rfl rfl,
      ?_⟩
    · intro other hmem hopen
      rw [List.mem_singleton.mp hmem] at hopen
      exact absurd hopen Attempt.not_unclear_rejected
    · intro _ _ _ _ _ _
      exact ⟨hdisk, [attempt], hone, by simp [attempt]⟩

theorem accounts_handle {command : Command}
    (hdecisive : ∀ {connectionId batchId updates peer u t pending kind message},
      command = .update connectionId batchId updates peer → a.Prepares pending →
      serve u pending.request (.error (.rejected kind message)) t →
      ∀ attempt ∈ u.journal, attempt.app = pending.app → ¬ attempt.Unclear) :
    wp serve (Contract.orderly Doc roomId config F) (a.handle command)
      (fun r t => Straight roomId t.journal ∧ r.1.Accounts t events ∧
        NacksTruly
          (.handled command w a r.2 t r.1 : Event (gateway Doc roomId config) World)) w := by
  have hrefl : w.Extends w := .refl w
  have hsilent : ∀ {a' : RoomActor Doc} {outputs : List Output} {t : World},
      (∀ connectionId batchId updates peer, command ≠ .update connectionId batchId updates peer) →
      NacksTruly (.handled command w a outputs t a' : Event (gateway Doc roomId config) World) := by
    intro a' outputs t hnot
    cases command with
    | update connectionId batchId updates peer => exact absurd rfl (hnot _ _ _ _)
    | _ => trivial
  refine RoomActor.wp_handle ?_ ?_ ?_ ?_ ?_ ?_ ?_
  · intro hcommand
    exact ⟨hstraight, h, hsilent (by simp [hcommand])⟩
  · intro hcommand
    refine wp_mono ?_ (accounts_retry hc hkept hF ha h hstraight)
    exact fun r t hend => ⟨hend.1, hend.2, hsilent (by simp [hcommand])⟩
  · intro hcommand
    refine wp_mono ?_ (accounts_rotate hc hkept hF ha h hstraight)
    exact fun r t hend => ⟨hend.1, hend.2, hsilent (by simp [hcommand])⟩
  · intro _
    refine ⟨hstraight, h, ?_⟩
    cases command with
    | update connectionId batchId updates peer => exact fun _ _ _ _ _ _ => .refl w
    | _ => trivial
  · intro connectionId version peer hcommand _
    obtain ⟨peers, ids, hjoin⟩ := a.join_fst connectionId version peer
    rw [hjoin]
    refine ⟨hstraight, ?_, hsilent (by simp [hcommand])⟩
    exact h.stays hrefl (fun _ hmem => .inl hmem) ha id rfl rfl rfl rfl rfl rfl
  · intro connectionId batchId updates peer hcommand _
    subst hcommand
    refine accounts_update hc hkept hF ha h hstraight ?_
    exact fun hprepares hserve => hdecisive rfl hprepares hserve
  · intro connectionId hcommand _
    refine ⟨hstraight, ?_, hsilent (by simp [hcommand])⟩
    exact h.stays hrefl (fun _ hmem => .inl hmem) ha id rfl rfl rfl rfl rfl rfl

end Programs

/-! ## Runs -/

/-- No update is rejected after an answer that has left its append unclear. -/
def Policy.decisive : Policy Doc roomId config where
  fate _ _ := True
  answer task w req x :=
    match task, req, x with
    | .command (.update _ _ _ _) _, .append stream producer body, .error (.rejected _ _) =>
      ∀ attempt ∈ w.journal, attempt.app = ⟨stream, producer, body⟩ → ¬ attempt.Unclear
    | _, _, _ => True
  deliver _ _ _ := False
  accept _ _ _ _ := True

variable {w : World} {a : RoomActor Doc}
  {events : List (Event (gateway Doc roomId config) World)}

/-- What the policy says of a rejection. -/
theorem not_unclear_of_rejected {L : World → RoomActor Doc → Prop} {command : Command}
    {connectionId : UInt64} {batchId : BatchId} {updates : List Bytes} {peer : PeerSender}
    {t t' : World} {pending : PendingAppend} {kind : RejectionKind} {message : String}
    (hserve : (keptWith (Policy.decisive : Policy Doc roomId config) L).serve (.command command a) t
      pending.request (.error (.rejected kind message)) t')
    (hcommand : command = .update connectionId batchId updates peer) :
    ∀ attempt ∈ t.journal, attempt.app = pending.app → ¬ attempt.Unclear := by
  subst hcommand
  obtain ⟨⟨_, _, hanswer, _⟩, _⟩ := hserve
  exact hanswer

theorem Straight.empty : Straight roomId World.empty.journal where
  unaltered := .nil
  named := nofun

/-- What a decisive run keeps: of the actor between two commands, and of the world and the
events at every moment. -/
def decisiveInvariant (Doc : Type) [Loro Doc] (roomId : String) (config : ActorConfig) :
    Invariant (gateway Doc roomId config) World :=
  .over (Kept Doc roomId config)
    (fun w a events =>
      Straight roomId w.journal ∧ (∀ event ∈ events, NacksTruly event) ∧ a.Accounts w events)
    fun w events => Straight roomId w.journal ∧ ∀ event ∈ events, NacksTruly event

theorem decisiveInvariant_preserved :
    (decisiveInvariant Doc roomId config).Preserved (keptEnvironment .decisive) := by
  have still : ∀ up w app, ¬ (Policy.decisive : Policy Doc roomId config).deliver up w app :=
    fun _ _ _ => id
  refine Policy.preserved_over still (fun _ h => ⟨h.1, h.2.1⟩)
    (fun _ h => ⟨h.1, List.forall_mem_cons.mpr ⟨trivial, h.2⟩⟩) ?_ ?_
  · intro w events boot hfresh hkept hstart
    refine wp_mono ?_ (accounts_boot (grounded_alone served_of_confined)
      (fun hserve => hserve.2.2) (fun h => ⟨h, hstart.2⟩) hfresh hstart.1)
    intro a t h
    exact ⟨h.1, List.forall_mem_cons.mpr ⟨trivial, hstart.2⟩, h.2 events⟩
  · intro w a events command _ ha hkept hidle
    refine wp_mono ?_ (accounts_handle (grounded_alone served_of_confined)
      (fun hserve => hserve.2.2) (fun h => ⟨h, hidle.2.1⟩) ha.toSeated hidle.2.2 hidle.1
      fun hcommand _ hserve => not_unclear_of_rejected hserve hcommand)
    intro r t h
    exact ⟨h.1, List.forall_mem_cons.mpr ⟨h.2.2, hidle.2.1⟩, h.2.1.event _⟩

theorem decisiveInvariant_empty (w : World) (hempty : w = World.empty) :
    (decisiveInvariant Doc roomId config).crash w [] := by
  subst hempty
  exact ⟨kept_empty, .empty, List.forall_mem_nil _⟩

/-- As long as no update is rejected after an answer that left its append unclear, a definite
status other than success says that nothing was committed, an unclear append is only ever
submitted again with the same bytes, and in a ready room each unclear append has been proved
to be in its stream, or the room has read its streams since. -/
theorem ambiguity_never_downgraded
    (hinj : Set.InjOn Hashing.sha256
      {input | ∃ bootId generation, input = producerInput bootId roomId generation})
    {g : System (gateway Doc roomId config) World}
    (hreach : RoomReachable (Policy.decisive : Policy Doc roomId config) g) :
    (∀ event ∈ g.events, NacksTruly event) ∧
    (g.world.journal.Pairwise fun later earlier => ∀ generation generation',
      earlier.app.stream = (deltaStreamForGeneration roomId generation).physical →
      later.app.stream = (deltaStreamForGeneration roomId generation').physical →
      earlier.Unclear → earlier.app.producer = later.app.producer → earlier.app = later.app) ∧
    ∀ a, g.phase = .idle a → a.lifecycle = .ready → ∀ attempt ∈ g.world.journal, ∀ generation,
      attempt.app.stream = (deltaStreamForGeneration roomId generation).physical →
      attempt.Unclear → KnownAtStart g.events attempt ∨ attempt.Proved g.world := by
  obtain ⟨_, hstraight, hnacks⟩ := Reachable.crash_invariant decisiveInvariant_preserved
    decisiveInvariant_empty hreach.inKept
  refine ⟨hnacks, ?_, ?_⟩
  · refine hstraight.unaltered.imp_of_mem ?_
    intro later earlier hlater hearlier hsame generation generation' hdelta hdelta' hunclear
      hproducer
    obtain ⟨bootId, hid⟩ := hstraight.named earlier hearlier generation hdelta
    obtain ⟨bootId', hid'⟩ := hstraight.named later hlater generation' hdelta'
    rw [hproducer] at hid
    have hgeneration := producerId_generation hinj (hid.symm.trans hid')
    rw [← hgeneration] at hdelta'
    exact hsame generation hdelta hunclear (hdelta.trans hdelta'.symm) hproducer
  · intro a hidle hready attempt hmem generation hdelta hunclear
    obtain ⟨w, phase, events⟩ := g
    have hphase : phase = .idle a := hidle
    subst hphase
    obtain ⟨_, _, _, haccounts⟩ := Reachable.idle_invariant decisiveInvariant_preserved
      decisiveInvariant_empty hreach.inKept
    have hseated := (RoomReachable.placed hreach).toSeated
    obtain hknown | hproved | ⟨pending, hblocked, _⟩ :=
      haccounts.decided (.inl hready) attempt hmem generation hdelta hunclear
    · exact .inl hknown
    · exact .inr hproved
    · exact absurd hready (hseated.blocked pending hblocked).1

end Actor

open Sample

/-- Scripts in which an update is rejected at once or not at all. -/
def decisiveDirection (config : ActorConfig) : Direction config where
  policy := .decisive
  permits _ _ := true
  permits_fate _ := trivial
  allows _ command w req x :=
    match command, req, x with
    | .update _ _ _ _, .append stream producer body, .error (.rejected _ _) =>
      w.journal.all fun attempt =>
        decide (attempt.app = ⟨stream, producer, body⟩ → ¬ attempt.Unclear)
    | _, _, _ => true
  answers_boot _ _ _ _ := trivial
  answers_command := by
    intro a command w req x h
    cases command with
    | update connectionId batchId updates peer =>
      cases req with
      | append stream producer body =>
        match x, h with
        | .error (.rejected kind message), h =>
          intro attempt hmem
          exact of_decide_eq_true (List.all_eq_true.mp h attempt hmem)
        | .error (.ambiguous message), _ => exact True.intro
        | .error (.integrity message), _ => exact True.intro
        | .ok outcome, _ => exact True.intro
      | _ => exact True.intro
    | _ => exact True.intro
  delivers _ _ := false
  delivers_deliver := nofun
  accepts _ _ := true
  accepts_accept _ := trivial

/-- An update is rejected at once, the answers of the next one get lost, and its retry is
rejected before it succeeds. -/
theorem ambiguity_never_downgraded_retried :
    ∃ (w : World) (a : RoomActor OpDoc) (events : List (Event (sampleGateway .default) World)),
      RoomReachable Policy.decisive ⟨w, .idle a, events⟩ ∧ a.lifecycle = .ready ∧
      (∀ event ∈ events, NacksTruly event) ∧
      (∃ attempt ∈ w.journal, attempt.Unclear ∧ attempt.committed = true) ∧
      ∀ attempt ∈ w.journal, attempt.app.stream = (deltaStream "r").physical → attempt.Unclear →
        KnownAtStart events attempt ∨ attempt.Proved w := by
  have hrun : ((decisiveDirection .default).director.run
      [.boot (sampleBoot 1) (answeredAll 4), .command (.join 1 [] 7) [],
        .command (.update 1 (sampleBatch 1) [[1, 0]] 7)
          [.failed (.rejected .rateLimited "slow down")],
        .command (.update 1 (sampleBatch 2) [[1, 2]] 7) (List.replicate 6 (.lost "timeout")),
        .command .retryAmbiguous [.failed (.rejected .rateLimited "slow down")],
        .command .retryAmbiguous (answeredAll 3),
        .command (.update 1 (sampleBatch 3) [[1, 4]] 7) (answeredAll 1)]
      ⟨World.empty, .down, []⟩).any (whenIdle fun w a _ => decide (a.lifecycle = .ready) &&
        decide (∃ attempt ∈ w.journal, attempt.Unclear ∧ attempt.committed = true)) = true := by
    decide +kernel
  obtain ⟨w, a, events, hreach, hend⟩ := Direction.exists_idle_of_run hrun
  simp only [Bool.and_eq_true, decide_eq_true_eq] at hend
  obtain ⟨hready, hunclear⟩ := hend
  obtain ⟨hnacks, _, hdecided⟩ := ambiguity_never_downgraded injOn_producerInput hreach
  exact ⟨w, a, events, hreach, hready, hnacks, hunclear,
    fun attempt hmem hdelta => hdecided a rfl hready attempt hmem .zero hdelta⟩

/-- A lost append that took effect, a rejection, and other bytes with the same tuple. -/
def reusesTuple : List Attempt → Bool
  | [later, rejected, earlier] =>
    decide (earlier.answer = .error (.ambiguous "timeout") ∧ earlier.committed = true ∧
      rejected.answer = .error (.rejected .rateLimited "slow down") ∧
      earlier.app.stream = (deltaStream "r").physical ∧ later.app.stream = earlier.app.stream ∧
      later.app.producer = earlier.app.producer ∧ later.app.body ≠ earlier.app.body)
  | _ => false

theorem reusesTuple_eq_true {journal : List Attempt} (h : reusesTuple journal = true) :
    ∃ later rejected earlier, journal = [later, rejected, earlier] ∧
      earlier.answer = .error (.ambiguous "timeout") ∧ earlier.committed = true ∧
      rejected.answer = .error (.rejected .rateLimited "slow down") ∧
      earlier.app.stream = (deltaStream "r").physical ∧ later.app.stream = earlier.app.stream ∧
      later.app.producer = earlier.app.producer ∧ later.app.body ≠ earlier.app.body := by
  unfold reusesTuple at h
  split at h
  · exact ⟨_, _, _, rfl, of_decide_eq_true h⟩
  · cases h

/-- The append of an update takes effect and its answer is lost; the next attempt is rejected.
The update is refused as rate limited, the room is ready, and the next update submits other
bytes with the same producer tuple. -/
theorem ambiguity_downgraded :
    ∃ (g : System (sampleGateway .default) World) (before after : World) (b a : RoomActor OpDoc)
      (outputs : List Output) (later rejected earlier : Attempt),
      RoomReachable Policy.lossy g ∧
      .handled (.update 1 (sampleBatch 1) [[1, 0]] 7) before b outputs after a ∈ g.events ∧
      .send 7 (.ack "r" (sampleBatch 1) .rateLimited) ∈ outputs ∧ ¬ Uncommitted before after ∧
      a.lifecycle = .ready ∧ g.world.journal = [later, rejected, earlier] ∧
      earlier.answer = .error (.ambiguous "timeout") ∧ earlier.committed = true ∧
      rejected.answer = .error (.rejected .rateLimited "slow down") ∧
      earlier.app.stream = (deltaStream "r").physical ∧ later.app.stream = earlier.app.stream ∧
      later.app.producer = earlier.app.producer ∧ later.app.body ≠ earlier.app.body := by
  have hrun : ((lossyDirection .default).director.run
      [.boot (sampleBoot 1) (answeredAll 4), .command (.join 1 [] 7) [],
        .command (.update 1 (sampleBatch 1) [[1, 0]] 7)
          [.lost "timeout", .failed (.rejected .rateLimited "slow down")],
        .command (.update 1 (sampleBatch 2) [[1, 2]] 7) (answeredAll 2)]
      ⟨World.empty, .down, []⟩).any (fun g =>
        g.events.any (reportsTurn fun command before _ outputs after a =>
          decide (command = .update 1 (sampleBatch 1) [[1, 0]] 7) &&
          decide (.send 7 (.ack "r" (sampleBatch 1) .rateLimited) ∈ outputs) &&
          decide (before.journal = []) &&
          decide (∃ attempt ∈ after.journal, attempt.committed = true) &&
          decide (a.lifecycle = .ready)) &&
        reusesTuple g.world.journal) = true := by
    decide +kernel
  obtain ⟨g, hreach, hend⟩ := Direction.exists_of_run hrun
  obtain ⟨hturn, hjournal⟩ := Bool.and_eq_true_iff.mp hend
  obtain ⟨command, before, b, outputs, after, a, hevent, hturn⟩ := exists_turn hturn
  simp only [Bool.and_eq_true, decide_eq_true_eq] at hturn
  obtain ⟨⟨⟨⟨hcommand, hsent⟩, hbefore⟩, hcommitted⟩, hready⟩ := hturn
  subst hcommand
  have huncommitted : ¬ Uncommitted before after := by
    intro h
    obtain ⟨_, attempts, hafter, hnone⟩ := h
    obtain ⟨attempt, hattempt, htrue⟩ := hcommitted
    rw [hafter, hbefore, List.append_nil] at hattempt
    rw [hnone attempt hattempt] at htrue
    cases htrue
  obtain ⟨later, rejected, earlier, heq, hreused⟩ := reusesTuple_eq_true hjournal
  exact ⟨g, before, after, b, a, outputs, later, rejected, earlier, hreach, hevent, hsent,
    huncommitted, hready, heq, hreused⟩

end LoroGateway
