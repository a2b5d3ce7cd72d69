import LoroGateway.Follower

/-!
# The attempts of an append

An append may have taken effect although its answer got lost, and it is submitted again.

* `Attempt.Unclear` are the answers that leave this open.
* `Unaltered` says of a journal that an unclear attempt is only ever repeated, byte by byte.
* `Resolution` says what a resolution leaves in the journal.
* `RoomActor.Accounts` is what an actor knows of the attempts.
-/

namespace LoroGateway

open ByteCodec CrashLogic CrashLogic.Server

/-! ## The journal -/

/-- The answer leaves open whether the append took effect. -/
def Attempt.Unclear (attempt : Attempt) : Prop :=
  match attempt.answer with
  | .error (.ambiguous _) | .error (.integrity _) => True
  | .ok _ | .error (.rejected _ _) => False

instance (attempt : Attempt) : Decidable attempt.Unclear := by
  unfold Attempt.Unclear
  split <;> infer_instance

theorem Attempt.not_unclear_rejected {app : Append} {kind : RejectionKind} {message : String}
    {committed : Bool} : ¬ Attempt.Unclear ⟨app, .error (.rejected kind message), committed⟩ := id

section Journal

variable {journal : List Attempt} {app : Append}

/-- The append does not contradict an unclear attempt. -/
def Fits (journal : List Attempt) (app : Append) : Prop :=
  ∀ attempt ∈ journal, attempt.Unclear → attempt.app.stream = app.stream →
    attempt.app.producer = app.producer → attempt.app = app

theorem Fits.repeated (h : Fits journal app) {attempts : List Attempt}
    (hattempts : ∀ attempt ∈ attempts, attempt.app = app) : Fits (attempts ++ journal) app := by
  intro attempt hmem hunclear hstream hproducer
  cases List.mem_append.mp hmem with
  | inl hnew => exact hattempts attempt hnew
  | inr hold => exact h attempt hold hunclear hstream hproducer

end Journal

section

variable [Hashing] {roomId : String} {journal : List Attempt} {attempt : Attempt}

/-- An unclear attempt on a delta stream is only ever repeated. -/
def Unaltered (roomId : String) (journal : List Attempt) : Prop :=
  journal.Pairwise fun later earlier => ∀ generation,
    earlier.app.stream = (deltaStreamForGeneration roomId generation).physical →
    earlier.Unclear → earlier.app.stream = later.app.stream →
    earlier.app.producer = later.app.producer → earlier.app = later.app

theorem Unaltered.cons (h : Unaltered roomId journal) (hfits : Fits journal attempt.app) :
    Unaltered roomId (attempt :: journal) :=
  List.pairwise_cons.mpr ⟨fun earlier hmem _ _ hunclear hstream hproducer =>
    hfits earlier hmem hunclear hstream hproducer, h⟩

theorem Unaltered.cons_other (h : Unaltered roomId journal)
    (hother : ∀ generation,
      attempt.app.stream ≠ (deltaStreamForGeneration roomId generation).physical) :
    Unaltered roomId (attempt :: journal) :=
  List.pairwise_cons.mpr ⟨fun _ _ generation hdelta _ hstream _ =>
    absurd (hstream.symm.trans hdelta) (hother generation), h⟩

end

/-! ## Resolutions -/

/-- What a resolution that starts in `w` leaves. -/
inductive Resolution (serve : Serve Request Answer World) (pending : PendingAppend) (w : World) :
    Except AppendFailure DurableAppend → World → Prop
  /-- One of the attempts was answered, and the bytes of the frame were found. -/
  | resolved {proof : DurableAppend} {t : World} {attempts : List Attempt}
      (journal : t.journal = attempts ++ w.journal)
      (alike : ∀ attempt ∈ attempts, attempt.app = pending.app)
      (answered : ∃ outcome committed, ⟨pending.app, .ok outcome, committed⟩ ∈ attempts ∧
        EndsAt (t.disk.read pending.targetStream) outcome.nextOffset.toNat pending.bytes) :
      Resolution serve pending w (.ok proof) t
  /-- The last attempt was rejected, and those before it left the outcome unclear. -/
  | rejected {kind : RejectionKind} {message : String} {u t : World} {attempts : List Attempt}
      (journal : u.journal = attempts ++ w.journal)
      (unclear : ∀ attempt ∈ attempts, attempt.app = pending.app ∧ attempt.Unclear)
      (first : attempts = [] → u = w)
      (served : serve u pending.request (.error (.rejected kind message)) t) :
      Resolution serve pending w (.error (.definitelyRejected kind message)) t
  | unknown {error : StoreError} {t : World} {attempts : List Attempt}
      (journal : t.journal = attempts ++ w.journal)
      (alike : ∀ attempt ∈ attempts, attempt.app = pending.app) :
      Resolution serve pending w (.error (.outcomeUnknown error)) t

/-- Every attempt of a resolution submits the same append. -/
theorem Resolution.tried {serve : Serve Request Answer World} {pending : PendingAppend}
    {w t : World} {r : Except AppendFailure DurableAppend} (h : Resolution serve pending w r t)
    (hsub : ∀ {w req x w'}, serve w req x w' → served w req x w') :
    ∃ attempts, t.journal = attempts ++ w.journal ∧
      ∀ attempt ∈ attempts, attempt.app = pending.app := by
  cases h with
  | resolved hjournal halike => exact ⟨_, hjournal, halike⟩
  | unknown hjournal halike => exact ⟨_, hjournal, halike⟩
  | rejected hjournal hunclear _ hserve =>
    refine ⟨_ :: _, (served_rejected (hsub hserve)).2.trans (by rw [hjournal]; rfl), ?_⟩
    exact List.forall_mem_cons.mpr ⟨rfl, fun attempt hmem => (hunclear attempt hmem).1⟩

section Resolve

variable [Hashing] {serve : Serve Request Answer World} {pending : PendingAppend}
  {config : ActorConfig} {w : World} {inv : World → Prop} (hc : Grounded serve (.alone inv))
  (hinv : ∀ {u x t attempts}, serve u pending.request x t → t.journal = attempts ++ w.journal →
    (∀ attempt ∈ attempts, attempt.app = pending.app) → inv t)

include hc hinv

/-- The rule of the retry loop, after some attempts that left the outcome unclear. -/
theorem resolution_attempts {u : World} {attempts : List Attempt}
    (hjournal : u.journal = attempts ++ w.journal)
    (hunclear : ∀ attempt ∈ attempts, attempt.app = pending.app ∧ attempt.Unclear)
    (hfirst : attempts = [] → u = w) (left : Nat) :
    wp serve (.alone inv) (resolveAttempts config pending left) (Resolution serve pending w) u := by
  induction left using Nat.strong_induction_on generalizing u attempts with
  | _ left ih =>
    rw [resolveAttempts]
    intro v hrely _ x t hserve
    obtain rfl : u = v := hrely
    obtain ⟨committed, hafter⟩ := served_journal (hc.sub hserve)
    have hlonger : t.journal = (⟨pending.app, x, committed⟩ :: attempts) ++ w.journal := by
      rw [hafter, hjournal]
      rfl
    have halike : ∀ attempt ∈ (⟨pending.app, x, committed⟩ :: attempts : List Attempt),
        attempt.app = pending.app :=
      List.forall_mem_cons.mpr ⟨rfl, fun attempt hmem => (hunclear attempt hmem).1⟩
    have hinv' : inv t := hinv hserve hlonger halike
    refine ⟨hinv', trivial, ?_⟩
    cases x with
    | ok outcome =>
      cases outcome with
      | committed n =>
        exact .resolved hlonger halike
          ⟨.committed n, committed, List.mem_cons_self, served_committed (hc.sub hserve)⟩
      | duplicate n =>
        show wp serve _ ((resolveDuplicate config pending n).run >>= _) _ t
        have hstable : (Contract.alone inv).Stable fun t' => t' = t := by
          intro t₁ t₂ h hrely
          exact hrely.symm.trans h
        refine wp_bind.mpr (wp_resolveDuplicate hc hstable rfl ?_ ?_ hinv')
        · intro error t' h _
          subst h
          exact .unknown hlonger halike
        · intro t' h _ hends
          subst h
          exact .resolved hlonger halike ⟨.duplicate n, committed, List.mem_cons_self, hends⟩
    | error error =>
      cases error with
      | ambiguous message =>
        cases left with
        | zero => exact .unknown hlonger halike
        | succ left =>
          refine ih left (Nat.lt_succ_self left) hlonger ?_ (by simp)
          exact List.forall_mem_cons.mpr ⟨⟨rfl, trivial⟩, hunclear⟩
      | rejected kind message => exact .rejected hjournal hunclear hfirst hserve
      | integrity message => exact .unknown hlonger halike

/-- What a resolution leaves. -/
theorem resolution_append :
    wp serve (.alone inv) (resolveAppend config pending) (Resolution serve pending w) w :=
  resolution_attempts hc hinv (List.nil_append _).symm nofun (fun _ => rfl) _

end Resolve

/-! ## What an actor knows of the attempts -/

/-- The bytes of the append are in its stream, at the offset that an answer has named. -/
def Attempt.Proved (w : World) (attempt : Attempt) : Prop :=
  ∃ outcome committed, ⟨attempt.app, .ok outcome, committed⟩ ∈ w.journal ∧
    EndsAt (w.disk.read attempt.app.stream) outcome.nextOffset.toNat attempt.app.body

theorem Attempt.Proved.mono {w w' : World} {attempt : Attempt} (h : attempt.Proved w)
    (hle : w.Extends w') : attempt.Proved w' := by
  obtain ⟨outcome, committed, hmem, hends⟩ := h
  exact ⟨outcome, committed, hle.journal.subset hmem, hends.mono (hle.disk _).1⟩

section Actor

variable [Hashing] {Doc : Type} [Loro Doc] {roomId : String} {config : ActorConfig}

/-- The room has been started since the attempt, and has read its streams then. -/
def KnownAtStart (events : List (Event (gateway Doc roomId config) World)) (attempt : Attempt) :
    Prop :=
  ∃ boot after a, .booted boot after a ∈ events ∧ a.lifecycle = .ready ∧ attempt ∈ after.journal

/-- What an idle actor knows of the attempts: which of them are unclear, and which
sequences they have used. -/
structure RoomActor.Accounts (a : RoomActor Doc) (w : World)
    (events : List (Event (gateway Doc roomId config) World)) : Prop where
  decided : a.Live → ∀ attempt ∈ w.journal, ∀ generation,
    attempt.app.stream = (deltaStreamForGeneration roomId generation).physical →
    attempt.Unclear → KnownAtStart events attempt ∨ attempt.Proved w ∨
      ∃ pending, a.blocked = some pending ∧ attempt.app = pending.app
  numbered : ∀ attempt ∈ w.journal, attempt.app.stream = a.stream →
    attempt.app.producer.id = a.producerId →
    attempt.app.producer.sequence.toNat < a.producerSequence.toNat ∨
      attempt.app.producer.sequence = a.producerSequence ∧
        (attempt.Unclear → ∃ pending, a.blocked = some pending ∧ attempt.app = pending.app)
  later : ∀ generation, a.activeDeltaGeneration.value < generation.value →
    ∀ attempt ∈ w.journal,
      attempt.app.stream = (deltaStreamForGeneration roomId generation).physical →
      attempt.app.producer.id ≠ producerIdForGeneration a.bootId roomId generation

namespace RoomActor.Accounts

variable {a a' : RoomActor Doc} {w t : World}
  {events : List (Event (gateway Doc roomId config) World)} {pending : PendingAppend}
  {attempts : List Attempt}

theorem event (h : a.Accounts w events) (event : Event (gateway Doc roomId config) World) :
    a.Accounts w (event :: events) where
  decided hlive attempt hmem generation hstream hunclear := by
    refine (h.decided hlive attempt hmem generation hstream hunclear).imp_left fun hknown => ?_
    obtain ⟨boot, after, a₀, hbooted, hstart⟩ := hknown
    exact ⟨boot, after, a₀, List.mem_cons_of_mem _ hbooted, hstart⟩
  numbered := h.numbered
  later := h.later

/-- The next append of the actor does not contradict an unclear one. -/
theorem fits (h : a.Accounts w events) (hprepares : a.Prepares pending)
    (hblocked : ∀ other, a.blocked = some other → other = pending) :
    Fits w.journal pending.app := by
  intro attempt hmem hunclear hstream hproducer
  have hnext : pending.app.producer = ⟨a.producerId, 0, a.producerSequence⟩ := hprepares.producer
  rw [hnext] at hproducer
  cases h.numbered attempt hmem (hstream.trans hprepares.stream) (by rw [hproducer]) with
  | inl hlt =>
    rw [hproducer] at hlt
    exact absurd hlt (Nat.lt_irrefl _)
  | inr hsame =>
    obtain ⟨other, hother, happ⟩ := hsame.2 hunclear
    rw [happ, hblocked other hother]

/-- The attempts of the next append are not in a later generation. -/
theorem later_tried (h : a.Accounts w events) (ha : a.Seated roomId config)
    (hprepares : a.Prepares pending) (hjournal : t.journal = attempts ++ w.journal)
    (halike : ∀ attempt ∈ attempts, attempt.app = pending.app) {generation : GenerationId}
    (hlater : a.activeDeltaGeneration.value < generation.value) :
    ∀ attempt ∈ t.journal,
      attempt.app.stream = (deltaStreamForGeneration roomId generation).physical →
      attempt.app.producer.id ≠ producerIdForGeneration a.bootId roomId generation := by
  intro attempt hmem hdelta
  rw [hjournal] at hmem
  cases List.mem_append.mp hmem with
  | inl hnew =>
    rw [halike attempt hnew] at hdelta
    have hsame := deltaStream_inj ((hprepares.stream.trans ha.stream).symm.trans hdelta)
    rw [hsame] at hlater
    exact absurd hlater (UInt64.lt_irrefl _)
  | inr hold => exact h.later generation hlater attempt hold hdelta

/-- The actor has tried its next append, and it is blocked unless no attempt was unclear. -/
theorem tried (h : a.Accounts w events) (ha : a.Seated roomId config) (hlive : a.Live)
    (hprepares : a.Prepares pending) (hle : w.Extends t)
    (hjournal : t.journal = attempts ++ w.journal)
    (halike : ∀ attempt ∈ attempts, attempt.app = pending.app)
    (hunclear : ∀ attempt ∈ attempts, attempt.Unclear → a'.blocked = some pending)
    (hblocked : ∀ other, a.blocked = some other → a'.blocked = some other)
    (hboot : a'.bootId = a.bootId) (hstream : a'.stream = a.stream)
    (hgeneration : a'.activeDeltaGeneration = a.activeDeltaGeneration)
    (hproducer : a'.producerId = a.producerId)
    (hsequence : a'.producerSequence = a.producerSequence) :
    a'.Accounts t events where
  decided _ attempt hmem generation hdelta hopen := by
    rw [hjournal] at hmem
    cases List.mem_append.mp hmem with
    | inl hnew => exact .inr (.inr ⟨pending, hunclear attempt hnew hopen, halike attempt hnew⟩)
    | inr hold =>
      obtain hknown | hproved | ⟨other, hother, happ⟩ :=
        h.decided hlive attempt hold generation hdelta hopen
      · exact .inl hknown
      · exact .inr (.inl (hproved.mono hle))
      · exact .inr (.inr ⟨other, hblocked other hother, happ⟩)
  numbered attempt hmem hto hid := by
    rw [hsequence]
    rw [hjournal] at hmem
    cases List.mem_append.mp hmem with
    | inl hnew =>
      have happ := halike attempt hnew
      refine .inr ⟨?_, fun hopen => ⟨pending, hunclear attempt hnew hopen, happ⟩⟩
      rw [happ]
      show pending.producer.sequence = a.producerSequence
      rw [hprepares.producer]
    | inr hold =>
      refine (h.numbered attempt hold (hto.trans hstream) (hid.trans hproducer)).imp_right ?_
      intro hsame
      refine ⟨hsame.1, fun hopen => ?_⟩
      obtain ⟨other, hother, happ⟩ := hsame.2 hopen
      exact ⟨other, hblocked other hother, happ⟩
  later generation hlater := by
    rw [hgeneration] at hlater
    rw [hboot]
    exact h.later_tried ha hprepares hjournal halike hlater

/-- The actor has resolved its next append. -/
theorem resolved (h : a.Accounts w events) (ha : a.Seated roomId config) (hlive : a.Live)
    (hprepares : a.Prepares pending) (hle : w.Extends t)
    (hjournal : t.journal = attempts ++ w.journal)
    (halike : ∀ attempt ∈ attempts, attempt.app = pending.app)
    (hanswered : ∃ outcome committed, ⟨pending.app, .ok outcome, committed⟩ ∈ attempts ∧
      EndsAt (t.disk.read pending.targetStream) outcome.nextOffset.toNat pending.bytes)
    (hblocked : ∀ other, a.blocked = some other → other = pending)
    (hboot : a'.bootId = a.bootId) (hstream : a'.stream = a.stream)
    (hgeneration : a'.activeDeltaGeneration = a.activeDeltaGeneration)
    (hproducer : a'.producerId = a.producerId)
    (hnext : a'.producerSequence.toNat = a.producerSequence.toNat + 1) : a'.Accounts t events where
  decided _ attempt hmem generation hdelta hopen := by
    have hproved : ∀ attempt : Attempt, attempt.app = pending.app → attempt.Proved t := by
      intro attempt happ
      obtain ⟨outcome, committed, hmem, hends⟩ := hanswered
      refine ⟨outcome, committed, ?_, ?_⟩
      · rw [hjournal, happ]
        exact List.mem_append_left _ hmem
      · rw [happ]
        exact hends
    rw [hjournal] at hmem
    cases List.mem_append.mp hmem with
    | inl hnew => exact .inr (.inl (hproved attempt (halike attempt hnew)))
    | inr hold =>
      obtain hknown | hproved' | ⟨other, hother, happ⟩ :=
        h.decided hlive attempt hold generation hdelta hopen
      · exact .inl hknown
      · exact .inr (.inl (hproved'.mono hle))
      · exact .inr (.inl (hproved attempt (hblocked other hother ▸ happ)))
  numbered attempt hmem hto hid := by
    rw [hjournal] at hmem
    left
    cases List.mem_append.mp hmem with
    | inl hnew =>
      rw [halike attempt hnew]
      show pending.producer.sequence.toNat < a'.producerSequence.toNat
      rw [hprepares.producer, hnext]
      exact Nat.lt_succ_self _
    | inr hold =>
      cases h.numbered attempt hold (hto.trans hstream) (hid.trans hproducer) with
      | inl hlt => omega
      | inr hsame =>
        rw [hsame.1, hnext]
        exact Nat.lt_succ_self _
  later generation hlater := by
    rw [hgeneration] at hlater
    rw [hboot]
    exact h.later_tried ha hprepares hjournal halike hlater

/-- The actor stands where it stood, and nothing was tried on a delta stream. -/
theorem stays (h : a.Accounts w events) (hle : w.Extends t)
    (hothers : ∀ attempt ∈ t.journal, attempt ∈ w.journal ∨ ∀ generation,
      attempt.app.stream ≠ (deltaStreamForGeneration roomId generation).physical)
    (ha : a.Seated roomId config) (hlive : a'.Live → a.Live)
    (hblocked : a'.blocked = a.blocked) (hboot : a'.bootId = a.bootId)
    (hstream : a'.stream = a.stream)
    (hgeneration : a'.activeDeltaGeneration = a.activeDeltaGeneration)
    (hproducer : a'.producerId = a.producerId)
    (hsequence : a'.producerSequence = a.producerSequence) :
    a'.Accounts t events where
  decided hstill attempt hmem generation hdelta hopen := by
    have hold := (hothers attempt hmem).resolve_right fun hnot => hnot generation hdelta
    rw [hblocked]
    have hdecided := h.decided (hlive hstill) attempt hold generation hdelta hopen
    exact hdecided.imp_right fun hrest => hrest.imp_left fun hproved => hproved.mono hle
  numbered attempt hmem hto hid := by
    rw [hblocked, hsequence]
    rw [hstream] at hto
    have hold := (hothers attempt hmem).resolve_right fun hnot => hnot _ (hto.trans ha.stream)
    exact h.numbered attempt hold hto (hid.trans hproducer)
  later generation hlater attempt hmem hdelta := by
    have hold := (hothers attempt hmem).resolve_right fun hnot => hnot generation hdelta
    rw [hgeneration] at hlater
    rw [hboot]
    exact h.later generation hlater attempt hold hdelta

/-- The actor has gone on to the next generation. -/
theorem rotated (h : a.Accounts w events) (hle : w.Extends t)
    (hothers : ∀ attempt ∈ t.journal, attempt ∈ w.journal ∨ ∀ generation,
      attempt.app.stream ≠ (deltaStreamForGeneration roomId generation).physical)
    (hready : a.lifecycle = .ready) (hblocked : a.blocked = none) (hboot : a'.bootId = a.bootId)
    (hstream : a'.stream = (deltaStreamForGeneration roomId a'.activeDeltaGeneration).physical)
    (hgeneration : a.activeDeltaGeneration.value < a'.activeDeltaGeneration.value)
    (hproducer : a'.producerId = producerIdForGeneration a.bootId roomId a'.activeDeltaGeneration) :
    a'.Accounts t events where
  decided _ attempt hmem generation hdelta hopen := by
    have hold := (hothers attempt hmem).resolve_right fun hnot => hnot generation hdelta
    obtain hknown | hproved | ⟨other, hother, _⟩ :=
      h.decided (.inl hready) attempt hold generation hdelta hopen
    · exact .inl hknown
    · exact .inr (.inl (hproved.mono hle))
    · rw [hblocked] at hother
      cases hother
  numbered attempt hmem hto hid := by
    have hdelta := hto.trans hstream
    have hold := (hothers attempt hmem).resolve_right fun hnot => hnot _ hdelta
    exact absurd (hid.trans hproducer) (h.later _ hgeneration attempt hold hdelta)
  later generation hlater attempt hmem hdelta := by
    have hold := (hothers attempt hmem).resolve_right fun hnot => hnot generation hdelta
    rw [hboot]
    exact h.later generation (UInt64.lt_trans hgeneration hlater) attempt hold hdelta

end RoomActor.Accounts

/-! ## What every journal keeps -/

/-- What holds of the journal of a room at every moment. -/
structure Straight (roomId : String) (journal : List Attempt) : Prop where
  unaltered : Unaltered roomId journal
  named : ∀ attempt ∈ journal, ∀ generation,
    attempt.app.stream = (deltaStreamForGeneration roomId generation).physical →
    ∃ bootId, attempt.app.producer.id = producerIdForGeneration bootId roomId generation

namespace Straight

variable {journal : List Attempt} {w t : World} {req : Request} {x : Answer req}

omit [Loro Doc] in
theorem tried (h : Straight roomId journal) {a : RoomActor Doc} (ha : a.Seated roomId config)
    {pending : PendingAppend} (hprepares : a.Prepares pending) (hfits : Fits journal pending.app)
    {attempts : List Attempt} (halike : ∀ attempt ∈ attempts, attempt.app = pending.app) :
    Straight roomId (attempts ++ journal) := by
  induction attempts with
  | nil => exact h
  | cons attempt attempts ih =>
    obtain ⟨happ, hrest⟩ := List.forall_mem_cons.mp halike
    have hbefore := ih hrest
    constructor
    · exact hbefore.unaltered.cons (happ ▸ hfits.repeated hrest)
    · refine List.forall_mem_cons.mpr ⟨?_, hbefore.named⟩
      intro generation hdelta
      rw [happ] at hdelta ⊢
      have hsame := deltaStream_inj ((hprepares.stream.trans ha.stream).symm.trans hdelta)
      refine ⟨a.bootId, ?_⟩
      show pending.producer.id = _
      rw [hprepares.producer, ← hsame]
      exact ha.producer

/-- What a call that spares the delta streams leaves in the journal. -/
theorem journal_of_spares (hspares : SparesDeltas roomId req) (hserve : served w req x t) :
    t.journal = w.journal ∨ ∃ attempt, t.journal = attempt :: w.journal ∧ ∀ generation,
      attempt.app.stream ≠ (deltaStreamForGeneration roomId generation).physical := by
  cases req with
  | ensureStream stream =>
    left
    rcases (served_ensureStream hserve).1 with rfl | rfl
    · rfl
    · rfl
  | readAll stream => exact .inl (by rw [(served_readAll hserve).1])
  | readRange stream offset length => exact .inl (by rw [(served_readRange hserve).1])
  | append stream producer body =>
    obtain ⟨committed, hjournal⟩ := served_journal hserve
    exact .inr ⟨_, hjournal, hspares stream producer body rfl⟩

theorem spares (h : Straight roomId w.journal) (hspares : SparesDeltas roomId req)
    (hserve : served w req x t) : Straight roomId t.journal := by
  cases journal_of_spares hspares hserve with
  | inl hsame => rwa [hsame]
  | inr hmore =>
    obtain ⟨attempt, hjournal, hother⟩ := hmore
    rw [hjournal]
    refine ⟨h.unaltered.cons_other hother, ?_⟩
    refine List.forall_mem_cons.mpr ⟨?_, h.named⟩
    exact fun generation hdelta => absurd hdelta (hother generation)

end Straight

end Actor

end LoroGateway
