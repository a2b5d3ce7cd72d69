import LoroGateway.Blocked
import LoroGateway.DocSpec
import LoroGateway.Lasting
import LoroGateway.Tracking

/-!
# Reads that come from a follower

A read of a whole stream may be answered by a replica that lags behind.  What it
answers is a prefix of the stream; appends and reads of a range go to the leader.

* `trailing` is the store at its worst with such reads, and `followed` the
  surroundings of a room over it.
* `Recorded` is what every world keeps, and `RoomActor.Owns` what an actor knows of
  the appends under its producer ids.  Neither depends on what a read answers.
* `RoomActor.Precedes` marks the offsets that lie before the next frame of an actor.
-/

namespace LoroGateway

open ByteCodec CrashLogic CrashLogic.Server

/-! ## The store -/

/-- The store at its worst, where a read may come from a follower. -/
def trailing (w : World) : (req : Request) → Answer req → World → Prop
  | .readAll stream, x, w' =>
    w' = w ∧ ∀ bytes, x = .ok bytes → bytes <+: w.disk.read stream
  | .ensureStream stream, x, w' => served w (.ensureStream stream) x w'
  | .readRange stream offset length, x, w' => served w (.readRange stream offset length) x w'
  | .append stream producer body, x, w' => served w (.append stream producer body) x w'

/-- Is the call a read of a whole stream? -/
def isReadAll : Request → Bool
  | .readAll _ => true
  | _ => false

section Trailing

variable {w w' : World} {req : Request} {x : Answer req}

theorem served_of_trailing (h : trailing w req x w') (hread : isReadAll req = false) :
    served w req x w' := by
  cases req with
  | readAll stream => cases hread
  | _ => exact h

theorem trailing_cases (h : trailing w req x w') : w' = w ∨ served w req x w' := by
  cases req with
  | readAll stream => exact Or.inl h.1
  | _ => exact Or.inr h

theorem trailing_grows (h : trailing w req x w') : w.disk.Grows w'.disk := by
  rcases trailing_cases h with rfl | hserve
  · exact Disk.Grows.refl _
  · exact served_grows hserve

end Trailing

section

variable [Hashing] {Doc : Type} [Loro Doc] {roomId : String} {config : ActorConfig}

/-- The surroundings of a room over a store with followers.  `reads` says what a read
may answer; an append that was given up may take effect later. -/
def followed (reads : Task (gateway Doc roomId config) → World → String → Bytes → Prop) :
    Environment (gateway Doc roomId config) World :=
  let direct := environment (Policy.late : Policy Doc roomId config)
  { direct with
    serve := fun task w req x w' =>
      match req, x with
      | .readAll stream, x => w' = w ∧ ∀ bytes, x = .ok bytes → reads task w stream bytes
      | .ensureStream stream, x => direct.serve task w (.ensureStream stream) x w'
      | .readRange stream offset length, x =>
        direct.serve task w (.readRange stream offset length) x w'
      | .append stream producer body, x =>
        direct.serve task w (.append stream producer body) x w' }

variable {reads : Task (gateway Doc roomId config) → World → String → Bytes → Prop}
  {task : Task (gateway Doc roomId config)}

theorem direct_of_followed {w w' : World} {req : Request} {x : Answer req}
    (h : (followed reads).serve task w req x w') (hread : isReadAll req = false) :
    (environment (Policy.late : Policy Doc roomId config)).serve task w req x w' := by
  cases req with
  | readAll stream => cases hread
  | _ => exact h

theorem trailing_of_followed
    (hreads : ∀ task w stream bytes, reads task w stream bytes → bytes <+: w.disk.read stream)
    {w w' : World} {req : Request} {x : Answer req}
    (h : (followed reads).serve task w req x w') : trailing w req x w' := by
  cases req with
  | readAll stream => exact ⟨h.1, fun bytes hx => hreads _ _ _ _ (h.2 bytes hx)⟩
  | ensureStream stream =>
    have ⟨fate, _, _, heq⟩ := direct_of_followed h rfl
    exact ⟨fate, heq⟩
  | readRange stream offset length =>
    have ⟨fate, _, _, heq⟩ := direct_of_followed h rfl
    exact ⟨fate, heq⟩
  | append stream producer body =>
    have ⟨fate, _, _, heq⟩ := direct_of_followed h rfl
    exact ⟨fate, heq⟩

end

/-! ## What every world keeps -/

section Recorded

variable [Hashing] {roomId : String} {limits : FrameLimits} {w w' : World}

/-- The delta streams are logs of frames, and the journal knows all producers. -/
structure Recorded (roomId : String) (limits : FrameLimits) (w : World) : Prop where
  delta : DeltaInvariant (NamedFrame roomId) limits roomId w
  journaled : Journaled w

theorem Recorded.empty : Recorded roomId limits World.empty := ⟨.empty, .empty⟩

theorem Recorded.serve (h : Recorded roomId limits w) {req : Request} {x : Answer req}
    (hsubmits : Submits (NamedFrame roomId) limits roomId req) (hserve : trailing w req x w') :
    Recorded roomId limits w' := by
  rcases trailing_cases hserve with rfl | hserve
  · exact h
  · exact ⟨h.delta.serve hsubmits hserve, h.journaled.serve hserve⟩

theorem Recorded.deliver (h : Recorded roomId limits w) {app : Append} (hmem : app ∈ w.underWay) :
    Recorded roomId limits (w.deliver app) :=
  ⟨h.delta.deliver hmem, h.journaled.deliver hmem⟩

theorem Recorded.crashed (h : Recorded roomId limits w) :
    Recorded roomId limits (crashedWorld w) :=
  ⟨h.delta.transport rfl fun _ hmem => hmem, h.journaled.last, h.journaled.sent⟩

end Recorded

/-! ## The sequences under a producer id -/

/-- The sequences of the appends to a stream under a producer id, those that are under
way with them. -/
structure Numbered (stream id : String) (P : UInt64 → Prop) (w : World) : Prop where
  last : ∀ sequence offset, w.disk.last stream id = some (sequence, offset) → P sequence
  sent : ∀ app ∈ w.underWay, app.stream = stream → app.producer.id = id → P app.producer.sequence

namespace Numbered

variable {stream id : String} {P : UInt64 → Prop} {w w' : World}

theorem mono {P' : UInt64 → Prop} (h : Numbered stream id P w)
    (himp : ∀ sequence, P sequence → P' sequence) : Numbered stream id P' w where
  last sequence offset hlast := himp sequence (h.last sequence offset hlast)
  sent app hmem hstream hid := himp _ (h.sent app hmem hstream hid)

/-- What an append leaves as the last sequence. -/
theorem last_append (h : Numbered stream id P w) {app : Append}
    (happ : app.stream = stream → app.producer.id = id → P app.producer.sequence)
    {sequence offset : UInt64}
    (hlast : (w.disk.append app).last stream id = some (sequence, offset)) : P sequence := by
  by_cases haccepts : w.disk.Accepts app
  · rw [Disk.append_of_accepts haccepts] at hlast
    by_cases hself : stream = app.stream ∧ id = app.producer.id
    · have ⟨hstream, hid⟩ := hself
      rw [hstream, hid, Disk.last_accept_self] at hlast
      have hsequence := (Prod.mk.inj (Option.some.inj hlast)).1
      exact hsequence ▸ happ hstream.symm hid.symm
    · rw [Disk.last_accept_ne hself] at hlast
      exact h.last sequence offset hlast
  · rw [Disk.append_of_not_accepts haccepts] at hlast
    exact h.last sequence offset hlast

theorem deliver (h : Numbered stream id P w) {app : Append} (hmem : app ∈ w.underWay) :
    Numbered stream id P (w.deliver app) where
  last _ _ hlast := h.last_append (h.sent app hmem) hlast
  sent := h.sent

theorem serve (h : Numbered stream id P w) {req : Request} {x : Answer req}
    (hreq : ∀ producer body, req = .append stream producer body → producer.id = id →
      P producer.sequence) (hserve : trailing w req x w') : Numbered stream id P w' := by
  rcases trailing_cases hserve with rfl | hserve
  · exact h
  cases req with
  | ensureStream other =>
    rcases (served_ensureStream hserve).1 with rfl | rfl
    · exact h
    · exact ⟨h.last, h.sent⟩
  | readAll other => exact (served_readAll hserve).1 ▸ h
  | readRange other offset length => exact (served_readRange hserve).1 ▸ h
  | append other producer body =>
    have happ : ∀ app : Append, app = ⟨other, producer, body⟩ → app.stream = stream →
        app.producer.id = id → P app.producer.sequence := by
      intro app heq hstream hid
      subst heq
      subst hstream
      exact hreq producer body rfl hid
    constructor
    · intro sequence offset hlast
      cases served_append hserve with
      | accepted haccepts =>
        rw [← Disk.append_of_accepts haccepts] at hlast
        exact h.last_append (happ _ rfl) hlast
      | duplicate => exact h.last sequence offset hlast
      | refused => exact h.last sequence offset hlast
    · intro app hmem hstream hid
      rcases served_underWay hserve app hmem with hmem | heq
      · exact h.sent app hmem hstream hid
      · exact happ app heq hstream hid

/-- Nothing has been appended under a fresh producer id. -/
theorem of_fresh [Hashing] {roomId : String} {boot : Boot} (hw : Journaled w)
    (hfresh : FreshBoot roomId w boot) (stream : String) (generation : GenerationId) :
    Numbered stream (producerIdForGeneration boot.bootId roomId generation) (fun _ => False) w where
  last sequence offset hlast := by
    have hne : w.disk.last stream (producerIdForGeneration boot.bootId roomId generation) ≠ none := by
      rw [hlast]
      exact Option.some_ne_none _
    have ⟨attempt, hmem, hid⟩ := hw.last stream _ hne
    exact hfresh attempt hmem generation hid
  sent app hmem _ hid := by
    have ⟨attempt, hattempt, happ⟩ := hw.sent app hmem
    exact hfresh attempt hattempt generation (happ ▸ hid)

end Numbered

/-! ## The actor -/

section Actor

variable [Hashing] {Doc : Type} {roomId : String} {config : ActorConfig}

namespace RoomActor

variable {a : RoomActor Doc} {w w' : World}

/-- The calls that an actor makes: an append goes to no delta stream, or it submits a
frame that the actor has prepared. -/
def Calls (roomId : String) (a : RoomActor Doc) : Request → Prop
  | .append stream producer body =>
    (∀ generation, stream ≠ (deltaStreamForGeneration roomId generation).physical) ∨
      ∃ pending, a.Prepares pending ∧ Request.append stream producer body = pending.request
  | _ => True

theorem Calls.submits {req : Request} (ha : a.Seated roomId config) (h : a.Calls roomId req) :
    Submits (NamedFrame roomId) config.frameLimits roomId req := by
  cases req with
  | append stream producer body =>
    rcases h with hother | ⟨pending, hpending, hreq⟩
    · exact fun generation hstream => absurd hstream (hother generation)
    · rw [hreq]
      exact hpending.submits ha
  | _ => trivial

/-- The actor has used its producer id up to its present sequence, and none of those
that it will have in later generations. -/
structure Owns (roomId : String) (a : RoomActor Doc) (w : World) : Prop where
  now : Numbered a.stream a.producerId
    (fun sequence => sequence.toNat ≤ a.producerSequence.toNat) w
  later : ∀ generation, a.activeDeltaGeneration.value < generation.value →
    Numbered (deltaStreamForGeneration roomId generation).physical
      (producerIdForGeneration a.bootId roomId generation) (fun _ => False) w

theorem Owns.deliver (h : a.Owns roomId w) {app : Append} (hmem : app ∈ w.underWay) :
    a.Owns roomId (w.deliver app) :=
  ⟨h.now.deliver hmem, fun generation hlater => (h.later generation hlater).deliver hmem⟩

theorem Owns.serve (h : a.Owns roomId w) (ha : a.Seated roomId config) {req : Request}
    {x : Answer req} (hreq : a.Calls roomId req) (hserve : trailing w req x w') :
    a.Owns roomId w' := by
  constructor
  · apply h.now.serve _ hserve
    intro producer body heq _
    subst heq
    rcases hreq with hother | ⟨pending, hpending, heq⟩
    · exact absurd ha.stream (hother a.activeDeltaGeneration)
    · have hproducer : producer = pending.producer := (Request.append.inj heq).2.1
      rw [hproducer, hpending.producer]
  · intro generation hlater
    apply (h.later generation hlater).serve _ hserve
    intro producer body heq _
    subst heq
    rcases hreq with hother | ⟨pending, hpending, heq⟩
    · exact hother generation rfl
    · have hstream : (deltaStreamForGeneration roomId generation).physical =
          pending.targetStream := (Request.append.inj heq).1
      rw [deltaStream_inj ((hstream.trans hpending.stream).trans ha.stream)] at hlater
      exact absurd hlater (UInt64.lt_irrefl _)

/-- The offset lies in the stream of the actor, and before the end of its next frame if
the stream holds that already. -/
def Precedes (a : RoomActor Doc) (offset : Nat) (w : World) : Prop :=
  offset ≤ (w.disk.read a.stream).length ∧
    ∀ sequence endOffset, w.disk.last a.stream a.producerId = some (sequence, endOffset) →
      a.producerSequence.toNat ≤ sequence.toNat → offset ≤ endOffset.toNat

omit [Hashing] in
theorem Precedes.append {offset : Nat} (h : a.Precedes offset w) {app : Append}
    (hdisk : w'.disk = w.disk.append app) : a.Precedes offset w' := by
  unfold Precedes
  rw [hdisk]
  by_cases haccepts : w.disk.Accepts app
  · rw [Disk.append_of_accepts haccepts]
    have hgrow := ((w.disk.grows_accept app) a.stream).1.length_le
    refine ⟨h.1.trans hgrow, ?_⟩
    intro sequence endOffset hlast hle
    by_cases hself : a.stream = app.stream ∧ a.producerId = app.producer.id
    · have ⟨hstream, hid⟩ := hself
      rw [hstream, hid, Disk.last_accept_self] at hlast
      have hend := (Prod.mk.inj (Option.some.inj hlast)).2
      have hlength := h.1
      rw [hstream] at hlength
      rw [← hend, Disk.endOffset_toNat haccepts]
      omega
    · rw [Disk.last_accept_ne hself] at hlast
      exact h.2 sequence endOffset hlast hle
  · rw [Disk.append_of_not_accepts haccepts]
    exact h

omit [Hashing] in
theorem Precedes.serve {offset : Nat} (h : a.Precedes offset w) {req : Request} {x : Answer req}
    (hserve : trailing w req x w') : a.Precedes offset w' := by
  rcases trailing_cases hserve with rfl | hserve
  · exact h
  cases req with
  | ensureStream stream =>
    rcases (served_ensureStream hserve).1 with rfl | rfl
    · exact h
    · unfold Precedes
      rw [Disk.read_ensure]
      exact h
  | readAll stream => exact (served_readAll hserve).1 ▸ h
  | readRange stream start length => exact (served_readRange hserve).1 ▸ h
  | append stream producer body =>
    cases served_append hserve with
    | accepted haccepts => exact h.append (Disk.append_of_accepts haccepts).symm
    | duplicate => exact h
    | refused => exact h

/-- What has been so since some moment: the worlds are in order, streams have only grown,
and what preceded the next frame precedes it still. -/
structure Since (roomId : String) (config : ActorConfig) (a : RoomActor Doc) (before w : World) :
    Prop where
  recorded : Recorded roomId config.frameLimits w
  owns : a.Owns roomId w
  grows : before.disk.Grows w.disk
  precedes : ∀ offset, a.Precedes offset before → a.Precedes offset w

theorem Since.refl (hw : Recorded roomId config.frameLimits w) (howns : a.Owns roomId w) :
    a.Since roomId config w w :=
  ⟨hw, howns, Disk.Grows.refl _, fun _ h => h⟩

theorem Since.deliver {before : World} (h : a.Since roomId config before w) {app : Append}
    (hmem : app ∈ w.underWay) : a.Since roomId config before (w.deliver app) where
  recorded := h.recorded.deliver hmem
  owns := h.owns.deliver hmem
  grows := h.grows.trans (Disk.grows_append _ _)
  precedes offset hbefore := (h.precedes offset hbefore).append rfl

theorem Since.serve {before : World} (h : a.Since roomId config before w)
    (ha : a.Seated roomId config) {req : Request} {x : Answer req} (hreq : a.Calls roomId req)
    (hserve : trailing w req x w') : a.Since roomId config before w' where
  recorded := h.recorded.serve (hreq.submits ha) hserve
  owns := h.owns.serve ha hreq hserve
  grows := h.grows.trans (trailing_grows hserve)
  precedes offset hbefore := (h.precedes offset hbefore).serve hserve

end RoomActor

end Actor

/-! ## The calls of a rotation -/

section Rules

variable {α β ε : Type} {allowed : Request → Prop}

theorem always_mapErr {ε' : Type} {p : StoreM (Except ε α)} {g : ε → ε'}
    (h : p.Always allowed fun _ => True) :
    (mapErr p g).run.Always allowed fun _ => True :=
  Prog.Always.bind h fun _ _ => trivial

theorem always_check {cond : Prop} [Decidable cond] {error : ε} :
    (check cond error : ExceptT ε StoreM Unit).run.Always allowed fun _ => True := by
  unfold check
  split_ifs <;> trivial

theorem always_okOr_bind {post : Except ε β → Prop} {value : Option α} {error : ε}
    {f : α → ExceptT ε StoreM β} (herr : post (.error error))
    (hf : ∀ a, value = some a → (f a).run.Always allowed post) :
    ((okOr value error : ExceptT ε StoreM α) >>= f).run.Always allowed post := by
  cases value with
  | none => exact herr
  | some a => exact hf a rfl

end Rules

section Rotate

variable [Hashing] {roomId : String}

/-- The call does not append to a delta stream. -/
def SparesDeltas (roomId : String) (req : Request) : Prop :=
  ∀ stream producer body, req = .append stream producer body →
    ∀ generation, stream ≠ (deltaStreamForGeneration roomId generation).physical

theorem sparesDeltas_of_not_append {req : Request} (h : isAppend req = false) :
    SparesDeltas roomId req := by
  intro stream producer body heq
  subst heq
  cases h

theorem always_ensureStream (stream : String) :
    (UrsulaStore.ensureStream stream).Always (SparesDeltas roomId) fun _ => True :=
  ⟨sparesDeltas_of_not_append rfl, fun _ => trivial⟩

theorem always_readAll (stream : String) :
    (UrsulaStore.readAll stream).Always (SparesDeltas roomId) fun _ => True :=
  ⟨sparesDeltas_of_not_append rfl, fun _ => trivial⟩

variable {stream : String}
  (hstream : ∀ generation, stream ≠ (deltaStreamForGeneration roomId generation).physical)

include hstream

theorem always_append (producer : ProducerTuple) (body : Bytes) :
    SparesDeltas roomId (.append stream producer body) := by
  intro other producer' body' heq
  have hother : stream = other := (Request.append.inj heq).1
  exact hother ▸ hstream

theorem always_attempts (producer : ProducerTuple) (body : Bytes) (left : Nat) :
    (ExactAppend.attempts stream producer body left).Always (SparesDeltas roomId)
      fun _ => True := by
  have hturn : ∀ left, (∀ left', left = left' + 1 →
      (ExactAppend.attempts stream producer body left').Always (SparesDeltas roomId)
        fun _ => True) →
      (ExactAppend.attempts stream producer body left).Always (SparesDeltas roomId)
        fun _ => True := by
    intro left again
    rw [ExactAppend.attempts.eq_def]
    apply Prog.always_call (always_append hstream producer body)
    intro x
    have hverify : ∀ n, (ExactAppend.verifyDuplicateBytes stream n body).run.Always
        (SparesDeltas roomId) fun _ => True := by
      intro n
      unfold ExactAppend.verifyDuplicateBytes
      apply Prog.Always.run_bind (RoomActor.always_okOr _ _)
      intro _
      apply Prog.Always.run_bind (RoomActor.always_okOr _ _)
      intro _
      apply Prog.Always.run_bind
      · exact ⟨sparesDeltas_of_not_append rfl, fun _ => trivial⟩
      · intro _
        exact Prog.Always.run_bind always_check fun _ => always_check
    cases x with
    | ok outcome =>
      cases outcome with
      | committed n => trivial
      | duplicate n =>
        apply Prog.Always.bind (hverify n)
        intro r _
        cases r <;> trivial
    | error error =>
      cases error with
      | ambiguous message =>
        cases left with
        | zero => trivial
        | succ left => exact again left rfl
      | rejected kind message => trivial
      | integrity message => trivial
  induction left with
  | zero => exact hturn 0 fun _ h => by cases h
  | succ left ih =>
    apply hturn
    intro left' hleft
    exact Nat.succ.inj hleft ▸ ih

theorem always_appendExactWithRetry (producer : ProducerTuple) (body : Bytes) (retries : Nat) :
    (appendExactWithRetry stream producer body retries).Always (SparesDeltas roomId)
      fun _ => True := by
  unfold appendExactWithRetry
  split_ifs
  · trivial
  · exact always_attempts hstream producer body retries

end Rotate

section RotateRoom

variable [Hashing] {Doc : Type} [Loro Doc] {roomId : String}

theorem always_persistCheckpoint (generation : GenerationId) (record : CheckpointRecord)
    (retries : Nat) :
    (persistCheckpoint roomId generation record retries).run.Always (SparesDeltas roomId)
      fun _ => True := by
  have hstream : ∀ other, (checkpointStream roomId generation).physical ≠
      (deltaStreamForGeneration roomId other).physical :=
    fun _ => deltaStream_ne_checkpointStream.symm
  unfold persistCheckpoint
  apply Prog.Always.run_bind always_check
  intro _
  apply Prog.Always.run_bind always_check
  intro _
  apply Prog.Always.run_bind (Prog.always_run_lift _)
  intro bytes
  apply Prog.Always.run_bind (always_mapErr (always_ensureStream _))
  intro _
  apply Prog.Always.run_bind (always_mapErr (always_readAll _))
  intro existing
  split_ifs
  · apply Prog.Always.run_bind always_check
    intro _
    exact Prog.Always.run_bind (RoomActor.always_okOr _ _) fun _ => trivial
  · apply Prog.Always.run_bind (always_mapErr (always_appendExactWithRetry hstream _ _ _))
    intro _
    apply Prog.Always.run_bind (RoomActor.always_okOr _ _)
    intro _
    exact Prog.Always.run_bind always_check fun _ => trivial

theorem always_publishManifestRecord (record : ManifestRecord) (retries : Nat) :
    (publishManifestRecord roomId record retries).run.Always (SparesDeltas roomId)
      fun _ => True := by
  have hstream : ∀ other, (manifestStream roomId).physical ≠
      (deltaStreamForGeneration roomId other).physical :=
    fun _ => deltaStream_ne_manifestStream.symm
  unfold publishManifestRecord
  apply Prog.Always.run_bind always_check
  intro _
  apply Prog.Always.run_bind (Prog.always_run_lift _)
  intro encoded
  apply Prog.Always.run_bind (always_mapErr (always_ensureStream _))
  intro _
  apply Prog.Always.run_bind (always_mapErr (always_readAll _))
  intro existing
  apply Prog.Always.run_bind (RoomActor.always_okOr _ _)
  intro existingLen
  apply Prog.Always.run_bind (Prog.always_run_lift _)
  intro plan
  match plan with
  | none => trivial
  | some records =>
    apply Prog.Always.run_bind (Prog.always_run_lift _)
    intro _
    apply Prog.Always.run_bind (always_mapErr (always_appendExactWithRetry hstream _ _ _))
    intro _
    apply Prog.Always.run_bind (RoomActor.always_okOr _ _)
    intro _
    apply Prog.Always.run_bind (RoomActor.always_okOr _ _)
    intro _
    exact Prog.Always.run_bind always_check fun _ => trivial

/-- A rotation appends to no delta stream, and it leads to the next generation. -/
theorem always_rotateRoom (generation : GenerationId) (endOffset : UInt64) (doc : Doc)
    (history : List Bytes) (retries : Nat) :
    (rotateRoom roomId generation endOffset doc history retries).run.Always (SparesDeltas roomId)
      fun r => ∀ rotated, r = .ok rotated →
        rotated.nextDeltaGeneration.value.toNat = generation.value.toNat + 1 ∧
        rotated.nextDeltaStream =
          (deltaStreamForGeneration roomId rotated.nextDeltaGeneration).physical := by
  have hposition : (nextManifestPosition roomId generation).run.Always (SparesDeltas roomId)
      fun _ => True := by
    unfold nextManifestPosition
    apply Prog.Always.run_bind (always_mapErr (always_ensureStream _))
    intro _
    apply Prog.Always.run_bind (always_mapErr (always_readAll _))
    intro _
    exact Prog.always_run_lift _
  unfold rotateRoom
  apply always_okOr_bind nofun
  intro next hnext
  apply Prog.Always.run_bind_post (fun _ => nofun) (Prog.always_run_lift _)
  intro checkpoint
  apply Prog.Always.run_bind_post (fun _ => nofun) (Prog.always_run_lift _)
  intro checkpointBytes
  apply Prog.Always.run_bind_post (fun _ => nofun)
    (always_mapErr (always_persistCheckpoint _ _ _))
  intro _
  apply Prog.Always.run_bind_post (fun _ => nofun) (always_mapErr (always_ensureStream _))
  intro _
  apply Prog.Always.run_bind_post (fun _ => nofun) (always_mapErr (always_readAll _))
  intro nextDeltaBytes
  apply Prog.Always.run_bind_post (fun _ => nofun) always_check
  intro _
  apply Prog.Always.run_bind_post (fun _ => nofun) hposition
  intro position
  apply Prog.Always.run_bind_post (fun _ => nofun) (Prog.always_run_lift _)
  intro manifest
  apply Prog.Always.run_bind_post (fun _ => nofun)
    (always_mapErr (always_publishManifestRecord _ _))
  intro _ rotated heq
  cases heq
  exact ⟨GenerationId.checkedNext_eq_some.1 hnext, rfl⟩

end RotateRoom

/-! ## A start -/

section Start

variable [Hashing] {Doc : Type} [Loro Doc] {roomId : String} {limits : FrameLimits}
  {serve : Serve Request Answer World} {c : Contract World} {assertion : World → Prop}
  (htrail : ∀ {w req x w'}, serve w req x w' → trailing w req x w')
  (hstable : c.Stable assertion)
  (hkeeps : ∀ req, isAppend req = false → Keeps serve c assertion req) {w : World}

include htrail hstable hkeeps

omit [Hashing] in
theorem wp_readAll_trailing {stream : String} {post : Except StoreError Bytes → World → Prop}
    (hw : assertion w)
    (hok : ∀ bytes w', assertion w' → bytes <+: w'.disk.read stream → post (.ok bytes) w')
    (herr : ∀ error w', assertion w' → post (.error error) w') :
    wp serve c (UrsulaStore.readAll stream) post w := by
  apply wp_request hstable hw (hkeeps _ rfl)
  intro w₁ x w₂ _ _ hserve hw₂ _
  have ⟨hsame, hfront⟩ := htrail hserve
  cases x with
  | ok bytes => exact hok bytes w₂ hw₂ (hsame ▸ hfront bytes rfl)
  | error error => exact herr error w₂ hw₂

omit [Hashing] htrail in
theorem wp_ensureStream_trailing {stream : String} {post : Except StoreError Unit → World → Prop}
    (hw : assertion w) (h : ∀ r w', assertion w' → post r w') :
    wp serve c (UrsulaStore.ensureStream stream) post w := by
  apply wp_request hstable hw (hkeeps _ rfl)
  intro w₁ x w₂ _ _ _ hw₂ _
  exact h x w₂ hw₂

/-- A recovery sets up an actor at an offset of the stream that it names. -/
theorem wp_recoverFromManifest_trailing (hw : assertion w) :
    wp serve c (recoverFromManifest Doc roomId limits).run
      (fun r t => assertion t ∧ ∀ recovery, r = .ok (some recovery) →
        recovery.activeDeltaStream =
          (deltaStreamForGeneration roomId recovery.activeDeltaGeneration).physical ∧
        recovery.activeDeltaEndOffset.toNat ≤
          (t.disk.read recovery.activeDeltaStream).length) w := by
  unfold recoverFromManifest
  apply wp_mapErr_bind
  apply wp_ensureStream_trailing hstable hkeeps hw
  intro r w₀ hw₀
  cases r with
  | error error => exact ⟨hw₀, fun _ h => by cases h⟩
  | ok value =>
  apply wp_mapErr_bind
  refine wp_readAll_trailing htrail hstable hkeeps hw₀ ?_ fun _ w' hw' => ⟨hw', fun _ h => by cases h⟩
  intro bytes w₁ hw₁ _
  dsimp only
  split_ifs
  · exact ⟨hw₁, fun _ h => by cases h⟩
  refine wp_lift_mapError_bind (fun records _ => ?_) fun _ _ => ⟨hw₁, fun _ h => by cases h⟩
  refine wp_lift_mapError_bind (fun latest _ => ?_) fun _ _ => ⟨hw₁, fun _ h => by cases h⟩
  apply wp_mapErr_bind
  refine wp_readAll_trailing htrail hstable hkeeps hw₁ ?_ fun _ w' hw' => ⟨hw', fun _ h => by cases h⟩
  intro stored w₂ hw₂ _
  refine wp_check_bind (fun _ => ?_) fun _ => ⟨hw₂, fun _ h => by cases h⟩
  refine wp_check_bind (fun _ => ?_) fun _ => ⟨hw₂, fun _ h => by cases h⟩
  refine wp_lift_mapError_bind (fun checkpoint _ => ?_) fun _ _ => ⟨hw₂, fun _ h => by cases h⟩
  refine wp_lift_bind (fun _ _ => ?_) fun _ _ => ⟨hw₂, fun _ h => by cases h⟩
  refine wp_lift_mapError_bind (fun restored _ => ?_) fun _ _ => ⟨hw₂, fun _ h => by cases h⟩
  refine wp_lift_bind (fun base _ => ?_) fun _ _ => ⟨hw₂, fun _ h => by cases h⟩
  apply wp_mapErr_bind
  refine wp_readAll_trailing htrail hstable hkeeps hw₂ ?_ fun _ w' hw' => ⟨hw', fun _ h => by cases h⟩
  intro delta w₃ hw₃ hfront
  refine wp_lift_mapError_bind (fun frames _ => ?_) fun _ _ => ⟨hw₃, fun _ h => by cases h⟩
  refine wp_lift_bind (fun doc _ => ?_) fun _ _ => ⟨hw₃, fun _ h => by cases h⟩
  refine wp_okOr_bind (fun endOffset hend => ?_) fun _ => ⟨hw₃, fun _ h => by cases h⟩
  refine ⟨hw₃, fun recovery heq => ?_⟩
  cases heq
  refine ⟨rfl, ?_⟩
  rw [u64OfUsize_eq_some.1 hend]
  exact hfront.length_le

namespace RoomActor

omit [Hashing] [Loro Doc] in
/-- An actor at an offset of its stream. -/
def Within (a : RoomActor Doc) (w : World) : Prop :=
  a.activeDeltaEndOffset.toNat ≤ (w.disk.read a.stream).length

/-- A started actor is seated, at an offset of its stream. -/
theorem wp_activate_trailing {config : ActorConfig} (boot : Boot) (hw : assertion w) :
    wp serve c (activate roomId config boot)
      (fun (a : RoomActor Doc) t => assertion t ∧ a.Seated roomId config ∧ a.bootId = boot.bootId ∧
        a.blocked = none ∧ a.Within t) w := by
  have hnew : ∀ (endOffset : UInt64) (history : List Bytes) (doc : Doc)
      (lifecycle : RoomLifecycle) (lastError : Option String) (t : World),
      endOffset.toNat ≤ (t.disk.read (deltaStream roomId).physical).length → assertion t →
      assertion t ∧ (({ (new roomId boot config : RoomActor Doc) with
          activeDeltaEndOffset := endOffset
          history := history
          doc := doc } : RoomActor Doc).transition lifecycle lastError).Seated roomId config ∧
        boot.bootId = boot.bootId ∧ (none : Option PendingAppend) = none ∧
        (({ (new roomId boot config : RoomActor Doc) with
          activeDeltaEndOffset := endOffset
          history := history
          doc := doc } : RoomActor Doc).transition lifecycle lastError).Within t :=
    fun endOffset history doc lifecycle lastError t hwithin ht =>
      ⟨ht, Seated.new boot lifecycle lastError endOffset history doc, rfl, rfl, hwithin⟩
  have hzero : ∀ t : World,
      (0 : UInt64).toNat ≤ (t.disk.read (deltaStream roomId).physical).length :=
    fun t => Nat.zero_le _
  unfold activate initializeActor
  rw [wp_bind, wp_bind]
  refine wp_mono ?_ (wp_recoverFromManifest_trailing htrail hstable hkeeps hw)
  intro r w₁ h
  have ⟨hw₁, hrecovered⟩ := h
  match r with
  | .error error => exact hnew 0 [] Loro.new _ _ w₁ (hzero w₁) hw₁
  | .ok (some recovery) =>
    have ⟨hstream, hwithin⟩ := hrecovered recovery rfl
    refine ⟨hw₁, ?_, rfl, rfl, hwithin⟩
    constructor
    · rfl
    · rfl
    · exact hstream
    · rfl
    · exact nofun
  | .ok none =>
    show wp serve c (UrsulaStore.ensureStream _ >>= _) _ w₁
    rw [wp_bind]
    apply wp_ensureStream_trailing hstable hkeeps hw₁
    intro x w₂ hw₂
    cases x with
    | error error => exact hnew 0 [] Loro.new _ _ w₂ (hzero w₂) hw₂
    | ok value =>
      show wp serve c (loadFromStore _ >>= _) _ w₂
      unfold loadFromStore
      rw [wp_bind, wp_bind]
      refine wp_readAll_trailing htrail hstable hkeeps hw₂ ?_ ?_
      · intro bytes w₃ hw₃ hfront
        dsimp only
        cases hlength : u64OfUsize bytes.length with
        | none => exact hnew 0 [] Loro.new _ _ w₃ (hzero w₃) hw₃
        | some endOffset =>
          have hwithin : endOffset.toNat ≤
              (w₃.disk.read (deltaStream roomId).physical).length := by
            rw [u64OfUsize_eq_some.1 hlength]
            exact hfront.length_le
          dsimp only
          generalize replayStream Doc (new roomId boot config : RoomActor Doc).config.frameLimits
            bytes = loaded
          cases loaded with
          | error failure => exact hnew endOffset [] Loro.new _ _ w₃ hwithin hw₃
          | ok loaded => exact hnew endOffset loaded.1 loaded.2 _ _ w₃ hwithin hw₃
      · intro error w₃ hw₃
        exact hnew 0 [] Loro.new _ _ w₃ (hzero w₃) hw₃

end RoomActor

end Start

/-! ## A confirmed append -/

section Confirmed

variable [Hashing]

variable {Doc : Type} {roomId : String} {config : ActorConfig} {a : RoomActor Doc}
  {pending : PendingAppend} {n : UInt64} {w w' : World}

/-- The store has just answered that the append ends at the offset, and the frame lies
there in the log of the stream. -/
structure RoomActor.Confirmed (roomId : String) (config : ActorConfig) (a : RoomActor Doc)
    (pending : PendingAppend) (n : UInt64) (w : World) : Prop where
  answered : ∃ outcome committed,
    w.journal.head? = some ⟨pending.app, .ok outcome, committed⟩ ∧ outcome.nextOffset = n
  placed : ∃ front frames,
    DeltaLog (NamedFrame roomId a.activeDeltaGeneration) config.frameLimits a.stream w.disk frames ∧
      front ++ [pending.frame] <+: frames ∧
      n.toNat = (logBytes config.frameLimits (front ++ [pending.frame])).length

theorem RoomActor.Seated.log (ha : a.Seated roomId config)
    (hw : Recorded roomId config.frameLimits w) :
    ∃ frames, DeltaLog (NamedFrame roomId a.activeDeltaGeneration) config.frameLimits a.stream
      w.disk frames := by
  rw [ha.stream]
  exact hw.delta.logs a.activeDeltaGeneration

namespace RoomActor.Confirmed

theorem grow (h : a.Confirmed roomId config pending n w) (ha : a.Seated roomId config)
    (hw : Recorded roomId config.frameLimits w') (hgrow : w.disk.Grows w'.disk)
    (hjournal : w'.journal = w.journal) : a.Confirmed roomId config pending n w' where
  answered := hjournal ▸ h.answered
  placed := by
    have ⟨front, frames, hlog, hfront, hn⟩ := h.placed
    have ⟨frames', hlog'⟩ := ha.log hw
    exact ⟨front, frames', hlog', hfront.trans (hlog.isPrefix hlog' hgrow), hn⟩

/-- The offset lies in the stream. -/
theorem le_length (h : a.Confirmed roomId config pending n w) :
    n.toNat ≤ (w.disk.read a.stream).length := by
  have ⟨front, frames, hlog, ⟨rest, hrest⟩, hn⟩ := h.placed
  rw [hn, hlog.content, ← hrest, logBytes_append (front ++ [pending.frame]), List.length_append]
  exact Nat.le_add_right _ _

end RoomActor.Confirmed

end Confirmed

/-! ## The programs of an actor -/

section Followed

variable [Hashing] {Doc : Type} [Loro Doc] {roomId : String} {config : ActorConfig}
  {reads : Task (gateway Doc roomId config) → World → String → Bytes → Prop}
  {task : Task (gateway Doc roomId config)}
  {a : RoomActor Doc} {w before : World} {pending : PendingAppend}

/-- A read answers a prefix of the stream. -/
def Trails (reads : Task (gateway Doc roomId config) → World → String → Bytes → Prop) : Prop :=
  ∀ task w stream bytes, reads task w stream bytes → bytes <+: w.disk.read stream

/-- What an arriving append does not break, nothing that happens by itself does. -/
theorem followed_stable {inv assertion : World → Prop}
    (h : ∀ w app, app ∈ w.underWay → assertion w → assertion (w.deliver app)) :
    ((followed reads).contract inv).Stable assertion := by
  intro w w' hw hrely
  induction hrely with
  | refl => exact hw
  | tail _ hlast ih =>
    have ⟨app, hmem, _, heq⟩ := hlast
    exact heq ▸ h _ app hmem ih

theorem since_stable {inv : World → Prop} :
    ((followed reads).contract inv).Stable (a.Since roomId config before) :=
  followed_stable fun _ _ hmem hw => hw.deliver hmem

variable (htrails : Trails reads)

include htrails

/-- The calls of an actor keep what has been so since. -/
theorem since_keeps (ha : a.Seated roomId config) {req : Request} (hreq : a.Calls roomId req) :
    Keeps ((followed reads).serve task)
      ((followed reads).contract (Recorded roomId config.frameLimits))
      (a.Since roomId config before) req := by
  intro w x w' hw _ hserve
  have hw' := hw.serve ha hreq (trailing_of_followed htrails hserve)
  exact ⟨⟨hw'.recorded, trivial⟩, hw'⟩

/-- The calls other than reads of a whole stream are those of a direct store. -/
theorem direct_grounded (inv : World → Prop) :
    Grounded (fun w req x w' => isReadAll req = false ∧ (followed reads).serve task w req x w')
      ((followed reads).contract inv) where
  sub h := served_of_trailing (trailing_of_followed htrails h.2) h.1
  grows := by
    intro w w' hrely
    have hstable : ((followed reads).contract inv).Stable fun t => w.disk.Grows t.disk :=
      followed_stable fun _ _ _ hw => hw.trans (Disk.grows_append _ _)
    exact hstable w w' (Disk.Grows.refl _) hrely
  guar_refl _ := trivial

end Followed

end LoroGateway
