import LoroGateway.Follower
import LoroGateway.FrameBijection
import LoroGateway.RecoveredBlobs

/-!
# What a command does to an actor

Over a store with followers a command leaves an actor where it stood, takes it
beyond its next frame, or takes it to the next generation (`RoomActor.Moves`).
`followed_handle` says so of every command, where the reload of a retry reads far
enough and the stream holds what the room knows (`coveringReads`).
-/

namespace LoroGateway

open ByteCodec CrashLogic CrashLogic.Server

/-! ## What a command leads to -/

section Turns

variable [Hashing] {Doc : Type} {roomId : String}

namespace RoomActor

/-- The actor stands where it stood, unless it is no longer ready. -/
structure Stays (a a' : RoomActor Doc) : Prop where
  bootId : a'.bootId = a.bootId
  generation : a'.activeDeltaGeneration = a.activeDeltaGeneration
  stream : a'.stream = a.stream
  producerId : a'.producerId = a.producerId
  producerSequence : a'.producerSequence = a.producerSequence
  history : a'.history = a.history
  ready : a'.lifecycle = .ready →
    a.lifecycle = .ready ∧ a'.activeDeltaEndOffset = a.activeDeltaEndOffset

/-- The actor has got beyond its next frame.  Nothing that it knew is lost. -/
structure Advances (before w : World) (a a' : RoomActor Doc) : Prop where
  bootId : a'.bootId = a.bootId
  generation : a'.activeDeltaGeneration = a.activeDeltaGeneration
  stream : a'.stream = a.stream
  producerId : a'.producerId = a.producerId
  producerSequence : a'.producerSequence.toNat = a.producerSequence.toNat + 1
  history : a.history.Sublist a'.history
  behind : ∀ offset, a.Precedes offset before → offset ≤ a'.activeDeltaEndOffset.toNat
  within : a'.Within w

/-- The actor has gone on to the next generation. -/
structure Rotates (roomId : String) (a a' : RoomActor Doc) : Prop where
  bootId : a'.bootId = a.bootId
  generation : a'.activeDeltaGeneration.value.toNat = a.activeDeltaGeneration.value.toNat + 1
  stream : a'.stream = (deltaStreamForGeneration roomId a'.activeDeltaGeneration).physical
  producerId : a'.producerId = producerIdForGeneration a.bootId roomId a'.activeDeltaGeneration
  endOffset : a'.activeDeltaEndOffset = 0

/-- What a command does to an actor. -/
def Moves (roomId : String) (before w : World) (a a' : RoomActor Doc) : Prop :=
  Stays a a' ∨ Advances before w a a' ∨ Rotates roomId a a'

variable {a a' : RoomActor Doc} {before w : World}

omit [Hashing] in
theorem Stays.refl (a : RoomActor Doc) : Stays a a := ⟨rfl, rfl, rfl, rfl, rfl, rfl, fun h => ⟨h, rfl⟩⟩

omit [Hashing] in
theorem Stays.stuck (a : RoomActor Doc) (blocked : Option PendingAppend) (endOffset : UInt64)
    {lifecycle : RoomLifecycle} (hnot : lifecycle ≠ .ready) (lastError : Option String) :
    Stays a (({ a with blocked := blocked, activeDeltaEndOffset := endOffset } :
      RoomActor Doc).transition lifecycle lastError) :=
  ⟨rfl, rfl, rfl, rfl, rfl, rfl, fun h => absurd h hnot⟩

theorem Stays.owns (h : Stays a a') (howns : a.Owns roomId w) : a'.Owns roomId w := by
  constructor
  · rw [h.stream, h.producerId, h.producerSequence]
    exact howns.now
  · rw [h.generation, h.bootId]
    exact howns.later

omit [Hashing] in
theorem Stays.precedes (h : Stays a a') {offset : Nat} (hoffset : a.Precedes offset w) :
    a'.Precedes offset w := by
  unfold Precedes
  rw [h.stream, h.producerId, h.producerSequence]
  exact hoffset

theorem Advances.owns (h : Advances before w a a') (howns : a.Owns roomId w) :
    a'.Owns roomId w := by
  constructor
  · rw [h.stream, h.producerId, h.producerSequence]
    exact howns.now.mono fun _ hle => Nat.le_succ_of_le hle
  · rw [h.generation, h.bootId]
    exact howns.later

omit [Hashing] in
theorem Advances.precedes (h : Advances before w a a') {offset : Nat}
    (hoffset : a.Precedes offset w) : a'.Precedes offset w := by
  unfold Precedes
  rw [h.stream, h.producerId, h.producerSequence]
  exact ⟨hoffset.1, fun sequence endOffset hlast hle =>
    hoffset.2 sequence endOffset hlast (Nat.le_of_succ_le hle)⟩

/-- Nothing has been appended yet under the next sequence. -/
theorem Advances.precedes_self (h : Advances before w a a') (howns : a.Owns roomId w) :
    a'.Precedes a'.activeDeltaEndOffset.toNat w := by
  refine ⟨h.within, ?_⟩
  rw [h.stream, h.producerId, h.producerSequence]
  intro sequence endOffset hlast hle
  have hused := howns.now.last sequence endOffset hlast
  omega

theorem Rotates.owns (h : Rotates roomId a a') (howns : a.Owns roomId w) : a'.Owns roomId w := by
  have hlater : a.activeDeltaGeneration.value < a'.activeDeltaGeneration.value := by
    rw [UInt64.lt_iff_toNat_lt, h.generation]
    exact Nat.lt_succ_self _
  constructor
  · rw [h.stream, h.producerId]
    exact (howns.later _ hlater).mono fun _ hfalse => hfalse.elim
  · intro generation hgeneration
    rw [h.bootId]
    exact howns.later generation (UInt64.lt_trans hlater hgeneration)

omit [Hashing] in
theorem precedes_zero (a : RoomActor Doc) (w : World) : a.Precedes 0 w :=
  ⟨Nat.zero_le _, fun _ _ _ _ => Nat.zero_le _⟩

end RoomActor

end Turns

/-! ## Reloads that reach the append -/

section Reload

variable [Hashing] {Doc : Type} [Loro Doc] {roomId : String} {config : ActorConfig}

/-- The read reaches the offset that the newest append was answered with. -/
def CoversAppend (w : World) (bytes : Bytes) : Prop :=
  ∀ attempt outcome, w.journal.head? = some attempt → attempt.answer = .ok outcome →
    outcome.nextOffset.toNat ≤ bytes.length

/-- The frames of its stream up to that offset hold the history of the actor. -/
def RoomActor.Held (limits : FrameLimits) (a : RoomActor Doc) (w : World) : Prop :=
  ∀ attempt outcome, w.journal.head? = some attempt → attempt.answer = .ok outcome →
    ∃ offset seen, offset ≤ outcome.nextOffset.toNat ∧
      decodeAllWithLimits ((w.disk.read a.stream).take offset) limits = .ok seen ∧
      a.history.Sublist (seen.flatMap DeltaFrame.updates)

/-- Reads from a follower.  A retry reads a whole stream only to reload it, once its append
is settled; then the read reaches the append, and the stream holds the history. -/
def coveringReads (Doc : Type) [Loro Doc] (roomId : String) (config : ActorConfig) :
    Task (gateway Doc roomId config) → World → String → Bytes → Prop
  | .command .retryAmbiguous a, w, stream, bytes =>
    bytes <+: w.disk.read stream ∧ CoversAppend w bytes ∧ a.Held config.frameLimits w
  | _, w, stream, bytes => bytes <+: w.disk.read stream

theorem coveringReads_trails : Trails (coveringReads Doc roomId config) := by
  intro task w stream bytes h
  unfold coveringReads at h
  split at h
  · exact h.1
  · exact h

/-- The blocked append that a retry has reconciled is in the history, and its end is not
beyond the end offset. -/
def RoomActor.Reconciles (a : RoomActor Doc) (w : World) (a' : RoomActor Doc) : Prop :=
  ∃ pending outcome committed, a.blocked = some pending ∧
    w.journal.head? = some ⟨pending.app, .ok outcome, committed⟩ ∧
    pending.frame.updates <:+: a'.history ∧
    outcome.nextOffset ≤ a'.activeDeltaEndOffset

variable {a : RoomActor Doc} {w before : World} {pending : PendingAppend} {n : UInt64}

/-- What a read from a follower brings back, when it reaches the append. -/
theorem RoomActor.Confirmed.reload (hconfirmed : a.Confirmed roomId config pending n w)
    (hheld : a.Held config.frameLimits w) {bytes : Bytes}
    (hfront : bytes <+: w.disk.read a.stream) (hcovers : n.toNat ≤ bytes.length)
    (hword : bytes.length < wordSize) {history : List Bytes} {doc : Doc}
    (hreplay : replayStream Doc config.frameLimits bytes = .ok (history, doc)) :
    a.history.Sublist history ∧ pending.frame.updates <:+: history := by
  have ⟨frames, hdecode, hcollect, _⟩ := replayStream_eq_ok hreplay
  have ⟨hvalid, hbytes⟩ := decodeAll_eq_logBytes hdecode
  have hhistory : history = frames.flatMap DeltaFrame.updates := collectHistory_eq_ok hcollect
  -- what ends before the end of the read starts it
  have hwithin : ∀ part, (∀ frame ∈ part, frame.Valid config.frameLimits) →
      logBytes config.frameLimits part <+: w.disk.read a.stream →
      (logBytes config.frameLimits part).length ≤ bytes.length → part <+: frames := by
    intro part hpart hstart hle
    have hlog := List.prefix_of_prefix_length_le hstart hfront hle
    rw [hbytes] at hlog hword
    exact isPrefix_of_logBytes hpart hvalid hword hlog
  constructor
  · have ⟨outcome, committed, hhead, hn⟩ := hconfirmed.answered
    have ⟨offset, seen, hoffset, hseen, hsublist⟩ := hheld _ outcome hhead rfl
    rw [hn] at hoffset
    have ⟨hseenValid, htake⟩ := decodeAll_eq_logBytes hseen
    have hle : (logBytes config.frameLimits seen).length ≤ bytes.length := by
      rw [← htake]
      exact ((List.length_take_le _ _).trans hoffset).trans hcovers
    have hstart : logBytes config.frameLimits seen <+: w.disk.read a.stream := by
      rw [← htake]
      exact List.take_prefix _ _
    have ⟨rest, hrest⟩ := hwithin seen hseenValid hstart hle
    rw [hhistory, ← hrest, List.flatMap_append]
    exact hsublist.trans (List.sublist_append_left _ _)
  · have ⟨front, log, hlog, ⟨tail, htail⟩, hn⟩ := hconfirmed.placed
    have hpart : ∀ frame ∈ front ++ [pending.frame], frame.Valid config.frameLimits := by
      intro frame hmem
      apply hlog.valid
      rw [← htail]
      exact List.mem_append_left tail hmem
    have hstart : logBytes config.frameLimits (front ++ [pending.frame]) <+:
        w.disk.read a.stream := by
      rw [hlog.content, ← htail, logBytes_append (front ++ [pending.frame])]
      exact List.prefix_append _ _
    have ⟨rest, hrest⟩ := hwithin _ hpart hstart (hn ▸ hcovers)
    refine ⟨front.flatMap DeltaFrame.updates, rest.flatMap DeltaFrame.updates, ?_⟩
    rw [hhistory, ← hrest]
    simp

/-- What a command leaves: the actor in its place, and the outcome of a retry. -/
structure RoomActor.TurnEnds (roomId : String) (config : ActorConfig) (before : World)
    (a : RoomActor Doc) (a' : RoomActor Doc) (reconciled : Prop) (w : World) : Prop where
  seated : a'.Seated roomId config
  since : a.Since roomId config before w
  moves : RoomActor.Moves roomId before w a a'
  reconciles : reconciled → a.Reconciles w a'

omit [Loro Doc] in
/-- An actor that stays where it was. -/
theorem RoomActor.Since.stays {a' : RoomActor Doc} {reconciled : Prop}
    (hw : a.Since roomId config before w) (ha' : a'.Seated roomId config)
    (hstays : RoomActor.Stays a a') (hnot : ¬ reconciled) :
    a.TurnEnds roomId config before a' reconciled w :=
  ⟨ha', hw, Or.inl hstays, fun h => absurd h hnot⟩

end Reload

section Programs

variable [Hashing] {Doc : Type} [Loro Doc] {roomId : String} {config : ActorConfig}
  {reads : Task (gateway Doc roomId config) → World → String → Bytes → Prop}
  {task : Task (gateway Doc roomId config)}
  {a : RoomActor Doc} {w before : World} {pending : PendingAppend}

omit [Loro Doc] [Hashing] in
/-- A resolution does not read a whole stream. -/
theorem isReadAll_of_resolves {req : Request} (h : RoomActor.Resolves pending req) :
    isReadAll req = false := by
  rcases h with rfl | ⟨_, _, _, rfl⟩ <;> rfl

variable (htrails : Trails reads)

include htrails

omit [Loro Doc] htrails in
/-- An append that the store accepts is confirmed, behind all that preceded it. -/
theorem RoomActor.Since.accepted {w₁ : World} (hw : a.Since roomId config before w)
    (ha : a.Seated roomId config) (hpending : a.Prepares pending)
    (haccepts : w.disk.Accepts pending.app) (hdisk : w₁.disk = w.disk.accept pending.app)
    (hhead : ∃ committed, w₁.journal.head? =
      some ⟨pending.app, .ok (.committed (w.disk.endOffset pending.app)), committed⟩) :
    a.Confirmed roomId config pending (w.disk.endOffset pending.app) w₁ ∧
      ∀ offset, a.Precedes offset before →
        offset ≤ (w.disk.endOffset pending.app).toNat := by
  have hlength := Disk.endOffset_toNat haccepts
  have happ : pending.app = deltaAppend config.frameLimits a.stream pending.frame := by
    rw [ha.stream]
    exact hpending.append_eq ha
  constructor
  · have ⟨frames, hlog⟩ := ha.log hw.recorded
    have ⟨committed, hhead⟩ := hhead
    refine ⟨⟨_, committed, hhead, rfl⟩, frames, frames ++ [pending.frame], ?_, List.prefix_refl _, ?_⟩
    · rw [hdisk, happ]
      exact hlog.accept (hpending.submittable ha) (happ ▸ haccepts)
    · rw [hlength, happ, logBytes_append, logBytes_singleton, List.length_append, ← hlog.content]
      rfl
  · intro offset hoffset
    have hle := (hw.precedes offset hoffset).1
    rw [← hpending.stream] at hle
    rw [hlength]
    exact hle.trans (Nat.le_add_right _ _)

omit [Loro Doc] htrails in
/-- An append that the store knows already is confirmed once its bytes have been read
back, behind all that preceded it. -/
theorem RoomActor.Since.known {w₁ w₃ : World} {n sequence : UInt64}
    (hw : a.Since roomId config before w₁) (ha : a.Seated roomId config)
    (hpending : a.Prepares pending) (hw₃ : Recorded roomId config.frameLimits w₃)
    (hgrow : w₁.disk.Grows w₃.disk)
    (hlast : w₁.disk.last pending.targetStream pending.producer.id = some (sequence, n))
    (hle : pending.producer.sequence ≤ sequence)
    (hends : EndsAt (w₃.disk.read pending.targetStream) n.toNat pending.bytes)
    (hhead : ∃ committed, w₃.journal.head? = some ⟨pending.app, .ok (.duplicate n), committed⟩) :
    a.Confirmed roomId config pending n w₃ ∧
      ∀ offset, a.Precedes offset before → offset ≤ n.toNat := by
  rw [hpending.stream, hpending.producer] at hlast
  rw [hpending.producer] at hle
  constructor
  · have ⟨committed, hhead⟩ := hhead
    have ⟨frames₁, hlog₁⟩ := ha.log hw.recorded
    have ⟨frames₃, hlog₃⟩ := ha.log hw₃
    rw [hpending.stream, hpending.bytes, ha.config] at hends
    have ⟨front, hfront, hn⟩ := hlog₁.exists_of_endsAt (ha.config ▸ hpending.valid) hlog₃ hgrow
      hlast hends
    exact ⟨⟨_, committed, hhead, rfl⟩, front, frames₃, hlog₃, hfront, hn⟩
  · intro offset hoffset
    exact (hw.precedes offset hoffset).2 sequence n hlast (UInt64.le_iff_toNat_le.1 hle)

/-- A resolution that succeeds has its frame in the log, behind all that preceded it. -/
theorem followed_resolve (ha : a.Seated roomId config) (hpending : a.Prepares pending)
    (hw : a.Since roomId config before w) :
    wp ((followed reads).serve task)
      ((followed reads).contract (Recorded roomId config.frameLimits))
      (resolveAppend a.config pending)
      (fun r t => a.Since roomId config before t ∧ ∀ proof, r = .ok proof →
        a.Confirmed roomId config pending proof.nextOffset t ∧
        ∀ offset, a.Precedes offset before → offset ≤ proof.nextOffset.toNat) w := by
  have hcalls : (resolveAppend a.config pending).Always (fun req => isReadAll req = false)
      fun _ => True :=
    (RoomActor.always_resolveAppend pending).mono (fun _ => isReadAll_of_resolves) fun _ h => h
  have hrequest : a.Calls roomId pending.request := Or.inr ⟨pending, hpending, rfl⟩
  have hkeeps : Keeps (fun w req x w' => isReadAll req = false ∧
      (followed reads).serve task w req x w')
      ((followed reads).contract (Recorded roomId config.frameLimits))
      (a.Since roomId config before) pending.request :=
    fun w x w' hw hinv hserve => since_keeps htrails ha hrequest w x w' hw hinv hserve.2
  apply wp_of_calls hcalls
  refine wp_resolveAppend (direct_grounded htrails _) since_stable hw hkeeps ?_ ?_ ?_ ?_
  · intro w₁ n w₂ hw₁ _ hserve hw₂ _
    refine ⟨hw₂, fun proof heq => ?_⟩
    cases heq
    have hserved := (direct_grounded htrails (fun _ => True)).sub hserve
    generalize hx : Except.ok (AppendOutcome.committed n) = x at hserved
    cases served_append hserved with
    | duplicate => cases hx
    | refused => cases hx
    | accepted haccepts hanswer =>
      have hn : n = w₁.disk.endOffset pending.app := by
        rcases hanswer with h | ⟨_, h⟩ | ⟨_, h⟩
        · exact AppendOutcome.committed.inj (Except.ok.inj (hx.trans h))
        · cases hx.trans h
        · cases hx.trans h
      subst hn
      exact hw₁.accepted ha hpending haccepts rfl ⟨true, by rw [hx]; rfl⟩
  · intro w₁ n w₂ hw₁ _ hserve w₃ hw₃ _ hrely hends
    refine ⟨hw₃, fun proof heq => ?_⟩
    cases heq
    have hkept : ∃ sequence,
        w₁.disk.last pending.targetStream pending.producer.id = some (sequence, n) := by
      have ⟨fate, hfate, _, hanswer⟩ := direct_of_followed hserve.2 hserve.1
      exact last_of_duplicate hfate hanswer
    have ⟨sequence, hlast⟩ := hkept
    have hserved := (direct_grounded htrails (fun _ => True)).sub hserve
    -- nothing that happens by itself is written into the journal
    have hsince : ((followed reads).contract (Recorded roomId config.frameLimits)).Stable
        fun t => w₂.disk.Grows t.disk ∧ t.journal = w₂.journal :=
      followed_stable fun _ _ _ ht => ⟨ht.1.trans (Disk.grows_append _ _), ht.2⟩
    have ⟨hgrow, hjournal⟩ := hsince w₂ w₃ ⟨Disk.Grows.refl _, rfl⟩ hrely
    have hgrow₁ := (served_grows hserved).trans hgrow
    generalize hx : Except.ok (AppendOutcome.duplicate n) = x at hserved
    cases served_append hserved with
    | accepted haccepts hanswer =>
      rcases hanswer with h | ⟨_, h⟩ | ⟨_, h⟩ <;> cases hx.trans h
    | refused => cases hx
    | duplicate hrefused hlast' hle =>
      obtain rfl := AppendOutcome.duplicate.inj (Except.ok.inj hx)
      obtain rfl : sequence = _ :=
        (Prod.mk.inj (Option.some.inj (hlast.symm.trans hlast'))).1
      exact hw₁.known ha hpending hw₃.recorded hgrow₁ hlast hle hends
        ⟨false, by rw [hjournal]; rfl⟩
  · intro w₁ kind message w₂ _ _ _ hw₂ _
    exact ⟨hw₂, nofun⟩
  · intro error w₂ hw₂ _
    exact ⟨hw₂, nofun⟩

theorem followed_update (ha : a.Seated roomId config) (howns : a.Owns roomId w)
    (hrecorded : Recorded roomId config.frameLimits w) {connectionId : UInt64} {batchId : BatchId}
    {updates : List Bytes} {peer : PeerSender} :
    wp ((followed reads).serve task)
      ((followed reads).contract (Recorded roomId config.frameLimits))
      (a.update connectionId batchId updates peer)
      (fun r t => a.TurnEnds roomId config w r.1 False t) w := by
  have hstart := RoomActor.Since.refl hrecorded howns
  apply RoomActor.wp_update
  · intro status _
    exact hstart.stays ha (.refl a) id
  intro admission hadmitted
  refine wp_mono ?_ (followed_resolve htrails ha hadmitted.prepares hstart)
  intro r t h
  have ⟨ht, hproof⟩ := h
  have ha' : (a.finishUpdate connectionId batchId updates peer admission r).1.Seated roomId config :=
    ha.finishUpdate hadmitted r
  match r with
  | .error (.definitelyRejected kind message) => exact ht.stays ha' (.refl a) id
  | .error (.outcomeUnknown error) =>
    have hnot : RoomLifecycle.appendAmbiguous ≠ .ready := nofun
    exact ht.stays ha' (.stuck a (some admission.pending) a.activeDeltaEndOffset hnot _) id
  | .ok proof =>
    have ⟨hconfirmed, hbehind⟩ := hproof proof rfl
    refine ⟨ha', ht, Or.inr (Or.inl ?_), False.elim⟩
    constructor
    · rfl
    · rfl
    · rfl
    · rfl
    · exact hadmitted.next
    · show a.history.Sublist admission.candidateHistory
      rw [hadmitted.history]
      exact List.sublist_append_left _ _
    · exact hbehind
    · exact hconfirmed.le_length

theorem followed_rotate (ha : a.Seated roomId config) (howns : a.Owns roomId w)
    (hrecorded : Recorded roomId config.frameLimits w) :
    wp ((followed reads).serve task)
      ((followed reads).contract (Recorded roomId config.frameLimits))
      a.rotateGeneration (fun r t => a.TurnEnds roomId config w r.1 False t) w := by
  have hstart := RoomActor.Since.refl hrecorded howns
  have hspares : ∀ req, SparesDeltas roomId req → a.Calls roomId req := by
    intro req h
    cases req with
    | append stream producer body => exact Or.inl (h stream producer body rfl)
    | _ => trivial
  apply RoomActor.wp_rotateGeneration
  · intro _
    exact hstart.stays ha (.refl a) id
  intro _ hblocked
  rw [ha.room]
  refine wp_mono ?_ (wp_of_allowed since_stable
    (fun req hreq => since_keeps htrails ha (hspares req hreq))
    (always_rotateRoom a.activeDeltaGeneration a.activeDeltaEndOffset a.doc a.history
      a.config.ambiguousRetries) hstart)
  intro r t h
  have ⟨hrotated, ht⟩ := h
  cases r with
  | error error =>
    have hnot : RoomLifecycle.unavailable ≠ .ready := nofun
    exact ht.stays (ha.stuck hnot a.activeDeltaEndOffset _)
      (.stuck a a.blocked a.activeDeltaEndOffset hnot _) id
  | ok rotated =>
    have ⟨hnext, hstream⟩ := hrotated rotated rfl
    refine ⟨ha.withRotation hblocked hstream, ht, Or.inr (Or.inr ?_), False.elim⟩
    constructor
    · rfl
    · exact hnext
    · exact hstream
    · show producerIdForGeneration a.bootId a.roomId rotated.nextDeltaGeneration = _
      rw [ha.room]
      rfl
    · rfl

omit htrails in
theorem followed_reload (ha : a.Seated roomId config) (hblocked : a.blocked = some pending)
    {n : UInt64} (hw : a.Since roomId config before w)
    (hconfirmed : a.Confirmed roomId config pending n w)
    (hbehind : ∀ offset, a.Precedes offset before → offset ≤ n.toNat) :
    wp ((followed (coveringReads Doc roomId config)).serve (.command .retryAmbiguous a))
      ((followed (coveringReads Doc roomId config)).contract (Recorded roomId config.frameLimits))
      (({ a with blocked := none } : RoomActor Doc).reload pending)
      (fun r t => a.TurnEnds roomId config before r.1 (r.2 = true) t) w := by
  have hback : ∀ (endOffset : UInt64) (lifecycle : RoomLifecycle) (lastError : Option String),
      lifecycle ≠ .ready →
      (({ a with blocked := some pending, activeDeltaEndOffset := endOffset } :
        RoomActor Doc).transition lifecycle lastError).Seated roomId config := by
    intro endOffset lifecycle lastError hnot
    rw [← hblocked]
    exact ha.stuck hnot endOffset lastError
  have hstuck : ∀ (endOffset : UInt64) (lifecycle : RoomLifecycle) (lastError : Option String)
      (t : World), lifecycle ≠ .ready → a.Since roomId config before t →
      a.TurnEnds roomId config before (({ a with
        blocked := some pending, activeDeltaEndOffset := endOffset } : RoomActor Doc).transition
          lifecycle lastError) (false = true) t :=
    fun endOffset lifecycle lastError t hnot ht =>
      ht.stays (hback endOffset lifecycle lastError hnot) (.stuck a _ endOffset hnot _) (by simp)
  have hstable : ((followed (coveringReads Doc roomId config)).contract
      (Recorded roomId config.frameLimits)).Stable fun t => a.Since roomId config before t ∧
        a.Confirmed roomId config pending n t := by
    apply followed_stable
    intro t app hmem ht
    have ht' := ht.1.deliver hmem
    exact ⟨ht', ht.2.grow ha ht'.recorded (Disk.grows_append _ _) rfl⟩
  unfold RoomActor.reload RoomActor.loadFromStore
  rw [wp_bind, wp_bind]
  apply wp_call
  intro w₁ hrely hinv₁ x w₂ hserve
  obtain ⟨hsame, hread⟩ := hserve
  obtain ⟨hw₁, hconfirmed₁⟩ := hstable w w₁ ⟨hw, hconfirmed⟩ hrely
  subst hsame
  refine ⟨hinv₁, trivial, ?_⟩
  cases x with
  | error error =>
    have hnot : (initializationStoreFailure error).state ≠ .ready := by
      rcases RoomActor.initializationStoreFailure_state error with h | h <;> rw [h] <;> decide
    exact hstuck a.activeDeltaEndOffset _ _ w₂ hnot hw₁
  | ok bytes =>
    obtain ⟨hfront, hcovers, hheld⟩ := hread bytes rfl
    obtain ⟨outcome, committed, hhead, hn⟩ := hconfirmed₁.answered
    have hreach : n.toNat ≤ bytes.length := hn ▸ hcovers _ _ hhead rfl
    rw [wp_ret]
    dsimp only
    cases hlength : u64OfUsize bytes.length with
    | none => exact hstuck a.activeDeltaEndOffset .corrupt _ w₂ (by decide) hw₁
    | some endOffset =>
      have hend := u64OfUsize_eq_some.1 hlength
      dsimp only
      cases hreplay : replayStream Doc a.config.frameLimits bytes with
      | error failure =>
        have hnot : failure.state ≠ .ready := by
          rw [RoomActor.replayStream_error hreplay]
          decide
        exact hstuck endOffset failure.state _ w₂ hnot hw₁
      | ok loaded =>
        obtain ⟨history, doc⟩ := loaded
        show RoomActor.TurnEnds roomId config before a (RoomActor.finishReload pending _ _).1
          ((RoomActor.finishReload pending _ _).2 = true) w₂
        unfold RoomActor.finishReload
        cases hnext : checkedAddU64 pending.producer.sequence 1 with
        | none => exact hstuck endOffset .unavailable _ w₂ (by decide) hw₁
        | some next =>
          have hprepares := (ha.blocked pending hblocked).2
          have hsequence := checkedAddU64_eq_some.1 hnext
          rw [hprepares.producer] at hsequence
          have hword : bytes.length < wordSize := by
            rw [← hend]
            exact endOffset.toNat_lt
          rw [ha.config] at hreplay
          obtain ⟨hsublist, hinfix⟩ := hconfirmed₁.reload hheld hfront hreach hword hreplay
          have hadvances : RoomActor.Advances before w₂ a (({ a with
              blocked := none
              activeDeltaEndOffset := endOffset
              producerSequence := next
              history := history
              doc := doc } : RoomActor Doc).transition .ready none) := by
            constructor
            · rfl
            · rfl
            · rfl
            · rfl
            · exact hsequence
            · exact hsublist
            · intro offset hoffset
              show offset ≤ endOffset.toNat
              rw [hend]
              exact (hbehind offset hoffset).trans hreach
            · show endOffset.toNat ≤ _
              rw [hend]
              exact hfront.length_le
          refine ⟨ha.reloaded endOffset next history doc, hw₁, Or.inr (Or.inl hadvances), fun _ => ?_⟩
          refine ⟨pending, outcome, committed, hblocked, hhead, hinfix, ?_⟩
          show outcome.nextOffset ≤ endOffset
          rw [UInt64.le_iff_toNat_le, hend, hn]
          exact hreach

omit htrails in
theorem followed_retry (ha : a.Seated roomId config) (howns : a.Owns roomId w)
    (hrecorded : Recorded roomId config.frameLimits w) :
    wp ((followed (coveringReads Doc roomId config)).serve (.command .retryAmbiguous a))
      ((followed (coveringReads Doc roomId config)).contract
        (Recorded roomId config.frameLimits))
      a.retryPending (fun r t => a.TurnEnds roomId config w r.1 (r.2 = true) t) w := by
  have hstart := RoomActor.Since.refl hrecorded howns
  cases hblocked : a.blocked with
  | none =>
    unfold RoomActor.retryPending
    rw [hblocked]
    exact hstart.stays ha (.refl a) nofun
  | some pending =>
    have hprepares := (ha.blocked pending hblocked).2
    have hstuck : ∀ (lifecycle : RoomLifecycle) (lastError : Option String) (t : World),
        lifecycle ≠ .ready → a.Since roomId config w t →
        a.TurnEnds roomId config w (({ a with blocked := some pending } : RoomActor Doc).transition
          lifecycle lastError) (false = true) t := by
      intro lifecycle lastError t hnot ht
      have ha' := ha.stuck hnot a.activeDeltaEndOffset lastError
      have hstays := RoomActor.Stays.stuck a a.blocked a.activeDeltaEndOffset hnot lastError
      rw [← hblocked]
      exact ht.stays ha' hstays nofun
    rw [RoomActor.retryPending_eq hblocked, wp_bind]
    refine wp_mono ?_ (followed_resolve coveringReads_trails ha hprepares hstart)
    intro r t h
    have ⟨ht, hproof⟩ := h
    match r with
    | .error (.definitelyRejected kind message) => exact hstuck .unavailable _ t nofun ht
    | .error (.outcomeUnknown error) => exact hstuck .appendAmbiguous _ t nofun ht
    | .ok proof =>
      have ⟨hconfirmed, hbehind⟩ := hproof proof rfl
      exact followed_reload ha hblocked ht hconfirmed hbehind

omit htrails in
/-- Every command leaves the actor in its place, and knowing no less. -/
theorem followed_handle (ha : a.Seated roomId config) (howns : a.Owns roomId w)
    (hrecorded : Recorded roomId config.frameLimits w) (command : Command) :
    wp ((followed (coveringReads Doc roomId config)).serve (.command command a))
      ((followed (coveringReads Doc roomId config)).contract
        (Recorded roomId config.frameLimits))
      (a.handle command)
      (fun r t => a.TurnEnds roomId config w r.1
        (command = .retryAmbiguous ∧ r.2 = [.respond true]) t) w := by
  have hstart := RoomActor.Since.refl hrecorded howns
  have hpeers : ∀ (peers : Peers) (ids : Stream' UInt64), RoomActor.Stays a
      { a with peers := peers, serverBatchIds := ids } :=
    fun _ _ => ⟨rfl, rfl, rfl, rfl, rfl, rfl, fun h => ⟨h, rfl⟩⟩
  apply RoomActor.wp_handle
  · rintro rfl
    exact hstart.stays ha (.refl a) (by simp)
  · rintro rfl
    refine wp_mono ?_ (followed_retry ha howns hrecorded)
    intro r t h
    refine ⟨h.seated, h.since, h.moves, fun hreconciled => h.reconciles ?_⟩
    simpa using hreconciled.2
  · rintro rfl
    refine wp_mono ?_ (followed_rotate coveringReads_trails ha howns hrecorded)
    intro r t h
    exact ⟨h.seated, h.since, h.moves, fun hreconciled => by cases hreconciled.1⟩
  · intro _
    refine hstart.stays ha (.refl a) ?_
    rintro ⟨rfl, hrespond⟩
    simp [RoomActor.rejectUnavailable] at hrespond
  · rintro connectionId version peer rfl _
    obtain ⟨peers, ids, hjoin⟩ := a.join_fst connectionId version peer
    rw [hjoin]
    exact hstart.stays (ha.withPeers peers ids) (hpeers peers ids) (by simp)
  · rintro connectionId batchId updates peer rfl _
    refine wp_mono ?_ (followed_update coveringReads_trails ha howns hrecorded)
    intro r t h
    exact ⟨h.seated, h.since, h.moves, fun hreconciled => by cases hreconciled.1⟩
  · rintro connectionId rfl _
    exact hstart.stays (ha.withPeers _ _) (hpeers _ _) (by simp)

end Programs

end LoroGateway
