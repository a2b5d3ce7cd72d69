import LoroGateway.Answered
import LoroGateway.Content
import LoroGateway.Scripted
import LoroGateway.Visible

/-!
# Bounded recovery against full replay

A room that has rotated is recovered from the last checkpoint and the frames
after it.  The other design would keep no checkpoint and import the frames of
all generations.  `Mirrored` ties the two: the content that a recovery reads is
that of all frames up to the active generation.  It holds between any two calls,
also in the middle of a rotation, as long as every append of a frame is
answered, so that no frame is in a stream that the actor has not seen.
-/

namespace LoroGateway

open ByteCodec CrashLogic CrashLogic.Server

section

variable [Hashing] {Doc : Type} [Loro Doc] {roomId : String} {config : ActorConfig}

/-! ## A store that answers every append -/

/-- Every append to a delta stream is answered: it is committed, or it is refused without
effect. -/
def Answering (roomId : String) (serve : Serve Request Answer World) : Prop :=
  ∀ {w : World} {stream : String} {producer : ProducerTuple} {body : Bytes}
    {x : Answer (.append stream producer body)} {w' : World},
    (∃ generation, stream = (deltaStreamForGeneration roomId generation).physical) →
    serve w (.append stream producer body) x w' →
      (x, w') = w.serve .answered (.append stream producer body) ∨
        ∃ kind message, x = .error (.rejected kind message) ∧ w'.disk = w.disk

/-- A lossy store that answers every append to a delta stream. -/
def Policy.settling : Policy Doc roomId config where
  fate req fate :=
    match req with
    | .append stream _ _ => fate.Prompt ∧
        ((∃ generation, stream = (deltaStreamForGeneration roomId generation).physical) →
          fate = .answered ∨ ∃ kind message, fate = .failed (.rejected kind message))
    | _ => fate.Prompt
  answer _ _ _ _ := True
  deliver _ _ _ := False
  accept _ _ _ _ := True

theorem Policy.settling_prompt {req : Request} {fate : Fate}
    (h : (Policy.settling : Policy Doc roomId config).fate req fate) : fate.Prompt := by
  cases req with
  | append stream producer body => exact h.1
  | ensureStream stream => exact h
  | readAll stream => exact h
  | readRange stream offset length => exact h

theorem Policy.settling_quiet : (Policy.settling : Policy Doc roomId config).Quiet where
  honest := by
    rintro req _ n h rfl
    exact Policy.settling_prompt h
  still _ _ _ := id

/-- Where every append is answered, those to the delta streams are. -/
theorem RoomReachable.settling {g : System (gateway Doc roomId config) World}
    (hreach : RoomReachable Policy.answering g) : RoomReachable Policy.settling g := by
  unfold RoomReachable at hreach ⊢
  suffices hlarger : ∀ {task w req x w'},
      (environment (Policy.answering : Policy Doc roomId config)).serve task w req x w' →
        (environment (Policy.settling : Policy Doc roomId config)).serve task w req x w' by
    exact hreach.mono (fun _ _ _ _ _ => hlarger) (fun _ _ _ h => h) (fun _ _ _ h => h)
      (fun _ _ _ _ h => h) (fun _ _ h => h) fun _ h => h
  rintro task w req x w' ⟨fate, hfate, hanswer, heq⟩
  refine ⟨fate, ?_, hanswer, heq⟩
  cases req with
  | append stream producer body =>
    refine ⟨?_, fun _ => hfate⟩
    rcases hfate with rfl | ⟨_, _, rfl⟩
    · trivial
    · trivial
  | ensureStream stream => exact hfate
  | readAll stream => exact hfate
  | readRange stream offset length => exact hfate

theorem answering_serve (L : World → RoomActor Doc → Prop)
    (task : Task (gateway Doc roomId config)) :
    Answering roomId ((keptWith (Policy.settling : Policy Doc roomId config) L).serve task) := by
  rintro w stream producer body x w' hstream ⟨⟨fate, hfate, _, heq⟩, _⟩
  rcases hfate.2 hstream with rfl | ⟨kind, message, rfl⟩
  · exact .inl heq
  · obtain ⟨rfl, rfl⟩ := Prod.mk.inj heq
    exact .inr ⟨kind, message, rfl, rfl⟩

/-- An append whose number is new is committed, or it is refused and nothing has changed. -/
theorem Answering.append_cases {serve : Serve Request Answer World} (hanswers : Answering roomId serve)
    {w w' : World} {stream : String} {producer : ProducerTuple} {body : Bytes}
    {x : Answer (.append stream producer body)}
    (hstream : ∃ generation, stream = (deltaStreamForGeneration roomId generation).physical)
    (hserve : serve w (.append stream producer body) x w')
    (hnew : ∀ sequence offset, w.disk.last stream producer.id = some (sequence, offset) →
      sequence < producer.sequence) :
    (∃ n, x = .ok (.committed n)) ∨
      (∃ kind message, x = .error (.rejected kind message)) ∧ w'.disk = w.disk := by
  rcases hanswers hstream hserve with heq | ⟨kind, message, hx, hdisk⟩
  · by_cases haccepts : w.disk.Accepts ⟨stream, producer, body⟩
    · exact .inl ⟨_, congrArg Prod.fst (heq.trans (serve_answered_append haccepts))⟩
    · obtain ⟨hx, hw'⟩ := Prod.mk.inj heq
      have hrefused : x = w.disk.refusal ⟨stream, producer, body⟩ := hx.trans (if_neg haccepts)
      obtain ⟨message, hrefusal⟩ | ⟨sequence, endOffset, hlast, hle, _⟩ :=
        w.disk.refusal_cases ⟨stream, producer, body⟩
      · refine .inr ⟨⟨_, _, hrefused.trans hrefusal⟩, ?_⟩
        rw [hw']
        exact Disk.append_of_not_accepts haccepts
      · exact absurd hle (UInt64.not_le.mpr (hnew sequence endOffset hlast))
  · exact .inr ⟨⟨kind, message, hx⟩, hdisk⟩

omit [Loro Doc] in
/-- The number that a producer carries next is not in a log that it has seen. -/
theorem RoomActor.Tracks.unused {a : RoomActor Doc} {d : Disk} {seen : List DeltaFrame}
    (h : a.Tracks roomId config.frameLimits d seen)
    (hlog : DeltaLog (NamedFrame roomId a.activeDeltaGeneration) config.frameLimits
      (deltaStreamForGeneration roomId a.activeDeltaGeneration).physical d seen)
    {sequence offset : UInt64}
    (hlast : d.last (deltaStreamForGeneration roomId a.activeDeltaGeneration).physical a.producerId =
      some (sequence, offset)) : sequence < a.producerSequence := by
  have hentry := hlog.last a.producerId
  rw [hlast] at hentry
  obtain ⟨front, frame, rest, hframes, _, hid, hsequence, _⟩ := hentry
  have hmem : frame ∈ seen := hframes ▸ List.mem_append_right front List.mem_cons_self
  have hbehind := h.log.behind frame hmem hid
  rw [hsequence] at hbehind
  exact UInt64.lt_iff_toNat_lt.mpr hbehind

section Resolve

variable {serve : Serve Request Answer World} (hs : Orderly Doc roomId config serve)
  (hanswers : Answering roomId serve) {F : World → Prop} {w : World}

include hs hanswers

/-- A resolution commits the append at once, or it is refused and nothing has changed. -/
theorem Orderly.resolve_answering {config' : ActorConfig} {pending : PendingAppend}
    (hstream : ∃ generation,
      pending.targetStream = (deltaStreamForGeneration roomId generation).physical)
    (hnew : ∀ sequence offset, w.disk.last pending.targetStream pending.producer.id =
      some (sequence, offset) → sequence < pending.producer.sequence)
    (hF : ∀ w', Kept Doc roomId config w' → Tried w.disk pending.app w'.disk → F w') :
    wp serve (Contract.orderly Doc roomId config F) (resolveAppend config' pending)
      (fun r (t : World) => (∃ n, r = .ok (.committed n)) ∨
        (∃ kind message, r = .error (.definitelyRejected kind message)) ∧ t.disk = w.disk) w := by
  rw [resolveAppend, resolveAttempts]
  refine wp_call_alone fun _ x t hserve => ?_
  have hkept := (hs.kept hserve).2
  have htried : Tried w.disk pending.app t.disk := Tried.serve (.inl rfl) (hs.sub hserve)
  refine ⟨⟨hkept, hF t hkept htried⟩, ?_⟩
  obtain ⟨n, rfl⟩ | ⟨⟨kind, message, rfl⟩, hdisk⟩ := hanswers.append_cases hstream hserve hnew
  · exact .inl ⟨n, rfl⟩
  · exact .inr ⟨⟨kind, message, rfl⟩, hdisk⟩

end Resolve

/-! ## The frames of all generations -/

/-- The generations up to one, in their order. -/
def generationsTo (generation : GenerationId) : List GenerationId :=
  (List.range (generation.value.toNat + 1)).map fun n => ⟨UInt64.ofNat n⟩

/-- The blobs of all frames of the generations up to one, in their order. -/
def allBlobs (logs : GenerationId → List DeltaFrame) (generation : GenerationId) : List Bytes :=
  (generationsTo generation).flatMap fun source => (logs source).flatMap DeltaFrame.updates

omit [Hashing] [Loro Doc] in
theorem mem_generationsTo {generation source : GenerationId} :
    source ∈ generationsTo generation ↔ source.value ≤ generation.value := by
  rw [generationsTo, List.mem_map, UInt64.le_iff_toNat_le]
  constructor
  · rintro ⟨n, hn, rfl⟩
    rw [List.mem_range] at hn
    have hlt := generation.value.toNat_lt
    rw [UInt64.toNat_ofNat_of_lt' (by show n < 2 ^ 64; omega)]
    omega
  · intro hle
    exact ⟨source.value.toNat, List.mem_range.mpr (Nat.lt_succ_of_le hle),
      GenerationId.ext (UInt64.ofNat_toNat)⟩

section Frames

variable {limits : FrameLimits} {d d' : Disk} {generation : GenerationId} {blob : Bytes}

omit [Loro Doc] in
/-- The blobs of the frames are those of the logs. -/
theorem mem_allBlobs {logs : GenerationId → List DeltaFrame}
    (hlogs : ∀ generation, DeltaLog (NamedFrame roomId generation) limits
      (deltaStreamForGeneration roomId generation).physical d (logs generation)) :
    blob ∈ allBlobs logs generation ↔ FromFrame limits roomId generation d blob := by
  simp only [allBlobs, List.mem_flatMap, mem_generationsTo]
  constructor
  · rintro ⟨source, hle, frame, hframe, hblob⟩
    exact ⟨source, frame, hle, ⟨_, hlogs source, hframe⟩, hblob⟩
  · rintro ⟨source, frame, hle, ⟨frames, hlog, hframe⟩, hblob⟩
    exact ⟨source, hle, frame, hlog.unique (hlogs source) ▸ hframe, hblob⟩

omit [Loro Doc] in
/-- Where the delta streams are the same, so are the frames. -/
theorem FromFrame.congr (hsame : ∀ source : GenerationId, source.value ≤ generation.value →
      d'.read (deltaStreamForGeneration roomId source).physical =
        d.read (deltaStreamForGeneration roomId source).physical ∧
      ∀ id, d'.last (deltaStreamForGeneration roomId source).physical id =
        d.last (deltaStreamForGeneration roomId source).physical id) :
    FromFrame limits roomId generation d' blob ↔ FromFrame limits roomId generation d blob := by
  constructor
  · rintro ⟨source, frame, hle, ⟨frames, hlog, hframe⟩, hblob⟩
    obtain ⟨hread, hlast⟩ := hsame source hle
    exact ⟨source, frame, hle, ⟨frames, hlog.congr hread.symm fun id => (hlast id).symm, hframe⟩,
      hblob⟩
  · rintro ⟨source, frame, hle, ⟨frames, hlog, hframe⟩, hblob⟩
    obtain ⟨hread, hlast⟩ := hsame source hle
    exact ⟨source, frame, hle, ⟨frames, hlog.congr hread hlast, hframe⟩, hblob⟩

omit [Loro Doc] in
/-- An accepted frame adds its blobs. -/
theorem fromFrame_accept {frames : List DeltaFrame} {frame : DeltaFrame}
    (hlog : DeltaLog (NamedFrame roomId generation) limits
      (deltaStreamForGeneration roomId generation).physical d frames)
    (hframe : Submittable (NamedFrame roomId generation) limits frame)
    (haccepts : d.Accepts (deltaAppend limits
      (deltaStreamForGeneration roomId generation).physical frame)) :
    FromFrame limits roomId generation (d.accept (deltaAppend limits
        (deltaStreamForGeneration roomId generation).physical frame)) blob ↔
      FromFrame limits roomId generation d blob ∨ blob ∈ frame.updates := by
  have hlog' := hlog.accept hframe haccepts
  constructor
  · rintro ⟨source, other, hle, ⟨others, hothers, hmem⟩, hblob⟩
    by_cases hsource : source = generation
    · subst hsource
      obtain rfl := hothers.unique hlog'
      rcases List.mem_append.mp hmem with hmem | hmem
      · exact .inl ⟨source, other, hle, ⟨frames, hlog, hmem⟩, hblob⟩
      · obtain rfl := List.mem_singleton.mp hmem
        exact .inr hblob
    · have hne : (deltaStreamForGeneration roomId source).physical ≠
          (deltaStreamForGeneration roomId generation).physical := fun heq =>
        hsource (deltaStream_inj heq)
      refine .inl ⟨source, other, hle, ⟨others, hothers.congr ?_ fun id => ?_, hmem⟩, hblob⟩
      · exact (Disk.read_accept_ne hne).symm
      · exact (Disk.last_accept_ne fun heq => hne heq.1).symm
  · rintro (⟨source, other, hle, ⟨others, hothers, hmem⟩, hblob⟩ | hblob)
    · by_cases hsource : source = generation
      · subst hsource
        obtain rfl := hothers.unique hlog
        exact ⟨source, other, hle, ⟨_, hlog', List.mem_append_left _ hmem⟩, hblob⟩
      · have hne : (deltaStreamForGeneration roomId generation).physical ≠
            (deltaStreamForGeneration roomId source).physical := fun heq =>
          hsource (deltaStream_inj heq).symm
        exact ⟨source, other, hle, ⟨others, hothers.accept_ne hne, hmem⟩, hblob⟩
    · exact ⟨generation, frame, UInt64.le_refl _,
        ⟨_, hlog', List.mem_append_right _ (List.mem_singleton_self _)⟩, hblob⟩

omit [Loro Doc] in
/-- A next generation without frames adds none. -/
theorem fromFrame_next {next : GenerationId} (hnext : next.value.toNat = generation.value.toNat + 1)
    (hempty : d.read (deltaStreamForGeneration roomId next).physical = []) :
    FromFrame limits roomId next d blob ↔ FromFrame limits roomId generation d blob := by
  constructor
  · rintro ⟨source, frame, hle, ⟨frames, hlog, hframe⟩, hblob⟩
    refine ⟨source, frame, ?_, ⟨frames, hlog, hframe⟩, hblob⟩
    rw [UInt64.le_iff_toNat_le] at hle ⊢
    rcases Nat.lt_or_ge source.value.toNat next.value.toNat with hlt | hge
    · omega
    · obtain rfl : source = next := GenerationId.ext (UInt64.toNat_inj.mp (Nat.le_antisymm hle hge))
      rw [hlog.eq_nil hempty] at hframe
      cases hframe
  · rintro ⟨source, frame, hle, hcommitted, hblob⟩
    refine ⟨source, frame, ?_, hcommitted, hblob⟩
    rw [UInt64.le_iff_toNat_le] at hle ⊢
    omega

end Frames

/-! ## The content of a recovery is that of all frames -/

section Mirrored

variable {Op : Type} (S : Loro.Observers Doc Op)

/-- A recovery reads the content of all frames up to the active generation, each of their
blobs has been imported by some document, and no later generation has frames. -/
structure Mirrored (limits : FrameLimits) (roomId : String) (d : Disk) (generation : GenerationId)
    (base : Option CheckpointRecord) (frames : List DeltaFrame) : Prop
    extends OnDisk Doc roomId limits d generation base frames where
  content : S.contentOps base frames = frameOps S limits roomId generation d
  importable : Loro.Total S →
    ∀ blob, FromFrame limits roomId generation d blob → Importable Doc blob
  later : ∀ later : GenerationId, generation.value < later.value →
    d.read (deltaStreamForGeneration roomId later).physical = []

variable {S} {limits : FrameLimits} {d d' : Disk} {generation : GenerationId}
  {base : Option CheckpointRecord} {frames : List DeltaFrame}

theorem frameOps_congr {generation' : GenerationId}
    (h : ∀ blob, FromFrame limits roomId generation' d' blob ↔
      FromFrame limits roomId generation d blob) :
    frameOps S limits roomId generation' d' = frameOps S limits roomId generation d := by
  simp only [frameOps, h]

namespace Mirrored

omit [Loro Doc] in
theorem not_fromFrame_empty (blob : Bytes) :
    ¬ FromFrame limits roomId generation Disk.empty blob := by
  rintro ⟨source, frame, _, ⟨frames, hlog, hframe⟩, _⟩
  rw [hlog.unique .empty] at hframe
  cases hframe

theorem empty : Mirrored S limits roomId Disk.empty .zero none [] where
  toOnDisk := .empty
  content := by
    have hempty : frameOps S limits roomId .zero Disk.empty = ∅ :=
      Set.eq_empty_iff_forall_notMem.mpr fun o ho => ho.elim fun blob h => not_fromFrame_empty blob h.1
    rw [hempty, contentOps_nil]
    rfl
  importable _ blob hblob := absurd hblob (not_fromFrame_empty blob)
  later _ _ := rfl

theorem same (h : Mirrored S limits roomId d generation base frames) (hsame : d.Same d') :
    Mirrored S limits roomId d' generation base frames := by
  have hframes : ∀ blob, FromFrame limits roomId generation d' blob ↔
      FromFrame limits roomId generation d blob := fun blob =>
    FromFrame.congr fun _ _ => by rw [hsame.read, hsame.last]; exact ⟨rfl, fun _ => rfl⟩
  exact
    { toOnDisk := h.toOnDisk.same hsame
      content := h.content.trans (frameOps_congr hframes).symm
      importable := fun total blob hblob => h.importable total blob ((hframes blob).mp hblob)
      later := by
        rw [hsame.read]
        exact h.later }

/-- A frame that is committed adds to both sides what it brings. -/
theorem accept (h : Mirrored S config.frameLimits roomId d generation base frames)
    {frame : DeltaFrame} (hframe : Submittable (NamedFrame roomId generation) config.frameLimits frame)
    (haccepts : d.Accepts (deltaAppend config.frameLimits
      (deltaStreamForGeneration roomId generation).physical frame))
    (himportable : Loro.Total S → ∀ blob ∈ frame.updates, Importable Doc blob) :
    Mirrored S config.frameLimits roomId (d.accept (deltaAppend config.frameLimits
      (deltaStreamForGeneration roomId generation).physical frame)) generation base
      (frames ++ [frame]) where
  toOnDisk := h.toOnDisk.accept hframe haccepts
  content := by
    rw [contentOps_snoc, h.content]
    ext o
    simp only [frameOps, fromFrame_accept h.log hframe haccepts, Set.mem_union, Set.mem_ofPred_eq,
      or_and_right, exists_or]
    rfl
  importable total blob hblob := by
    rcases (fromFrame_accept h.log hframe haccepts).mp hblob with hblob | hblob
    · exact h.importable total blob hblob
    · exact himportable total blob hblob
  later later hlt := by
    have hne : (deltaStreamForGeneration roomId later).physical ≠
        (deltaAppend config.frameLimits (deltaStreamForGeneration roomId generation).physical
          frame).stream := by
      intro heq
      rw [deltaStream_inj heq] at hlt
      exact absurd hlt (UInt64.lt_irrefl _)
    exact (Disk.read_accept_ne hne).trans (h.later later hlt)

/-- The append of a frame is tried. -/
theorem tried (h : Mirrored S config.frameLimits roomId d generation base frames) {a : RoomActor Doc}
    (ha : a.Seated roomId config) (hgeneration : a.activeDeltaGeneration = generation)
    {pending : PendingAppend} (hpending : a.Prepares pending) (htried : Tried d pending.app d')
    (himportable : Loro.Total S → ∀ blob ∈ pending.frame.updates, Importable Doc blob) :
    ∃ frames', Mirrored S config.frameLimits roomId d' generation base frames' := by
  rcases htried with rfl | ⟨haccepts, rfl⟩
  · exact ⟨frames, h⟩
  · have happ : pending.app = _ := hpending.append_eq ha
    rw [happ] at haccepts ⊢
    subst hgeneration
    exact ⟨_, h.accept (hpending.submittable ha) haccepts himportable⟩

end Mirrored

/-- While an actor that knows all frames closes its generation, the two stay the same. -/
theorem RoomActor.Closing.mirrored (sem : Loro.Semantics S) {a : RoomActor Doc} {w' : World}
    (h : a.Closing roomId d w'.disk) (hkept : Kept Doc roomId config w') (ha : a.Remembers S)
    (hmirrored : Mirrored S config.frameLimits roomId d a.activeDeltaGeneration base frames)
    (hknown : S.known a.doc = S.contentOps base frames) :
    Mirrored S config.frameLimits roomId w'.disk a.activeDeltaGeneration base frames ∨
      ∃ next checkpoint, a.Superseded roomId next checkpoint w'.disk ∧
        Mirrored S config.frameLimits roomId w'.disk next (some checkpoint) [] := by
  have hframes : ∀ blob, FromFrame config.frameLimits roomId a.activeDeltaGeneration w'.disk blob ↔
      FromFrame config.frameLimits roomId a.activeDeltaGeneration d blob := fun blob =>
    FromFrame.congr fun source _ => h.deltas source
  refine (h.holding hkept hmirrored.toOnDisk).imp (fun hheld => ?_) ?_
  · exact
      { toOnDisk := hheld
        content := hmirrored.content.trans (frameOps_congr hframes).symm
        importable := fun total blob hblob =>
          hmirrored.importable total blob ((hframes blob).mp hblob)
        later := fun later hlt => (h.deltas later).1.trans (hmirrored.later later hlt) }
  · rintro ⟨next, checkpoint, hnext, hheld⟩
    have hframes' : ∀ blob, FromFrame config.frameLimits roomId next w'.disk blob ↔
        FromFrame config.frameLimits roomId a.activeDeltaGeneration d blob := fun blob =>
      (fromFrame_next hnext.succ hnext.empty).trans (hframes blob)
    exact ⟨next, checkpoint, hnext,
      { toOnDisk := hheld
        content := by
          rw [contentOps_nil, hnext.baseOps sem ha, hknown, hmirrored.content]
          exact (frameOps_congr hframes').symm
        importable := fun total blob hblob =>
          hmirrored.importable total blob ((hframes' blob).mp hblob)
        later := fun later hlt => by
          have hsucc := hnext.succ
          refine (h.deltas later).1.trans (hmirrored.later later ?_)
          rw [UInt64.lt_iff_toNat_lt] at hlt ⊢
          omega }⟩

end Mirrored

/-! ## The invariant -/

section Runs

variable {Op : Type} (S : Loro.Observers Doc Op) (roomId config)

/-- A room whose frames are all answered: it is never blocked, and when it is ready it
has seen every frame and knows what a recovery would read. -/
structure Mirrors (w : World) (a : RoomActor Doc) : Prop where
  unblocked : a.blocked = none
  disk : ∃ generation base frames,
    Mirrored S config.frameLimits roomId w.disk generation base frames
  ready : a.lifecycle = .ready → ∃ base frames,
    Mirrored S config.frameLimits roomId w.disk a.activeDeltaGeneration base frames ∧
    a.Tracks roomId config.frameLimits w.disk frames ∧
    S.known a.doc = S.contentOps base frames

variable {S} {roomId config} {serve : Serve Request Answer World}
  (hs : Orderly Doc roomId config serve) {w : World}

namespace Mirrors

/-- The room stands where it stood. -/
theorem congr {a a' : RoomActor Doc} (h : Mirrors roomId config S w a)
    (hblocked : a'.blocked = a.blocked) (hlifecycle : a'.lifecycle = a.lifecycle)
    (hgeneration : a'.activeDeltaGeneration = a.activeDeltaGeneration)
    (hproducer : a'.producerId = a.producerId) (hsequence : a'.producerSequence = a.producerSequence)
    (hhistory : a'.history = a.history) (hoffset : a'.activeDeltaEndOffset = a.activeDeltaEndOffset)
    (hdoc : a'.doc = a.doc) : Mirrors roomId config S w a' where
  unblocked := hblocked.trans h.unblocked
  disk := h.disk
  ready hready := by
    obtain ⟨base, frames, hmirrored, htracks, hknown⟩ := h.ready (hlifecycle ▸ hready)
    refine ⟨base, frames, hgeneration ▸ hmirrored, ?_, hdoc ▸ hknown⟩
    exact htracks.congr hgeneration hproducer hsequence hhistory
      fun hready => ⟨hlifecycle ▸ hready, hoffset⟩

end Mirrors

/-- What holds between any two calls. -/
abbrev MirroredDisk (S : Loro.Observers Doc Op) (roomId : String) (config : ActorConfig) (d : Disk) :
    Prop :=
  ∃ generation base frames, Mirrored S config.frameLimits roomId d generation base frames

section Programs

include hs

theorem mirrors_boot (sem : Loro.Semantics S) {boot : Boot}
    (hfresh : FreshBoot roomId w boot) (hkept : Kept Doc roomId config w)
    (h : MirroredDisk S roomId config w.disk) :
    wp serve (Contract.orderly Doc roomId config fun w => MirroredDisk S roomId config w.disk)
      (RoomActor.activate roomId config boot)
      (fun (a : RoomActor Doc) t => Mirrors roomId config S t a) w := by
  obtain ⟨generation, base, frames, hmirrored⟩ := h
  refine hs.boot hkept (fun w' _ hsame => ⟨_, _, _, hmirrored.same hsame⟩) ?_ ?_
  · intro endOffset lifecycle lastError t _ hsame hlifecycle
    refine ⟨rfl, ⟨_, _, _, hmirrored.same hsame⟩, fun hready => ?_⟩
    exact absurd (.inl hready) (RoomActor.not_live_failed hlifecycle)
  · intro a base' frames' t _ hsame hreopened
    have hmirrored' := hmirrored.same hsame
    obtain ⟨rfl, rfl, rfl⟩ := hreopened.holding.unique hmirrored'.toOnDisk
    exact ⟨hreopened.unblocked, ⟨_, _, _, hmirrored'⟩, fun _ => ⟨_, _, hmirrored',
      hreopened.tracks hkept hfresh hsame.read hsame.last, hreopened.content sem⟩⟩

variable {a : RoomActor Doc} (ha : a.Placed roomId config w) (hremembers : a.Remembers S)
  (hkept : Kept Doc roomId config w) (h : Mirrors roomId config S w a)

include ha hremembers hkept h

theorem mirrors_rotate (sem : Loro.Semantics S) :
    wp serve (Contract.orderly Doc roomId config fun w => MirroredDisk S roomId config w.disk)
      a.rotateGeneration (fun r t => Mirrors roomId config S t r.1) w := by
  have hclosing : ∀ w', a.lifecycle = .ready → Kept Doc roomId config w' →
      a.Closing roomId w.disk w'.disk → MirroredDisk S roomId config w'.disk := by
    intro w' hready hkept' hclosing
    obtain ⟨base, frames, hmirrored, _, hknown⟩ := h.ready hready
    rcases hclosing.mirrored sem hkept' hremembers hmirrored hknown with hsame | ⟨_, _, _, hnext⟩
    · exact ⟨_, _, _, hsame⟩
    · exact ⟨_, _, _, hnext⟩
  by_cases hready : a.lifecycle = .ready
  · obtain ⟨base, frames, hmirrored, htracks, hknown⟩ := h.ready hready
    refine hs.rotate ha.toSeated hkept (fun _ => htracks)
      (fun w' hready _ hkept' => hclosing w' hready hkept') (fun _ => h) ?_ ?_
    · exact fun message t hready _ hkept' hclosed =>
        ⟨h.unblocked, hclosing t hready hkept' hclosed, nofun⟩
    · intro result t _ _ hkept' hclosed hsuperseded _ _ htracks'
      have hheld := hsuperseded.holding hkept'
      have hnext : Mirrored S config.frameLimits roomId t.disk result.nextDeltaGeneration
          (some result.checkpoint) [] := by
        rcases hclosed.mirrored sem hkept' hremembers hmirrored hknown with hsame | ⟨_, _, _, hnext⟩
        · have hsucc := hsuperseded.succ
          rw [← hsame.current.unique hheld.current] at hsucc
          omega
        · obtain ⟨rfl, heq, _⟩ := hnext.toOnDisk.unique hheld
          exact heq ▸ hnext
      refine ⟨h.unblocked, ⟨_, _, _, hnext⟩, fun _ => ⟨_, _, hnext, htracks', ?_⟩⟩
      rw [contentOps_nil, hsuperseded.baseOps sem hremembers]
      rfl
  · exact RoomActor.wp_rotateGeneration (fun _ => h) fun hready' => absurd hready' hready

omit hkept in
theorem mirrors_update (sem : Loro.Semantics S) (hanswers : Answering roomId serve) {connectionId : UInt64}
    {batchId : BatchId} {updates : List Bytes} {peer : PeerSender} :
    wp serve (Contract.orderly Doc roomId config fun w => MirroredDisk S roomId config w.disk)
      (a.update connectionId batchId updates peer)
      (fun r t => Mirrors roomId config S t r.1) w := by
  refine RoomActor.wp_update (fun _ _ => h) fun admission hadmitted => ?_
  obtain ⟨base, frames, hmirrored, htracks, hknown⟩ := h.ready hadmitted.ready
  have hupdates : admission.pending.frame.updates = updates := by rw [hadmitted.frame]; rfl
  have himportable : Loro.Total S → ∀ blob ∈ admission.pending.frame.updates, Importable Doc blob := by
    intro total blob hblob
    obtain ⟨_, _, hbuild⟩ := bind_eq_ok.mp hadmitted.candidate
    obtain ⟨_, _, himport⟩ := bind_eq_ok.mp hbuild
    exact (importAll_total total).mp ⟨_, himport⟩ blob (List.mem_append_right _ (hupdates ▸ hblob))
  have hdisk : ∀ {t : World}, Tried w.disk admission.pending.app t.disk →
      ∃ frames', Mirrored S config.frameLimits roomId t.disk a.activeDeltaGeneration base frames' :=
    fun htried => hmirrored.tried ha.toSeated rfl hadmitted.prepares htried himportable
  have hstream : admission.pending.targetStream =
      (deltaStreamForGeneration roomId a.activeDeltaGeneration).physical :=
    hadmitted.stream.trans ha.toSeated.stream
  have hnew : ∀ sequence offset, w.disk.last admission.pending.targetStream
      admission.pending.producer.id = some (sequence, offset) →
      sequence < admission.pending.producer.sequence := by
    rw [hadmitted.producer, hstream]
    exact fun sequence offset hlast => htracks.unused hmirrored.log hlast
  refine wp_mono ?_ (wp_and (hs.resolve ha.toSeated hadmitted.prepares htracks
    fun _ _ htried => ⟨_, _, hdisk htried⟩) (hs.resolve_answering hanswers ⟨_, hstream⟩ hnew
    fun _ _ htried => ⟨_, _, hdisk htried⟩))
  rintro r t ⟨⟨_, htried, hok⟩, houtcome⟩
  obtain ⟨frames', hmirrored'⟩ := hdisk htried
  have hafter : (a.finishUpdate connectionId batchId updates peer admission r).1.Tracks roomId
      config.frameLimits t.disk (RoomActor.Tracks.after frames admission.pending.frame r) :=
    htracks.finishUpdate ha.toSeated hadmitted htried hok
  obtain ⟨n, rfl⟩ | ⟨⟨kind, message, rfl⟩, hsame⟩ := houtcome
  · obtain rfl := hmirrored'.log.unique (hok _ rfl).1
    refine ⟨hadmitted.unblocked, ⟨_, _, _, hmirrored'⟩, fun _ => ⟨_, _, hmirrored', hafter, ?_⟩⟩
    rw [contentOps_snoc, ← hknown, hupdates]
    exact buildCandidate_eq_union sem hremembers.pending hremembers.known hadmitted.candidate
  · exact ⟨h.unblocked, ⟨_, _, _, hmirrored'⟩, fun hready =>
      ⟨base, frames, hsame ▸ hmirrored, hafter, hknown⟩⟩

theorem mirrors_handle (sem : Loro.Semantics S) (hanswers : Answering roomId serve) (command : Command) :
    wp serve (Contract.orderly Doc roomId config fun w => MirroredDisk S roomId config w.disk)
      (a.handle command) (fun r t => Mirrors roomId config S t r.1) w := by
  refine RoomActor.wp_handle (fun _ => h) ?_ (fun _ => mirrors_rotate hs ha hremembers hkept h sem)
    (fun _ => h) ?_ (fun _ _ _ _ _ _ => mirrors_update hs ha hremembers h sem hanswers) ?_
  · intro _
    rw [RoomActor.retryPending, h.unblocked]
    exact h
  · intro connectionId version peer _ _
    obtain ⟨peers, ids, hjoin⟩ := a.join_fst connectionId version peer
    rw [hjoin]
    exact h.congr rfl rfl rfl rfl rfl rfl rfl rfl
  · exact fun _ _ _ => h.congr rfl rfl rfl rfl rfl rfl rfl rfl

end Programs

/-- A room whose frames are all answered mirrors the frames of all its generations. -/
theorem RoomReachable.mirrors (sem : Loro.Semantics S) {w : World} {a : RoomActor Doc}
    {events : List (Event (gateway Doc roomId config) World)}
    (hreach : RoomReachable (Policy.settling : Policy Doc roomId config) ⟨w, .idle a, events⟩) :
    Mirrors roomId config S w a := by
  have quiet : (Policy.settling : Policy Doc roomId config).Quiet := Policy.settling_quiet
  have hpreserved := Policy.preserved_over quiet.still
    (L := fun w (a : RoomActor Doc) => a.Placed roomId config w ∧ a.Remembers S)
    (J := fun w a _ => Mirrors roomId config S w a)
    (F := fun w _ => MirroredDisk S roomId config w.disk) (fun _ h => h.disk) (fun _ h => h)
    (fun hfresh hkept h => mirrors_boot (Policy.settling_quiet.honest.orderly _ _) sem hfresh hkept h)
    (fun _ ha hkept h => mirrors_handle (Policy.settling_quiet.honest.orderly _ _) ha.1 ha.2 hkept h
      sem (answering_serve _ _) _)
  have hwithin : Reachable (keptWith Policy.settling
      fun w (a : RoomActor Doc) => a.Placed roomId config w ∧ a.Remembers S)
      (fun w => w = World.empty) ⟨w, .idle a, events⟩ :=
    Reachable.within (fun h => RoomReachable.kept h)
      (fun h => ⟨RoomReachable.placed h, RoomReachable.actor (RoomActor.Remembers.invariant sem) h⟩)
      hreach
  exact (Reachable.idle_invariant hpreserved
    (by rintro w rfl; exact ⟨kept_empty, _, _, _, .empty⟩) hwithin).2

/-- In every ready room whose appends are all answered, whatever crashes and rotations it
has been through, the document applies and keeps waiting just what an empty document does
that imports all frames of the generations up to the active one.  The frames can be
imported. -/
theorem bounded_recovery_eq_full_replay (sem : Loro.Semantics S) {w : World} {a : RoomActor Doc}
    {events : List (Event (gateway Doc roomId config) World)}
    (hreach : RoomReachable (Policy.answering : Policy Doc roomId config) ⟨w, .idle a, events⟩)
    (hready : a.lifecycle = .ready) :
    ∃ (records : List ManifestRecord) (logs : GenerationId → List DeltaFrame),
      ManifestLog roomId w.disk records ∧ a.activeDeltaGeneration = activeGeneration records ∧
      (∀ generation, DeltaLog (NamedFrame roomId generation) config.frameLimits
        (deltaStreamForGeneration roomId generation).physical w.disk (logs generation)) ∧
      (∀ full, replay Doc (allBlobs logs a.activeDeltaGeneration) = .ok full →
        S.applied a.doc = S.applied full ∧ S.pending a.doc = S.pending full) ∧
      (Loro.Total S → ∃ full, replay Doc (allBlobs logs a.activeDeltaGeneration) = .ok full) := by
  have hkept := RoomReachable.kept hreach
  obtain ⟨records, hrecords⟩ := hkept.stored
  choose logs hlogs using hkept.delta.logs
  obtain ⟨base, frames, hmirrored, htracks, hknown⟩ := (hreach.settling.mirrors sem).ready hready
  refine ⟨records, logs, hrecords.manifest.log, (hrecords.current_iff.mp htracks.current).symm, hlogs,
    fun full hfull => sem.eq_of_known ?_, fun total => (importAll_total total).mpr fun blob hblob => ?_⟩
  · rw [hknown, hmirrored.content, replay_known sem hfull]
    ext o
    simp only [frameOps, Loro.Observers.ops, mem_allBlobs hlogs]
  · exact hmirrored.importable total blob ((mem_allBlobs hlogs).mp hblob)

end Runs

end

open Sample

/-- Scripts for a store that answers every append. -/
def answeringDirection (config : ActorConfig) : Direction config where
  policy := .answering
  permits req fate :=
    match req, fate with
    | _, .answered => true
    | .append _ _ _, .failed (.rejected _ _) => true
    | _, _ => false
  permits_fate := by
    intro req fate h
    cases req with
    | append stream producer body =>
      cases fate with
      | answered => exact .inl rfl
      | failed error =>
        cases error with
        | rejected kind message => exact .inr ⟨kind, message, rfl⟩
        | ambiguous message => cases h
        | integrity message => cases h
      | misreported n => cases h
      | lost message => cases h
      | garbled message => cases h
      | delayed message => cases h
    | ensureStream stream => cases fate <;> trivial
    | readAll stream => cases fate <;> trivial
    | readRange stream offset length => cases fate <;> trivial
  allows _ _ _ _ _ := true
  answers_boot _ _ _ _ := trivial
  answers_command _ := trivial
  delivers _ _ := false
  delivers_deliver := nofun
  accepts _ _ := true
  accepts_accept _ := trivial

/-- An operation waits over a rotation for the one that it depends on, a second rotation
stops after its checkpoint, and the room is started again. -/
theorem bounded_recovery_eq_full_replay_rotated :
    ∃ (w : World) (a : RoomActor OpDoc) (events : List (Event (sampleGateway .default) World))
      (logs : GenerationId → List DeltaFrame) (full : OpDoc),
      RoomReachable (Policy.answering : Policy OpDoc "r" .default) ⟨w, .idle a, events⟩ ∧
      a.lifecycle = .ready ∧ a.activeDeltaGeneration = ⟨1⟩ ∧
      replay OpDoc (allBlobs logs ⟨1⟩) = .ok full ∧
      OpDoc.observers.applied full = OpDoc.observers.applied a.doc ∧
      (1 : Fin 8) ∈ OpDoc.observers.applied full := by
  have hrun : ((answeringDirection .default).director.run
      [.boot (sampleBoot 1) (answeredAll 4), .command (.join 1 [] 7) [],
        .command (.update 1 (sampleBatch 1) [[1, 1]] 7) (answeredAll 1),
        .command .rotate (answeredAll 10),
        .command (.update 1 (sampleBatch 2) [[1, 0]] 7) (answeredAll 1),
        .interrupted .rotate (answeredAll 3),
        .boot (sampleBoot 2) (answeredAll 4), .command (.join 1 [] 7) [],
        .command (.update 1 (sampleBatch 3) [[1, 2]] 7) (answeredAll 1)]
      ⟨World.empty, .down, []⟩).any (whenIdle fun _ a _ => decide (a.lifecycle = .ready) &&
        decide (a.activeDeltaGeneration = ⟨1⟩) && OpDoc.isApplied a.doc.received 1 &&
          OpDoc.isApplied a.doc.received 2) = true := by
    decide +kernel
  obtain ⟨w, a, events, hreach, hend⟩ := Direction.exists_idle_of_run hrun
  simp only [Bool.and_eq_true, decide_eq_true_eq] at hend
  obtain ⟨⟨⟨hready, hgeneration⟩, hone⟩, _⟩ := hend
  obtain ⟨records, logs, _, _, _, hequal, htotal⟩ :=
    bounded_recovery_eq_full_replay OpDoc.semantics hreach hready
  obtain ⟨full, hfull⟩ := htotal OpDoc.total
  obtain ⟨happlied, _⟩ := hequal full hfull
  exact ⟨w, a, events, logs, full, hreach, hready, hgeneration, hgeneration ▸ hfull, happlied.symm,
    happlied ▸ hone⟩

end LoroGateway
