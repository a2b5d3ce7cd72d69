import LoroGateway.DeltaSafety

/-!
# What an actor has seen of its delta stream

`Seen` ties the frames that an actor has replayed or committed to the log of its
stream: they are all of it, or all but one frame that carries the next number
of the actor.  The one frame is an append whose outcome the actor does not
know.

`Tracks` says so of an actor that may still write, and that its history, its end
offset and its generation are those of the frames that it has seen.
-/

namespace LoroGateway

open ByteCodec CrashLogic

variable [Hashing]

/-- Two disks whose streams hold the same and whose producers stand at the same
place. -/
structure Disk.Same (d d' : Disk) : Prop where
  read : d'.read = d.read
  last : d'.last = d.last

omit [Hashing] in
theorem Disk.Same.refl (d : Disk) : d.Same d := ⟨rfl, rfl⟩

omit [Hashing] in
theorem Disk.Same.ensure {d d' : Disk} (h : d.Same d') (stream : String) :
    d.Same (d'.ensure stream) :=
  ⟨(funext fun s => Disk.read_ensure d' stream s).trans h.read, h.last⟩

/-! ## An append that is tried again -/

/-- The disk as it was, or with the append in it.  A second submission of an
accepted append does nothing. -/
def Tried (d : Disk) (app : Append) (d' : Disk) : Prop :=
  d' = d ∨ d.Accepts app ∧ d' = d.accept app

omit [Hashing] in
theorem Disk.not_accepts_accept (d : Disk) (app : Append) : ¬ (d.accept app).Accepts app := by
  intro h
  have hsequence := h.1
  rw [Disk.last_accept_self] at hsequence
  dsimp only at hsequence
  omega

omit [Hashing] in
theorem Tried.serve {d : Disk} {w w' : World} {stream : String} {producer : ProducerTuple}
    {body : Bytes} {x : Except StoreError AppendOutcome}
    (h : Tried d ⟨stream, producer, body⟩ w.disk)
    (hserve : served w (.append stream producer body) x w') :
    Tried d ⟨stream, producer, body⟩ w'.disk := by
  cases served_append hserve with
  | accepted haccepts =>
    rcases h with heq | ⟨_, heq⟩
    · rw [heq] at haccepts
      exact .inr ⟨haccepts, congrArg (Disk.accept · _) heq⟩
    · rw [heq] at haccepts
      exact absurd haccepts (d.not_accepts_accept _)
  | duplicate => exact h
  | refused => exact h

/-- The store keeps an offset for the producer of the append, and the bytes of the
append end there. -/
def Settled (app : Append) (n : UInt64) (d : Disk) : Prop :=
  ∃ sequence, d.last app.stream app.producer.id = some (sequence, n) ∧
    EndsAt (d.read app.stream) n.toNat app.body

omit [Hashing] in
theorem settled_accept {d : Disk} {app : Append} (h : d.Accepts app) :
    Settled app (d.endOffset app) (d.accept app) := by
  refine ⟨app.producer.sequence, d.last_accept_self app, d.read app.stream, [], ?_, ?_⟩
  · rw [Disk.read_accept_self, List.append_nil]
  · rw [Disk.endOffset_toNat h, List.length_append]

/-! ## The frames that have been seen -/

/-- The frames that an actor has seen, where `producer` is what its next frame will carry. -/
structure Seen (P : DeltaFrame → Prop) (limits : FrameLimits) (stream : String)
    (producer : ProducerTuple) (d : Disk) (seen : List DeltaFrame) : Prop where
  log : ∃ rest, DeltaLog P limits stream d (seen ++ rest) ∧
    (rest = [] ∨ ∃ frame, rest = [frame] ∧ frame.producer = producer)
  behind : ∀ frame ∈ seen, frame.producer.id = producer.id →
    frame.producer.sequence.toNat < producer.sequence.toNat

/-- In a log the numbers of a producer lie below their count. -/
theorem DeltaLog.sequence_lt {P : DeltaFrame → Prop} {limits : FrameLimits} {stream : String}
    {d : Disk} {frames : List DeltaFrame} (h : DeltaLog P limits stream d frames)
    {frame : DeltaFrame} (hmem : frame ∈ frames) :
    frame.producer.sequence.toNat < (framesOf frame.producer.id frames).length := by
  have hnumber := List.mem_map_of_mem (f := fun frame : DeltaFrame => frame.producer.sequence.toNat)
    (mem_framesOf.mpr ⟨hmem, rfl⟩ : frame ∈ framesOf frame.producer.id frames)
  rw [h.sequences] at hnumber
  exact List.mem_range.mp hnumber

namespace Seen

variable {P : DeltaFrame → Prop} {limits : FrameLimits} {stream : String} {producer : ProducerTuple}
  {d d' : Disk} {seen : List DeltaFrame} {frame : DeltaFrame}

/-- What has been seen starts the log. -/
theorem isPrefix (h : Seen P limits stream producer d seen) {frames : List DeltaFrame}
    (hlog : DeltaLog P limits stream d frames) : seen <+: frames := by
  obtain ⟨rest, hrest, _⟩ := h.log
  exact ⟨rest, hrest.unique hlog⟩

/-- An actor without frames in the stream has seen all of it. -/
theorem of_log (h : DeltaLog P limits stream d seen)
    (hnew : ∀ frame ∈ seen, frame.producer.id ≠ producer.id) :
    Seen P limits stream producer d seen where
  log := ⟨[], by rwa [List.append_nil], .inl rfl⟩
  behind frame hmem hid := absurd hid (hnew frame hmem)

/-- Nothing unseen is in the log when the store accepts the next frame. -/
theorem log_of_accepts (h : Seen P limits stream producer d seen)
    (hproducer : frame.producer = producer) (haccepts : d.Accepts (deltaAppend limits stream frame)) :
    DeltaLog P limits stream d seen := by
  obtain ⟨rest, hlog, rfl | ⟨last, rfl, hlast⟩⟩ := h.log
  · rwa [List.append_nil] at hlog
  · have hlt := hlog.sequence_lt (List.mem_append_right seen (List.mem_singleton_self last))
    have hnext := hlog.sequence_of_accepts haccepts
    rw [hlast, ← hproducer] at hlt
    omega

/-- The next frame may be tried. -/
theorem tried (h : Seen P limits stream producer d seen) (hframe : Submittable P limits frame)
    (hproducer : frame.producer = producer)
    (htried : Tried d (deltaAppend limits stream frame) d') :
    Seen P limits stream producer d' seen := by
  rcases htried with rfl | ⟨haccepts, rfl⟩
  · exact h
  · exact ⟨⟨[frame], (h.log_of_accepts hproducer haccepts).accept hframe haccepts,
      .inr ⟨frame, rfl, hproducer⟩⟩, h.behind⟩

/-- Once the next frame is settled it is the last one of the log, and the offset is
the end of the log. -/
theorem settled (h : Seen P limits stream producer d seen) (hvalid : frame.Valid limits)
    (hproducer : frame.producer = producer) {n : UInt64}
    (hsettled : Settled (deltaAppend limits stream frame) n d) :
    DeltaLog P limits stream d (seen ++ [frame]) ∧
      n.toNat = (logBytes limits (seen ++ [frame])).length := by
  obtain ⟨sequence, hlast, hends⟩ := hsettled
  obtain ⟨rest, hlog, hrest⟩ := h.log
  have hmem := hlog.mem_of_endsAt hvalid hlog (Disk.Grows.refl d) hlast hends
  have hunseen : frame ∉ seen := by
    intro hseen
    have hlt := h.behind frame hseen (congrArg ProducerTuple.id hproducer)
    rw [hproducer] at hlt
    exact absurd hlt (Nat.lt_irrefl _)
  obtain rfl : rest = [frame] := by
    have hframe := (List.mem_append.mp hmem).resolve_left hunseen
    rcases hrest with rfl | ⟨last, rfl, _⟩
    · cases hframe
    · rw [List.mem_singleton.mp hframe]
  refine ⟨hlog, ?_⟩
  -- the last frame of the producer is the last one of the log
  have hentry := hlog.last frame.producer.id
  change d.last stream frame.producer.id = some (sequence, n) at hlast
  rw [hlast] at hentry
  obtain ⟨front, last, after, hframes, hafter, _, _, hoffset⟩ := hentry
  have hnil : after = [] := by
    rcases List.eq_nil_or_concat' after with hnil | ⟨before, final, rfl⟩
    · exact hnil
    · rw [← List.cons_append, ← List.append_assoc] at hframes
      obtain rfl := List.head_eq_of_cons_eq (List.append_inj' hframes rfl).2
      exact absurd (mem_framesOf.mpr ⟨List.mem_append_right _ (List.mem_singleton_self _), rfl⟩)
        (hafter ▸ List.not_mem_nil)
  rw [hoffset, hframes, hnil]

/-- The actor has seen its frame and goes on to the next number. -/
theorem advance (h : Seen P limits stream producer d seen)
    (hlog : DeltaLog P limits stream d' (seen ++ [frame])) (hproducer : frame.producer = producer)
    {next : ProducerTuple} (hid : next.id = producer.id)
    (hnext : next.sequence.toNat = producer.sequence.toNat + 1) :
    Seen P limits stream next d' (seen ++ [frame]) where
  log := ⟨[], by rwa [List.append_nil], .inl rfl⟩
  behind other hmem hother := by
    rw [hnext]
    rcases List.mem_append.mp hmem with hseen | hself
    · exact (h.behind other hseen (hother.trans hid)).trans (Nat.lt_succ_self _)
    · rw [List.mem_singleton.mp hself, hproducer]
      exact Nat.lt_succ_self _

end Seen

/-! ## The actor and its stream -/

/-- The append that submits a pending frame. -/
def PendingAppend.app (pending : PendingAppend) : Append :=
  ⟨pending.targetStream, pending.producer, pending.bytes⟩

/-- The manifest names the generation as active. -/
def Current (roomId : String) (generation : GenerationId) (d : Disk) : Prop :=
  (d.read (manifestStream roomId).physical).length = 188 * generation.value.toNat

theorem Current.unique {roomId : String} {generation generation' : GenerationId} {d : Disk}
    (h : Current roomId generation d) (h' : Current roomId generation' d) :
    generation = generation' := by
  have hsame : 188 * generation.value.toNat = 188 * generation'.value.toNat := h.symm.trans h'
  exact GenerationId.ext (UInt64.toNat_inj.mp (Nat.eq_of_mul_eq_mul_left (by decide) hsame))

theorem StoreInvariant.current_iff {Doc : Type} [Loro Doc] {roomId : String} {w : World}
    {records : List ManifestRecord} (h : StoreInvariant Doc roomId w records)
    {generation : GenerationId} :
    Current roomId generation w.disk ↔ activeGeneration records = generation := by
  have hactive : Current roomId (activeGeneration records) w.disk := by
    rw [Current, h.manifest.log.content, length_manifestBytes h.manifest.log.valid, h.active_eq]
  exact ⟨hactive.unique, fun heq => heq ▸ hactive⟩

namespace RoomActor

variable {Doc : Type}

/-- The room may still append to its stream, now or when it is reconciled. -/
def Live (a : RoomActor Doc) : Prop := a.lifecycle = .ready ∨ a.blocked ≠ none

/-- What a live actor knows of the disk. -/
structure Tracks (roomId : String) (limits : FrameLimits) (a : RoomActor Doc) (d : Disk)
    (seen : List DeltaFrame) : Prop where
  current : Current roomId a.activeDeltaGeneration d
  log : Seen (NamedFrame roomId a.activeDeltaGeneration) limits
    (deltaStreamForGeneration roomId a.activeDeltaGeneration).physical
    ⟨a.producerId, 0, a.producerSequence⟩ d seen
  history : ∃ kept, a.history = kept ++ seen.flatMap DeltaFrame.updates ∧
    (a.activeDeltaGeneration = .zero → kept = [])
  endOffset : a.lifecycle = .ready →
    a.activeDeltaEndOffset.toNat = (logBytes limits seen).length

namespace Tracks

variable {roomId : String} {config : ActorConfig} {a : RoomActor Doc} {d d' : Disk}
  {seen : List DeltaFrame} {pending : PendingAppend}

/-- The next frame of the actor may be tried. -/
theorem tried (h : a.Tracks roomId config.frameLimits d seen) (ha : a.Seated roomId config)
    (hpending : a.Prepares pending)
    (htried : Tried d pending.app d') : a.Tracks roomId config.frameLimits d' seen where
  current := by
    have hstream : pending.app.stream ≠ (manifestStream roomId).physical := by
      rw [PendingAppend.app, hpending.stream, ha.stream]
      exact deltaStream_ne_manifestStream
    rcases htried with rfl | ⟨_, rfl⟩
    · exact h.current
    · rw [Current, Disk.read_accept_ne hstream.symm]
      exact h.current
  log := by
    refine h.log.tried (hpending.submittable ha) (hpending.frame.trans hpending.producer) ?_
    rw [← hpending.append_eq ha]
    exact htried
  history := h.history
  endOffset := h.endOffset

/-- The actor stands where it stood. -/
theorem congr (h : a.Tracks roomId config.frameLimits d seen) {a' : RoomActor Doc}
    (hgeneration : a'.activeDeltaGeneration = a.activeDeltaGeneration)
    (hproducer : a'.producerId = a.producerId) (hsequence : a'.producerSequence = a.producerSequence)
    (hhistory : a'.history = a.history)
    (hoffset : a'.lifecycle = .ready →
      a.lifecycle = .ready ∧ a'.activeDeltaEndOffset = a.activeDeltaEndOffset) :
    a'.Tracks roomId config.frameLimits d seen where
  current := hgeneration ▸ h.current
  log := by
    rw [hgeneration, hproducer, hsequence]
    exact h.log
  history := by
    rw [hgeneration, hhistory]
    exact h.history
  endOffset hready := by
    rw [(hoffset hready).2]
    exact h.endOffset (hoffset hready).1

/-- The actor has learned that its next frame is the last one of the log. -/
theorem advance (h : a.Tracks roomId config.frameLimits d seen) {frame : DeltaFrame}
    (hframe : frame.producer = ⟨a.producerId, 0, a.producerSequence⟩)
    (hlog : DeltaLog (NamedFrame roomId a.activeDeltaGeneration) config.frameLimits
      (deltaStreamForGeneration roomId a.activeDeltaGeneration).physical d' (seen ++ [frame]))
    (hcurrent : Current roomId a.activeDeltaGeneration d') {a' : RoomActor Doc}
    (hgeneration : a'.activeDeltaGeneration = a.activeDeltaGeneration)
    (hproducer : a'.producerId = a.producerId)
    (hnext : a'.producerSequence.toNat = a.producerSequence.toNat + 1)
    (hhistory : ∃ kept, a'.history = kept ++ (seen ++ [frame]).flatMap DeltaFrame.updates ∧
      (a.activeDeltaGeneration = .zero → kept = []))
    (hoffset : a'.activeDeltaEndOffset.toNat = (logBytes config.frameLimits (seen ++ [frame])).length) :
    a'.Tracks roomId config.frameLimits d' (seen ++ [frame]) where
  current := hgeneration ▸ hcurrent
  log := by
    rw [hgeneration]
    exact h.log.advance hlog hframe hproducer hnext
  history := hgeneration ▸ hhistory
  endOffset _ := hoffset

end Tracks

end RoomActor

end LoroGateway
