import LoroGateway.FrameCodec
import LoroGateway.Served

/-!
# A delta stream as a list of frames

`DeltaLog` ties a delta stream of a disk to a list of frames: the stream holds
their bytes, and the frames of each producer are numbered from zero.  What the
store keeps of a producer is the last of its frames and the offset at which it
ends.

`DeltaInvariant` adds the appends that are under way.  It holds at every moment,
also when they arrive late, as long as only frames are submitted.
-/

namespace LoroGateway

open ByteCodec CrashLogic

variable [Hashing]

/-- The frames of one producer. -/
def framesOf (id : String) (frames : List DeltaFrame) : List DeltaFrame :=
  frames.filter fun frame => frame.producer.id = id

section FramesOf

variable {id : String} {frame : DeltaFrame} {frames : List DeltaFrame}

omit [Hashing]

theorem framesOf_append (left right : List DeltaFrame) :
    framesOf id (left ++ right) = framesOf id left ++ framesOf id right := List.filter_append _ _

theorem framesOf_singleton_self (h : frame.producer.id = id) : framesOf id [frame] = [frame] :=
  List.filter_cons_of_pos (decide_eq_true h)

theorem framesOf_singleton_ne (h : frame.producer.id ≠ id) : framesOf id [frame] = [] :=
  List.filter_cons_of_neg (by rwa [decide_eq_true_iff])

theorem mem_framesOf : frame ∈ framesOf id frames ↔ frame ∈ frames ∧ frame.producer.id = id := by
  rw [framesOf, List.mem_filter, decide_eq_true_iff]

end FramesOf

section Bytes

variable {limits : FrameLimits} {frames frames' : List DeltaFrame}

/-- Streams of frames extend each other as the lists do. -/
theorem isPrefix_of_logBytes (hvalid : ∀ frame ∈ frames, frame.Valid limits)
    (hvalid' : ∀ frame ∈ frames', frame.Valid limits)
    (hword : (logBytes limits frames').length < wordSize)
    (h : logBytes limits frames <+: logBytes limits frames') : frames <+: frames' := by
  induction frames generalizing frames' with
  | nil => exact List.nil_prefix
  | cons frame frames ih =>
    obtain ⟨hframe, htail⟩ := List.forall_mem_cons.mp hvalid
    cases frames' with
    | nil =>
      have hlen := h.length_le
      rw [logBytes_cons, logBytes_nil, List.length_append, List.length_nil] at hlen
      have hpos := hframe.length_pos
      omega
    | cons frame' frames' =>
      obtain ⟨hframe', htail'⟩ := List.forall_mem_cons.mp hvalid'
      rw [logBytes_cons] at hword h
      obtain ⟨rest, hrest⟩ := h
      rw [logBytes_cons, List.append_assoc] at hrest
      have hone := DeltaFrame.decodeOne_encode (logBytes limits frames ++ rest) hframe.encode_eq
        hframe.digest_eq (by rwa [hrest])
      rw [hrest, DeltaFrame.decodeOne_encode (logBytes limits frames') hframe'.encode_eq
        hframe'.digest_eq hword] at hone
      obtain ⟨rfl, _⟩ := Prod.mk.inj (Except.ok.inj hone)
      rw [List.length_append] at hword
      exact List.prefix_cons_inj frame' |>.mpr
        (ih htail htail' (by omega) ⟨rest, List.append_cancel_left hrest⟩)

end Bytes

/-- A frame that may be submitted. -/
structure Submittable (P : DeltaFrame → Prop) (limits : FrameLimits) (frame : DeltaFrame) :
    Prop where
  valid : frame.Valid limits
  epoch : frame.producer.epoch = 0
  named : P frame

/-- The append that submits a frame. -/
def deltaAppend (limits : FrameLimits) (stream : String) (frame : DeltaFrame) : Append :=
  ⟨stream, frame.producer, frame.encoded limits⟩

/-- A stream of a disk is a log of these frames. -/
structure DeltaLog (P : DeltaFrame → Prop) (limits : FrameLimits) (stream : String) (d : Disk)
    (frames : List DeltaFrame) : Prop where
  content : d.read stream = logBytes limits frames
  submitted : ∀ frame ∈ frames, Submittable P limits frame
  word : (logBytes limits frames).length < wordSize
  sequences : ∀ id, (framesOf id frames).map (fun frame => frame.producer.sequence.toNat) =
    List.range (framesOf id frames).length
  last : ∀ id, match d.last stream id with
    | none => framesOf id frames = []
    | some (sequence, offset) => ∃ front frame rest, frames = front ++ frame :: rest ∧
        framesOf id rest = [] ∧ frame.producer.id = id ∧ frame.producer.sequence = sequence ∧
        offset.toNat = (logBytes limits (front ++ [frame])).length

namespace DeltaLog

variable {P : DeltaFrame → Prop} {limits : FrameLimits} {stream : String} {d d' : Disk}
  {frames frames' : List DeltaFrame} {frame : DeltaFrame}

theorem empty : DeltaLog P limits stream Disk.empty [] where
  content := rfl
  submitted := nofun
  word := by
    rw [logBytes_nil]
    decide
  sequences _ := rfl
  last _ := rfl

theorem valid (h : DeltaLog P limits stream d frames) : ∀ frame ∈ frames, frame.Valid limits :=
  fun frame hmem => (h.submitted frame hmem).valid

theorem isPrefix (h : DeltaLog P limits stream d frames) (h' : DeltaLog P limits stream d' frames')
    (hgrow : d.Grows d') : frames <+: frames' := by
  have hbytes := (hgrow stream).1
  rw [h.content, h'.content] at hbytes
  exact isPrefix_of_logBytes h.valid h'.valid h'.word hbytes

theorem unique (h : DeltaLog P limits stream d frames) (h' : DeltaLog P limits stream d frames') :
    frames = frames' := by
  have hprefix := h.isPrefix h' (Disk.Grows.refl d)
  have hprefix' := h'.isPrefix h (Disk.Grows.refl d)
  exact hprefix.eq_of_length (Nat.le_antisymm hprefix.length_le hprefix'.length_le)

/-- A stream decodes to its log or not at all. -/
theorem eq_of_decode (h : DeltaLog P limits stream d frames)
    (hdecode : decodeAllWithLimits (d.read stream) limits = .ok frames') : frames' = frames := by
  rw [h.content, decodeAll_logBytes h.valid h.word] at hdecode
  split_ifs at hdecode
  exact (Except.ok.inj hdecode).symm

/-- An empty stream has an empty log. -/
theorem eq_nil (h : DeltaLog P limits stream d frames) (hempty : d.read stream = []) :
    frames = [] := by
  rw [h.content] at hempty
  refine List.eq_nil_iff_forall_not_mem.mpr fun frame hmem => ?_
  have hpos := (h.valid frame hmem).length_pos
  rw [List.flatMap_eq_nil_iff.mp hempty frame hmem] at hpos
  exact absurd hpos (Nat.lt_irrefl 0)

/-- The log is read off two places of the disk. -/
theorem congr (h : DeltaLog P limits stream d frames) (hread : d'.read stream = d.read stream)
    (hlast : ∀ id, d'.last stream id = d.last stream id) : DeltaLog P limits stream d' frames :=
  { h with
    content := hread.trans h.content
    last := by
      intro id
      rw [hlast]
      exact h.last id }

theorem ensure (h : DeltaLog P limits stream d frames) (other : String) :
    DeltaLog P limits stream (d.ensure other) frames :=
  h.congr (Disk.read_ensure d other _) fun _ => rfl

theorem accept_ne (h : DeltaLog P limits stream d frames) {app : Append}
    (hne : app.stream ≠ stream) : DeltaLog P limits stream (d.accept app) frames :=
  h.congr (Disk.read_accept_ne hne.symm) fun _ => Disk.last_accept_ne fun heq => hne heq.1.symm

/-- The last frame of a producer has the last sequence. -/
theorem sequence_last (h : DeltaLog P limits stream d frames) {id : String}
    {sequence offset : UInt64} (hlast : d.last stream id = some (sequence, offset)) :
    sequence.toNat + 1 = (framesOf id frames).length := by
  have hentry := h.last id
  rw [hlast] at hentry
  obtain ⟨front, last, rest, hframes, hrest, hid, hsequence, _⟩ := hentry
  have hof : framesOf id frames = framesOf id front ++ [last] := by
    rw [hframes, ← List.singleton_append, framesOf_append, framesOf_append,
      framesOf_singleton_self hid, hrest, List.append_nil]
  have hsequences := h.sequences id
  rw [hof, List.map_append, List.map_singleton, List.length_append, List.length_singleton,
    List.range_succ] at hsequences
  have htail := (List.append_inj' hsequences rfl).2
  rw [hof, List.length_append, List.length_singleton, ← hsequence, List.head_eq_of_cons_eq htail]

/-- The store knows the producers of a log. -/
theorem last_ne_none (h : DeltaLog P limits stream d frames) (hmem : frame ∈ frames) :
    d.last stream frame.producer.id ≠ none := by
  intro hnone
  have hentry := h.last frame.producer.id
  rw [hnone] at hentry
  exact List.ne_nil_of_mem (mem_framesOf.mpr ⟨hmem, rfl⟩) hentry

/-- The store accepts a frame only with the next number of its producer. -/
theorem sequence_of_accepts (h : DeltaLog P limits stream d frames)
    (haccepts : d.Accepts (deltaAppend limits stream frame)) :
    frame.producer.sequence.toNat = (framesOf frame.producer.id frames).length := by
  have hsequence := haccepts.1
  simp only [deltaAppend] at hsequence
  cases hlast : d.last stream frame.producer.id with
  | none =>
    have hentry := h.last frame.producer.id
    rw [hlast] at hsequence hentry
    rw [hsequence, hentry]
    rfl
  | some entry =>
    obtain ⟨sequence, offset⟩ := entry
    rw [hlast] at hsequence
    rw [hsequence, h.sequence_last hlast]

/-- An accepted frame becomes the last one of the log. -/
theorem accept (h : DeltaLog P limits stream d frames) (hframe : Submittable P limits frame)
    (haccepts : d.Accepts (deltaAppend limits stream frame)) :
    DeltaLog P limits stream (d.accept (deltaAppend limits stream frame)) (frames ++ [frame]) where
  content := by
    have hread := Disk.read_accept_self d (deltaAppend limits stream frame)
    rw [logBytes_append, logBytes_singleton, ← h.content]
    exact hread
  submitted := by
    intro f hf
    rcases List.mem_append.mp hf with hf | hf
    · exact h.submitted f hf
    · exact List.mem_singleton.mp hf ▸ hframe
  word := by
    have hword := haccepts.2
    simp only [deltaAppend, h.content] at hword
    rwa [logBytes_append, logBytes_singleton, List.length_append]
  sequences := by
    intro id
    by_cases hid : frame.producer.id = id
    · rw [framesOf_append, framesOf_singleton_self hid, List.map_append, h.sequences id,
        List.length_append, List.length_singleton, List.range_succ, List.map_singleton,
        h.sequence_of_accepts haccepts, hid]
    · rw [framesOf_append, framesOf_singleton_ne hid, List.append_nil]
      exact h.sequences id
  last := by
    intro id
    by_cases hid : frame.producer.id = id
    · have hlast := Disk.last_accept_self d (deltaAppend limits stream frame)
      simp only [deltaAppend] at hlast ⊢
      subst hid
      rw [hlast]
      refine ⟨frames, frame, [], rfl, rfl, rfl, rfl, ?_⟩
      have hoffset := Disk.endOffset_toNat haccepts
      simp only [deltaAppend] at hoffset
      rw [hoffset, h.content, logBytes_append, logBytes_singleton, List.length_append]
    · rw [Disk.last_accept_ne fun heq => hid heq.2.symm]
      have hentry := h.last id
      cases hlast : d.last stream id with
      | none =>
        rw [hlast] at hentry
        dsimp only at hentry ⊢
        rw [framesOf_append, hentry, framesOf_singleton_ne hid, List.append_nil]
      | some entry =>
        obtain ⟨sequence, offset⟩ := entry
        rw [hlast] at hentry
        obtain ⟨front, last, rest, rfl, hrest, hentry⟩ := hentry
        refine ⟨front, last, rest ++ [frame], List.append_assoc _ _ _, ?_, hentry⟩
        rw [framesOf_append, hrest, framesOf_singleton_ne hid, List.append_nil]

/-- An append of a frame extends the log or does nothing. -/
theorem append (h : DeltaLog P limits stream d frames) (hframe : Submittable P limits frame) :
    ∃ frames', DeltaLog P limits stream (d.append (deltaAppend limits stream frame)) frames' := by
  by_cases haccepts : d.Accepts (deltaAppend limits stream frame)
  · rw [Disk.append_of_accepts haccepts]
    exact ⟨_, h.accept hframe haccepts⟩
  · rw [Disk.append_of_not_accepts haccepts]
    exact ⟨_, h⟩

/-- A frame whose bytes end where the store says that a producer stopped lies there in
the log. -/
theorem exists_of_endsAt (h : DeltaLog P limits stream d frames) (hvalid : frame.Valid limits)
    (h' : DeltaLog P limits stream d' frames') (hgrow : d.Grows d') {id : String}
    {sequence offset : UInt64} (hlast : d.last stream id = some (sequence, offset))
    (hends : EndsAt (d'.read stream) offset.toNat (frame.encoded limits)) :
    ∃ front, front ++ [frame] <+: frames' ∧
      offset.toNat = (logBytes limits (front ++ [frame])).length := by
  have hentry := h.last id
  rw [hlast] at hentry
  obtain ⟨front, last, rest, rfl, _, _, _, hoffset⟩ := hentry
  obtain ⟨more, rfl⟩ := h.isPrefix h' hgrow
  obtain ⟨before, after, hbytes, hlength⟩ := hends
  have hsplit : logBytes limits (front ++ [last]) ++ logBytes limits (rest ++ more) =
      (before ++ frame.encoded limits) ++ after := by
    rw [← hbytes, h'.content, ← logBytes_append]
    simp only [List.append_assoc, List.cons_append, List.nil_append]
  have hsame := (List.append_inj hsplit (hoffset.symm.trans hlength.symm)).1
  have hmem : last ∈ front ++ last :: rest ++ more := by simp
  rw [logBytes_append, logBytes_singleton] at hsame
  have heq : frame = last :=
    hvalid.eq_of_suffix (h'.valid last hmem) (List.suffix_append before _)
      (hsame ▸ List.suffix_append _ _)
  exact ⟨front, ⟨rest ++ more, by rw [heq]; simp⟩, heq ▸ hoffset⟩

/-- A frame whose bytes end where the store says that a producer stopped is in
the log. -/
theorem mem_of_endsAt (h : DeltaLog P limits stream d frames) (hvalid : frame.Valid limits)
    (h' : DeltaLog P limits stream d' frames') (hgrow : d.Grows d') {id : String}
    {sequence offset : UInt64} (hlast : d.last stream id = some (sequence, offset))
    (hends : EndsAt (d'.read stream) offset.toNat (frame.encoded limits)) : frame ∈ frames' := by
  obtain ⟨front, hprefix, _⟩ := h.exists_of_endsAt hvalid h' hgrow hlast hends
  exact hprefix.subset (List.mem_append_right front (List.mem_singleton_self frame))

end DeltaLog

/-- What holds of the delta streams of a room at every moment. -/
structure DeltaInvariant (P : GenerationId → DeltaFrame → Prop) (limits : FrameLimits)
    (roomId : String) (w : World) : Prop where
  logs : ∀ generation, ∃ frames,
    DeltaLog (P generation) limits (deltaStreamForGeneration roomId generation).physical w.disk
      frames
  underWay : ∀ app ∈ w.underWay, ∀ generation,
    app.stream = (deltaStreamForGeneration roomId generation).physical →
      ∃ frame, Submittable (P generation) limits frame ∧
        app = deltaAppend limits (deltaStreamForGeneration roomId generation).physical frame

/-- The calls that keep the delta streams: those that submit to them submit
frames. -/
def Submits (P : GenerationId → DeltaFrame → Prop) (limits : FrameLimits) (roomId : String) :
    Request → Prop
  | .append stream producer body => ∀ generation,
      stream = (deltaStreamForGeneration roomId generation).physical →
        ∃ frame, Submittable (P generation) limits frame ∧
          (⟨stream, producer, body⟩ : Append) =
            deltaAppend limits (deltaStreamForGeneration roomId generation).physical frame
  | _ => True

namespace DeltaInvariant

variable {P : GenerationId → DeltaFrame → Prop} {limits : FrameLimits} {roomId : String}
  {w w' : World}

theorem empty : DeltaInvariant P limits roomId World.empty where
  logs _ := ⟨[], .empty⟩
  underWay := nofun

/-- The logs after an append has reached the store. -/
theorem append (h : DeltaInvariant P limits roomId w) (app : Append)
    (happ : ∀ generation, app.stream = (deltaStreamForGeneration roomId generation).physical →
      ∃ frame, Submittable (P generation) limits frame ∧
        app = deltaAppend limits (deltaStreamForGeneration roomId generation).physical frame)
    (generation : GenerationId) : ∃ frames, DeltaLog (P generation) limits
      (deltaStreamForGeneration roomId generation).physical (w.disk.append app) frames := by
  obtain ⟨frames, hlog⟩ := h.logs generation
  by_cases hstream : app.stream = (deltaStreamForGeneration roomId generation).physical
  · obtain ⟨frame, hframe, rfl⟩ := happ generation hstream
    exact hlog.append hframe
  · refine ⟨frames, ?_⟩
    by_cases haccepts : w.disk.Accepts app
    · rw [Disk.append_of_accepts haccepts]
      exact hlog.accept_ne hstream
    · rw [Disk.append_of_not_accepts haccepts]
      exact hlog

/-- A call that submits frames alone keeps the delta streams. -/
theorem serve (h : DeltaInvariant P limits roomId w) {req : Request} {x : Answer req}
    (hsubmits : Submits P limits roomId req) (hserve : served w req x w') :
    DeltaInvariant P limits roomId w' := by
  cases req with
  | ensureStream stream =>
    rcases (served_ensureStream hserve).1 with rfl | rfl
    · exact h
    · refine ⟨fun generation => ?_, h.underWay⟩
      obtain ⟨frames, hlog⟩ := h.logs generation
      exact ⟨frames, hlog.ensure stream⟩
  | readAll stream => exact (served_readAll hserve).1 ▸ h
  | readRange stream offset length => exact (served_readRange hserve).1 ▸ h
  | append stream producer body =>
    refine ⟨fun generation => ?_, fun app hmem generation hstream => ?_⟩
    · have happend := h.append ⟨stream, producer, body⟩ hsubmits generation
      cases served_append hserve with
      | accepted haccepts =>
        rw [Disk.append_of_accepts haccepts] at happend
        exact happend
      | duplicate => exact h.logs generation
      | refused => exact h.logs generation
    · rcases served_underWay hserve app hmem with hmem | rfl
      · exact h.underWay app hmem generation hstream
      · exact hsubmits generation hstream

/-- An append under way that reaches the store. -/
theorem deliver (h : DeltaInvariant P limits roomId w) {app : Append} (hmem : app ∈ w.underWay) :
    DeltaInvariant P limits roomId (w.deliver app) :=
  ⟨h.append app (h.underWay app hmem), h.underWay⟩

/-- The appends under way may get lost or change their sender. -/
theorem transport (h : DeltaInvariant P limits roomId w) (hdisk : w'.disk = w.disk)
    (hsent : ∀ app ∈ w'.underWay, app ∈ w.underWay) : DeltaInvariant P limits roomId w' where
  logs := hdisk ▸ h.logs
  underWay app hmem := h.underWay app (hsent app hmem)

end DeltaInvariant

/-- A frame is in a delta stream. -/
def Committed (P : GenerationId → DeltaFrame → Prop) (limits : FrameLimits) (roomId : String)
    (generation : GenerationId) (frame : DeltaFrame) (d : Disk) : Prop :=
  ∃ frames, DeltaLog (P generation) limits
    (deltaStreamForGeneration roomId generation).physical d frames ∧ frame ∈ frames

/-- A frame stays in its stream. -/
theorem Committed.mono {P : GenerationId → DeltaFrame → Prop} {limits : FrameLimits}
    {roomId : String} {generation : GenerationId} {frame : DeltaFrame} {d : Disk} {w : World}
    (h : Committed P limits roomId generation frame d) (hgrow : d.Grows w.disk)
    (hw : DeltaInvariant P limits roomId w) : Committed P limits roomId generation frame w.disk := by
  obtain ⟨frames, hlog, hmem⟩ := h
  obtain ⟨frames', hlog'⟩ := hw.logs generation
  exact ⟨frames', hlog', (hlog.isPrefix hlog' hgrow).subset hmem⟩

end LoroGateway
