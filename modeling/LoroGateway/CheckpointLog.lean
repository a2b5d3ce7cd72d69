import LoroGateway.CheckpointCodec
import LoroGateway.Served

/-!
# A checkpoint stream is written once

The producer of a checkpoint stream has one sequence, so the store accepts one
append to it.  `WrittenOnce` says so of a disk.  `CheckpointInvariant` adds the
appends that are under way, and it holds at every moment, whoever writes.
-/

namespace LoroGateway

open ByteCodec CrashLogic

variable [Hashing] {P : CheckpointRecord → Prop} {roomId : String} {generation : GenerationId}

/-- The append that writes a checkpoint. -/
def checkpointAppend (roomId : String) (generation : GenerationId) (bytes : Bytes) : Append :=
  ⟨(checkpointStream roomId generation).physical, ⟨checkpointProducerId roomId generation, 0, 0⟩,
    bytes⟩

/-- A checkpoint stream holds nothing, or one checkpoint that satisfies `P`. -/
def WrittenOnce (P : CheckpointRecord → Prop) (roomId : String) (generation : GenerationId)
    (d : Disk) : Prop :=
  (d.last (checkpointStream roomId generation).physical (checkpointProducerId roomId generation) =
      none ∧ d.read (checkpointStream roomId generation).physical = []) ∨
    (d.last (checkpointStream roomId generation).physical (checkpointProducerId roomId generation) ≠
      none ∧ ∃ checkpoint, P checkpoint ∧
        checkpoint.encode = .ok (d.read (checkpointStream roomId generation).physical))

namespace WrittenOnce

variable {d d' : Disk} {app : Append}

theorem empty (P : CheckpointRecord → Prop) (roomId : String) (generation : GenerationId) :
    WrittenOnce P roomId generation Disk.empty :=
  .inl ⟨rfl, rfl⟩

theorem ensure (h : WrittenOnce P roomId generation d) (stream : String) :
    WrittenOnce P roomId generation (d.ensure stream) := by
  rw [WrittenOnce, Disk.last_ensure, Disk.read_ensure]
  exact h

theorem accept_ne (h : WrittenOnce P roomId generation d)
    (hne : app.stream ≠ (checkpointStream roomId generation).physical) :
    WrittenOnce P roomId generation (d.accept app) := by
  rw [WrittenOnce, Disk.read_accept_ne hne.symm, Disk.last_accept_ne fun heq => hne heq.1.symm]
  exact h

/-- The store accepts a checkpoint only into an empty stream. -/
theorem accept (h : WrittenOnce P roomId generation d) {checkpoint : CheckpointRecord}
    {bytes : Bytes} (hof : P checkpoint) (hencode : checkpoint.encode = .ok bytes)
    (haccepts : d.Accepts (checkpointAppend roomId generation bytes)) :
    WrittenOnce P roomId generation (d.accept (checkpointAppend roomId generation bytes)) := by
  have hlast := Disk.last_accept_self d (checkpointAppend roomId generation bytes)
  have hread := Disk.read_accept_self d (checkpointAppend roomId generation bytes)
  dsimp only [checkpointAppend] at hlast hread
  refine .inr ⟨?_, checkpoint, hof, ?_⟩
  · dsimp only [checkpointAppend]
    rw [hlast]
    exact Option.some_ne_none _
  · dsimp only [checkpointAppend]
    rw [hread]
    rcases h with ⟨_, hempty⟩ | ⟨hwritten, _⟩
    · rw [hempty]
      exact hencode
    · have hseq := haccepts.1
      dsimp only [checkpointAppend] at hseq
      split at hseq
      · rename_i hnone
        exact absurd hnone hwritten
      · simp at hseq

theorem mono {P' : CheckpointRecord → Prop} (h : WrittenOnce P roomId generation d)
    (himp : ∀ checkpoint, P checkpoint → P' checkpoint) : WrittenOnce P' roomId generation d :=
  h.imp_right fun ⟨hne, checkpoint, hof, hencode⟩ => ⟨hne, checkpoint, himp _ hof, hencode⟩

/-- The bytes of a checkpoint that starts its stream are all of it. -/
theorem eq_of_isPrefix (h : WrittenOnce P roomId generation d) {checkpoint : CheckpointRecord}
    {bytes : Bytes} (hencode : checkpoint.encode = .ok bytes)
    (hbytes : bytes <+: d.read (checkpointStream roomId generation).physical) :
    d.read (checkpointStream roomId generation).physical = bytes := by
  rcases h with ⟨_, hempty⟩ | ⟨_, other, _, hother⟩
  · rw [hempty] at hbytes ⊢
    exact (List.prefix_nil.mp hbytes).symm
  · exact (CheckpointRecord.encode_eq_of_isPrefix hencode hother hbytes).symm

/-- A checkpoint stream that holds something does not grow. -/
theorem read_eq (h : WrittenOnce P roomId generation d) (h' : WrittenOnce P roomId generation d')
    (hgrow : d.Grows d') (hne : d.read (checkpointStream roomId generation).physical ≠ []) :
    d'.read (checkpointStream roomId generation).physical =
      d.read (checkpointStream roomId generation).physical := by
  rcases h with ⟨_, hempty⟩ | ⟨_, checkpoint, _, hencode⟩
  · exact absurd hempty hne
  · exact h'.eq_of_isPrefix hencode (hgrow _).1

end WrittenOnce

/-- What holds of a checkpoint stream at every moment. -/
structure CheckpointInvariant (P : CheckpointRecord → Prop) (roomId : String)
    (generation : GenerationId) (w : World) : Prop where
  once : WrittenOnce P roomId generation w.disk
  underWay : ∀ app ∈ w.underWay, app.stream = (checkpointStream roomId generation).physical →
    ∃ checkpoint bytes, P checkpoint ∧ checkpoint.encode = .ok bytes ∧
      app = checkpointAppend roomId generation bytes

namespace CheckpointInvariant

variable {w w' : World}

/-- A call that leaves the stream alone. -/
theorem append_ne (h : CheckpointInvariant P roomId generation w) {stream : String}
    {producer : ProducerTuple} {body : Bytes} {x : Except StoreError AppendOutcome}
    (hne : stream ≠ (checkpointStream roomId generation).physical)
    (hserve : served w (.append stream producer body) x w') :
    CheckpointInvariant P roomId generation w' where
  once := by
    cases served_append hserve with
    | accepted => exact h.once.accept_ne hne
    | duplicate => exact h.once
    | refused => exact h.once
  underWay := by
    intro app hmem hstream
    rcases served_underWay hserve app hmem with hold | rfl
    · exact h.underWay app hold hstream
    · exact absurd hstream hne

theorem ensure (h : CheckpointInvariant P roomId generation w) {stream : String}
    {x : Except StoreError Unit} (hserve : served w (.ensureStream stream) x w') :
    CheckpointInvariant P roomId generation w' := by
  rcases (served_ensureStream hserve).1 with rfl | rfl
  · exact h
  · exact ⟨h.once.ensure stream, h.underWay⟩

/-- A call that appends nothing to the stream. -/
theorem serve_ne (h : CheckpointInvariant P roomId generation w) {req : Request} {x : Answer req}
    (hne : ∀ stream producer body, req = .append stream producer body →
      stream ≠ (checkpointStream roomId generation).physical)
    (hserve : served w req x w') : CheckpointInvariant P roomId generation w' := by
  cases req with
  | ensureStream stream => exact h.ensure hserve
  | readAll stream => exact (served_readAll hserve).1 ▸ h
  | readRange stream offset length => exact (served_readRange hserve).1 ▸ h
  | append stream producer body => exact h.append_ne (hne _ _ _ rfl) hserve

theorem mono {P' : CheckpointRecord → Prop} (h : CheckpointInvariant P roomId generation w)
    (himp : ∀ checkpoint, P checkpoint → P' checkpoint) :
    CheckpointInvariant P' roomId generation w where
  once := h.once.mono himp
  underWay app hmem hstream := by
    obtain ⟨checkpoint, bytes, hof, hrest⟩ := h.underWay app hmem hstream
    exact ⟨checkpoint, bytes, himp _ hof, hrest⟩

/-- A call that submits a checkpoint. -/
theorem persist (h : CheckpointInvariant P roomId generation w) {checkpoint : CheckpointRecord}
    {bytes : Bytes} {x : Except StoreError AppendOutcome} (hof : P checkpoint)
    (hencode : checkpoint.encode = .ok bytes)
    (hserve : served w (.append (checkpointStream roomId generation).physical
      ⟨checkpointProducerId roomId generation, 0, 0⟩ bytes) x w') :
    CheckpointInvariant P roomId generation w' where
  once := by
    cases served_append hserve with
    | accepted haccepts => exact h.once.accept hof hencode haccepts
    | duplicate => exact h.once
    | refused => exact h.once
  underWay := by
    intro app hmem hstream
    rcases served_underWay hserve app hmem with hold | rfl
    · exact h.underWay app hold hstream
    · exact ⟨checkpoint, bytes, hof, hencode, rfl⟩

/-- An append under way that reaches the store. -/
theorem deliver (h : CheckpointInvariant P roomId generation w) {app : Append}
    (hmem : app ∈ w.underWay) : CheckpointInvariant P roomId generation (w.deliver app) where
  once := by
    change WrittenOnce P roomId generation (w.disk.append app)
    by_cases haccepts : w.disk.Accepts app
    · rw [Disk.append_of_accepts haccepts]
      by_cases hstream : app.stream = (checkpointStream roomId generation).physical
      · obtain ⟨checkpoint, bytes, hof, hencode, rfl⟩ := h.underWay app hmem hstream
        exact h.once.accept hof hencode haccepts
      · exact h.once.accept_ne hstream
    · rw [Disk.append_of_not_accepts haccepts]
      exact h.once
  underWay := h.underWay

end CheckpointInvariant

end LoroGateway
