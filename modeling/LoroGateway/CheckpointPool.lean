import LoroGateway.CheckpointLog
import LoroGateway.PublicationSpec
import LoroGateway.Scripted

/-!
# Checkpoints that race

Any number of calls of `persist_checkpoint` for one room and one generation,
each with a record of its own, with their calls of the store interleaved in any
order.  Appends that were given up can reach the store at any later moment.
-/

namespace LoroGateway

open ByteCodec CrashLogic

section

variable [Hashing] {roomId : String} {generation : GenerationId}

/-- One call of `persist_checkpoint`. -/
structure Persistence where
  record : CheckpointRecord
  maxAmbiguousRetries : Nat

namespace Persistence

/-- What a call runs. -/
def program (roomId : String) (generation : GenerationId) (call : Persistence) :
    StoreM (Except CheckpointWriteError WriteOutcome) :=
  (persistCheckpoint roomId generation call.record call.maxAmbiguousRetries).run

/-- An append that is under way reaches the store. -/
def drift (w w' : World) : Prop := ∃ app ∈ w.underWay, w' = w.deliver app

/-- Nothing has been written to the stream of the checkpoint. -/
structure Unwritten (roomId : String) (generation : GenerationId) (w : World) : Prop where
  read : w.disk.read (checkpointStream roomId generation).physical = []
  last : w.disk.last (checkpointStream roomId generation).physical
    (checkpointProducerId roomId generation) = none
  underWay : ∀ app ∈ w.underWay, app.stream ≠ (checkpointStream roomId generation).physical

/-- A call that succeeded has its record at the start of the stream. -/
def Persisted (roomId : String) (generation : GenerationId) (call : Persistence)
    (result : Except CheckpointWriteError WriteOutcome) (w : World) : Prop :=
  ∀ outcome, result = .ok outcome → ∃ bytes, call.record.encode = .ok bytes ∧
    bytes <+: w.disk.read (checkpointStream roomId generation).physical

/-- The stream is written once, and streams only grow. -/
def contract (roomId : String) (generation : GenerationId) : Contract World where
  inv := CheckpointInvariant (fun _ => True) roomId generation
  rely w w' := w.disk.Grows w'.disk
  guar w w' := w.disk.Grows w'.disk
  rely_refl := World.grows_refl
  rely_trans := World.grows_trans

theorem grounded (roomId : String) (generation : GenerationId) :
    Grounded served (contract roomId generation) where
  sub h := h
  grows h := h
  guar_refl w := Disk.Grows.refl w.disk

/-- A call keeps the stream, whatever the others do. -/
theorem wp_program (call : Persistence) (w : World) :
    wp served (contract roomId generation) (program roomId generation call)
      (Persisted roomId generation call) w := by
  have hstable : (contract roomId generation).Stable fun _ => True := fun _ _ _ _ => trivial
  cases hencode : call.record.encode with
  | error error =>
    rw [program, persistCheckpoint, hencode]
    refine wp_check_bind (fun _ => ?_) fun _ _ h => by cases h
    exact wp_check_bind (fun _ _ h => by cases h) fun _ _ h => by cases h
  | ok bytes =>
    refine wp_persistCheckpoint (grounded roomId generation) hstable trivial hencode ?_ ?_ ?_ ?_
    · exact fun w x w' _ h hserve => ⟨⟨h.ensure hserve, served_grows hserve⟩, trivial⟩
    · exact fun w x w' _ h hserve =>
        ⟨⟨h.persist trivial hencode hserve, served_grows hserve⟩, trivial⟩
    · exact fun _ _ _ _ h => by cases h
    · exact fun _ _ _ hbytes _ _ => ⟨bytes, hencode, hbytes⟩

theorem sound : Pool.Sound served drift (program roomId generation) (Unwritten roomId generation)
    (contract roomId generation) (Persisted roomId generation) where
  init h := ⟨.inl ⟨h.last, h.read⟩, fun app hmem hstream => absurd hstream (h.underWay app hmem)⟩
  start call w _ := wp_program call w
  rely_of_guar _ _ h := h
  drift := by
    rintro w w' h ⟨app, hmem, rfl⟩
    exact ⟨h.deliver hmem, Disk.grows_append _ _⟩
  stable := by
    intro call result w w' h hgrow outcome hok
    obtain ⟨bytes, hencode, hbytes⟩ := h outcome hok
    exact ⟨bytes, hencode, hbytes.trans (hgrow _).1⟩

end Persistence

/-- Whatever calls race on a checkpoint stream that was empty, the stream is empty
or the encoding of one record at every moment, what it holds never changes, and
every call that succeeded has its record there. -/
theorem checkpoint_written_once {g : Pool.State Request Answer World Persistence
      (Except CheckpointWriteError WriteOutcome)}
    (hreach : Pool.Reachable served Persistence.drift (Persistence.program roomId generation)
      (Persistence.Unwritten roomId generation) g) :
    (g.world.disk.read (checkpointStream roomId generation).physical = [] ∨
      ∃ record : CheckpointRecord,
        record.encode = .ok (g.world.disk.read (checkpointStream roomId generation).physical)) ∧
    (∀ g', Relation.ReflTransGen
        (Pool.Step served Persistence.drift (Persistence.program roomId generation)) g g' →
      g.world.disk.read (checkpointStream roomId generation).physical ≠ [] →
        g'.world.disk.read (checkpointStream roomId generation).physical =
          g.world.disk.read (checkpointStream roomId generation).physical) ∧
    ∀ entry ∈ g.finished, ∀ outcome, entry.2 = .ok outcome →
      entry.1.record.encode =
        .ok (g.world.disk.read (checkpointStream roomId generation).physical) := by
  have hholds := hreach.sound Persistence.sound
  refine ⟨?_, ?_, ?_⟩
  · rcases hholds.inv.once with ⟨_, hempty⟩ | ⟨_, record, _, hencode⟩
    · exact .inl hempty
    · exact .inr ⟨record, hencode⟩
  · intro g' hsteps hne
    obtain ⟨hreach', hgrow⟩ := hreach.rely Persistence.sound hsteps
    exact hholds.inv.once.read_eq (hreach'.sound Persistence.sound).inv.once hgrow hne
  · intro entry hentry outcome hok
    obtain ⟨bytes, hencode, hbytes⟩ := hholds.finished entry hentry outcome hok
    rw [hholds.inv.once.eq_of_isPrefix hencode hbytes]
    exact hencode

end

open Sample

/-- A checkpoint of the first generation of a room. -/
def samplePersistence (snapshot : Bytes) : Persistence :=
  ⟨CheckpointRecord.new "r" 0 0 0 snapshot [], 1⟩

/-- Two calls persist different records.  The first one has read the empty stream
when the second one appends, with a lost answer, and is refused. -/
theorem checkpoint_written_once_raced :
    ∃ g : Pool.State Request Answer World Persistence (Except CheckpointWriteError WriteOutcome),
      g.finished.map (fun entry => entry.2.isOk) = [false, true] ∧
        (samplePersistence [0, 1]).record.encode =
          .ok (g.world.disk.read (checkpointStream "r" .zero).physical) := by
  have hrun : (Pool.race scriptedStore [.answered, .answered]
      [.answered, .answered, .lost "timeout", .answered, .answered] [.answered, .answered]
      ((samplePersistence [0, 0]).program "r" .zero) ((samplePersistence [0, 1]).program "r" .zero)
      World.empty).any (fun r => !r.1.isOk && r.2.1.isOk) = true := by
    decide +kernel
  obtain ⟨⟨first, second, w⟩, hrace, hok⟩ := (Option.any_eq_true _ _).mp hrun
  obtain ⟨hfirst, hsecond⟩ := Bool.and_eq_true_iff.mp hok
  have hreach : Pool.Reachable served Persistence.drift (Persistence.program "r" .zero)
      (Persistence.Unwritten "r" .zero)
      ⟨w, [], [(samplePersistence [0, 0], first), (samplePersistence [0, 1], second)]⟩ :=
    Pool.Reachable.race served_of_scripted hrace ⟨rfl, rfl, nofun⟩
  have hwritten := (checkpoint_written_once hreach).2.2
  refine ⟨⟨w, [], [(samplePersistence [0, 0], first), (samplePersistence [0, 1], second)]⟩,
    ?_, ?_⟩
  · have hrefused : first.isOk = false := (Bool.not_eq_true' _).mp hfirst
    rw [List.map_cons, List.map_cons, List.map_nil, hrefused, hsecond]
  · cases second with
    | error error => cases hsecond
    | ok outcome => exact hwritten _ (List.mem_cons_of_mem _ List.mem_cons_self) outcome rfl

end LoroGateway
