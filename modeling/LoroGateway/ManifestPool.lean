import LoroGateway.ManifestInvariant
import LoroGateway.PublicationSpec
import LoroGateway.Sample
import LoroGateway.Scripted

/-!
# Publications that race

Any number of calls of `publish_manifest_record` for one room, from any number
of boots, with their calls of the store interleaved in any order.  Appends that
were given up can reach the store at any later moment.
-/

namespace LoroGateway

open ByteCodec CrashLogic

section

variable [Hashing] {roomId : String}

/-- One call of `publish_manifest_record`. -/
structure Publication where
  record : ManifestRecord
  maxAmbiguousRetries : Nat

namespace Publication

/-- What a call runs. -/
def program (roomId : String) (call : Publication) :
    StoreM (Except ManifestWriteError WriteOutcome) :=
  (publishManifestRecord roomId call.record call.maxAmbiguousRetries).run

/-- An append that is under way reaches the store. -/
def drift (w w' : World) : Prop := ∃ app ∈ w.underWay, w' = w.deliver app

/-- A call that succeeded has its record in the stream, where its revision says. -/
def Published (roomId : String) (call : Publication)
    (result : Except ManifestWriteError WriteOutcome) (w : World) : Prop :=
  ∀ outcome, result = .ok outcome → call.record.Valid ∧
    EndsAt (w.disk.read (manifestStream roomId).physical) (188 * (call.record.revision.toNat + 1))
      call.record.encoded

/-- The manifest is a log, and streams only grow. -/
def contract (roomId : String) : Contract World where
  inv w := ∃ records, ManifestInvariant roomId (fun _ _ => True) w records
  rely w w' := w.disk.Grows w'.disk
  guar w w' := w.disk.Grows w'.disk
  rely_refl := World.grows_refl
  rely_trans := World.grows_trans

theorem grounded (roomId : String) : Grounded served (contract roomId) where
  sub h := h
  grows h := h
  guar_refl w := Disk.Grows.refl w.disk

/-- A call keeps the log, whatever the others do. -/
theorem wp_program (call : Publication) (w : World) :
    wp served (contract roomId) (program roomId call) (Published roomId call) w := by
  have hstable : (contract roomId).Stable fun _ => True := fun _ _ _ _ => trivial
  refine wp_publishManifestRecord (grounded roomId) hstable trivial ?_ ?_ ?_ ?_ ?_
  · rintro w ⟨records, h⟩
    exact ⟨records, h.log⟩
  · rintro w x w' - ⟨records, h⟩ hserve
    refine ⟨⟨⟨records, ?_⟩, served_grows hserve⟩, trivial⟩
    rcases (served_ensureStream hserve).1 with rfl | rfl
    · exact h
    · exact h.ensure (fun _ _ _ _ _ => trivial) _
  · rintro hvalid w x w' ⟨-, hchecked⟩ ⟨records, h⟩ hserve
    exact ⟨⟨h.publish (fun _ _ _ _ _ => trivial) hvalid hchecked trivial hserve,
      served_grows hserve⟩, trivial, CheckedAgainst.stable _ _ _ _ (served_grows hserve) hchecked⟩
  · exact fun _ _ _ _ h => by cases h
  · exact fun _ _ _ hvalid hends _ _ => ⟨hvalid, hends⟩

theorem sound : Pool.Sound served drift (program roomId) (Unwritten roomId) (contract roomId)
    (Published roomId) where
  init h := ⟨[], h.invariant⟩
  start call w _ := wp_program call w
  rely_of_guar _ _ h := h
  drift := by
    rintro w w' ⟨records, h⟩ ⟨app, hmem, rfl⟩
    exact ⟨h.deliver (fun _ _ _ _ _ => trivial) hmem, Disk.grows_append _ _⟩
  stable := by
    intro call result w w' h hgrow outcome hok
    obtain ⟨hvalid, hends⟩ := h outcome hok
    exact ⟨hvalid, hends.mono (hgrow _).1⟩

end Publication

/-- Two records of a chain at one revision are one record at one place. -/
theorem ManifestChain.index_inj {records : List ManifestRecord} (h : ManifestChain roomId records)
    {i j : Nat} {record other : ManifestRecord} (hi : records[i]? = some record)
    (hj : records[j]? = some other) (hrevision : record.revision = other.revision) : i = j := by
  rw [← h.revision_eq i record hi, ← h.revision_eq j other hj, hrevision]

/-- Whatever calls race on a manifest stream that was empty, the stream is a
valid chain at every moment, with one record for a revision, and every call
that succeeded has its record in it once, at the index of its revision. -/
theorem manifest_chain_of_pool {g : Pool.State Request Answer World Publication
      (Except ManifestWriteError WriteOutcome)}
    (hreach : Pool.Reachable served Publication.drift (Publication.program roomId)
      (Unwritten roomId) g) :
    ∃ records : List ManifestRecord,
      g.world.disk.read (manifestStream roomId).physical = manifestBytes records ∧
      (∀ record ∈ records, record.encode = .ok record.encoded) ∧
      (records = [] ∨ ∃ latest, validateManifestChain records roomId = .ok latest) ∧
      (∀ (i j : Nat) (record other : ManifestRecord), records[i]? = some record →
        records[j]? = some other → record.revision = other.revision → i = j) ∧
      ∀ entry ∈ g.finished, ∀ outcome, entry.2 = .ok outcome →
        ∀ index, records[index]? = some entry.1.record ↔
          index = entry.1.record.revision.toNat := by
  have hholds := hreach.sound Publication.sound
  obtain ⟨records, h⟩ := hholds.inv
  refine ⟨records, h.log.content, fun r hr => (h.log.valid r hr).encode_eq, h.log.accepted,
    fun i j record other => h.log.chain.index_inj, ?_⟩
  intro entry hentry outcome hok index
  obtain ⟨hvalid, hends⟩ := hholds.finished entry hentry outcome hok
  constructor
  · exact fun hindex => (h.log.chain.revision_eq index _ hindex).symm
  · rintro rfl
    exact h.log.getElem?_of_endsAt hvalid hends

end

open Sample

/-- The publication of the first record of a room. -/
def samplePublication : Publication :=
  let record : ManifestRecord :=
    { roomHash := roomHash "r", revision := 0, previousRecordDigest := genesisDigest,
      checkpointGeneration := 0, checkpointStreamEndOffset := 1,
      checkpointRecordDigest := ByteArr.zero 32, activeDeltaGeneration := 1,
      digest := ByteArr.zero 32 }
  ⟨{ record with digest := record.expectedDigest }, 1⟩

/-- Two calls publish the same record.  The first one has read the empty stream
when the second one appends, with a lost answer. -/
theorem manifest_chain_of_race :
    ∃ g : Pool.State Request Answer World Publication (Except ManifestWriteError WriteOutcome),
      g.finished.map (fun entry => entry.2.isOk) = [true, true] ∧
      ∃ records : List ManifestRecord,
        g.world.disk.read (manifestStream "r").physical = manifestBytes records ∧
        ∀ index, records[index]? = some samplePublication.record ↔ index = 0 := by
  have hrun : (Pool.race scriptedStore [.answered, .answered]
      [.answered, .answered, .lost "timeout", .answered, .answered] [.answered, .answered]
      (samplePublication.program "r") (samplePublication.program "r") World.empty).any
        (fun r => r.1.isOk && r.2.1.isOk) = true := by
    decide +kernel
  obtain ⟨⟨first, second, w⟩, hrace, hok⟩ := (Option.any_eq_true _ _).mp hrun
  obtain ⟨hfirst, hsecond⟩ := Bool.and_eq_true_iff.mp hok
  have hreach : Pool.Reachable served Publication.drift (Publication.program "r") (Unwritten "r")
      ⟨w, [], [(samplePublication, first), (samplePublication, second)]⟩ :=
    Pool.Reachable.race served_of_scripted hrace (Unwritten.empty "r")
  obtain ⟨records, hread, _, _, _, hplaced⟩ := manifest_chain_of_pool hreach
  refine ⟨_, ?_, records, hread, fun index => ?_⟩
  · rw [List.map_cons, List.map_cons, List.map_nil, hfirst, hsecond]
  · cases first with
    | error error => cases hfirst
    | ok outcome => exact hplaced _ List.mem_cons_self outcome rfl index

end LoroGateway
