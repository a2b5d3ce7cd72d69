import LoroGateway.ManifestLog

/-!
# The manifest under late appends

`ManifestInvariant` is what holds of the manifest of a room at every moment,
whoever publishes: the stream is a log of records, and every append to it that
is still under way is a submission.  `link` is what a caller wants to hold of
each record besides, in the log and under way; it must survive the growth of
streams.
-/

namespace LoroGateway

open ByteCodec CrashLogic

variable [Hashing] {roomId : String} {link : ManifestRecord → World → Prop} {w w' : World}
  {record : ManifestRecord}

structure ManifestInvariant (roomId : String) (link : ManifestRecord → World → Prop) (w : World)
    (records : List ManifestRecord) : Prop where
  log : ManifestLog roomId w.disk records
  linked : ∀ record ∈ records, link record w
  underWay : ∀ app ∈ w.underWay, app.stream = (manifestStream roomId).physical →
    ∃ record, app = manifestAppend roomId record ∧ Submitted roomId records record ∧ link record w

/-- Nothing has been written to the manifest of the room. -/
structure Unwritten (roomId : String) (w : World) : Prop where
  read : w.disk.read (manifestStream roomId).physical = []
  last : w.disk.last (manifestStream roomId).physical (manifestProducerId roomId) = none
  underWay : ∀ app ∈ w.underWay, app.stream ≠ (manifestStream roomId).physical

theorem Unwritten.empty (roomId : String) : Unwritten roomId World.empty := ⟨rfl, rfl, nofun⟩

theorem Unwritten.invariant (h : Unwritten roomId w) : ManifestInvariant roomId link w [] where
  log := ManifestLog.empty.congr h.read h.last
  linked := nofun
  underWay app hmem hstream := absurd hstream (h.underWay app hmem)

namespace ManifestInvariant

variable {records : List ManifestRecord}

variable (hlink : ∀ record, GrowthStable (link record))

include hlink

/-- The invariant survives what leaves the manifest stream alone. -/
theorem congr (h : ManifestInvariant roomId link w records) (hgrow : w.disk.Grows w'.disk)
    (hlog : ManifestLog roomId w'.disk records)
    (hsent : ∀ app ∈ w'.underWay, app ∈ w.underWay ∨
      app.stream ≠ (manifestStream roomId).physical) :
    ManifestInvariant roomId link w' records where
  log := hlog
  linked := fun record hmem => hlink record w w' hgrow (h.linked record hmem)
  underWay := by
    intro app hmem hstream
    rcases hsent app hmem with hold | hne
    · obtain ⟨record, heq, hsubmitted, hlinked⟩ := h.underWay app hold hstream
      exact ⟨record, heq, hsubmitted, hlink record w w' hgrow hlinked⟩
    · exact absurd hstream hne

theorem ensure (h : ManifestInvariant roomId link w records) (stream : String) :
    ManifestInvariant roomId link { w with disk := w.disk.ensure stream } records :=
  h.congr hlink (Disk.grows_ensure _ _) (h.log.ensure stream) fun _ hmem => .inl hmem

/-- The log after a submission has been accepted. -/
theorem extend (h : ManifestInvariant roomId link w records)
    (hlog : ManifestLog roomId w'.disk (records ++ [record])) (hlinked : link record w)
    (hgrow : w.disk.Grows w'.disk) (hsent : w'.underWay = w.underWay) :
    ManifestInvariant roomId link w' (records ++ [record]) where
  log := hlog
  linked := by
    intro r hr
    rcases List.mem_append.mp hr with hr | hr
    · exact hlink r w w' hgrow (h.linked r hr)
    · exact List.mem_singleton.mp hr ▸ hlink record w w' hgrow hlinked
  underWay := by
    intro app hmem hstream
    obtain ⟨r, heq, hsubmitted, hr⟩ := h.underWay app (hsent ▸ hmem) hstream
    exact ⟨r, heq, hsubmitted.mono (List.prefix_append _ _), hlink r w w' hgrow hr⟩

/-- An append under way that reaches the store. -/
theorem deliver (h : ManifestInvariant roomId link w records) {app : Append}
    (hmem : app ∈ w.underWay) :
    ∃ records', ManifestInvariant roomId link (w.deliver app) records' := by
  have hgrow : w.disk.Grows (w.deliver app).disk := Disk.grows_append _ _
  by_cases haccepts : w.disk.Accepts app
  · have hdisk : (w.deliver app).disk = w.disk.accept app := Disk.append_of_accepts haccepts
    by_cases hstream : app.stream = (manifestStream roomId).physical
    · obtain ⟨record, rfl, hsubmitted, hlinked⟩ := h.underWay app hmem hstream
      rcases h.log.append hsubmitted with ⟨hnot, _⟩ | ⟨_, _, hlog⟩
      · exact absurd haccepts hnot
      · exact ⟨_, h.extend hlink (hdisk ▸ hlog) hlinked hgrow rfl⟩
    · exact ⟨records, h.congr hlink hgrow (hdisk ▸ h.log.accept_ne hstream) fun _ h => .inl h⟩
  · have hdisk : (w.deliver app).disk = w.disk := Disk.append_of_not_accepts haccepts
    exact ⟨records, h.congr hlink hgrow (hdisk ▸ h.log) fun _ h => .inl h⟩

/-- A call that appends a checked record. -/
theorem publish (h : ManifestInvariant roomId link w records)
    {x : Except StoreError AppendOutcome} (hvalid : record.Valid)
    (hchecked : CheckedAgainst roomId record w) (hlinked : link record w)
    (hserve : served w (.append (manifestStream roomId).physical
      ⟨manifestProducerId roomId, 0, record.revision⟩ record.encoded) x w') :
    ∃ records', ManifestInvariant roomId link w' records' := by
  have hsubmitted := h.log.submitted hvalid hchecked
  cases served_append hserve with
  | accepted haccepts =>
    rcases h.log.append hsubmitted with ⟨hnot, _⟩ | ⟨_, _, hlog⟩
    · exact absurd haccepts hnot
    · exact ⟨_, h.extend hlink hlog hlinked (Disk.grows_accept _ _) rfl⟩
  | duplicate =>
    exact ⟨records, h.congr hlink (Disk.Grows.refl _) h.log fun _ hmem => .inl hmem⟩
  | refused hsent =>
    -- the disk is as it was; the submission may be under way now
    refine ⟨records, h.log, fun r hr => hlink r w _ (Disk.Grows.refl _) (h.linked r hr), ?_⟩
    intro app hmem hstream
    have hsame : app = manifestAppend roomId record ∨ app ∈ w.underWay := by
      rcases hsent with rfl | rfl
      · exact .inr hmem
      · exact List.mem_cons.mp hmem
    rcases hsame with rfl | hmem
    · exact ⟨record, rfl, hsubmitted, hlink record w _ (Disk.Grows.refl _) hlinked⟩
    · obtain ⟨r, heq, hr, hlinkedR⟩ := h.underWay app hmem hstream
      exact ⟨r, heq, hr, hlink r w _ (Disk.Grows.refl _) hlinkedR⟩

/-- A call that appends to another stream. -/
theorem append_ne (h : ManifestInvariant roomId link w records) {stream : String}
    {producer : ProducerTuple} {body : Bytes} {x : Except StoreError AppendOutcome}
    (hne : stream ≠ (manifestStream roomId).physical)
    (hserve : served w (.append stream producer body) x w') :
    ManifestInvariant roomId link w' records := by
  cases served_append hserve with
  | accepted =>
    exact h.congr hlink (Disk.grows_accept _ _) (h.log.accept_ne hne) fun _ hmem => .inl hmem
  | duplicate => exact h.congr hlink (Disk.Grows.refl _) h.log fun _ hmem => .inl hmem
  | refused hsent =>
    refine h.congr hlink (Disk.Grows.refl _) h.log fun app hmem => ?_
    rcases hsent with rfl | rfl
    · exact .inl hmem
    · rcases List.mem_cons.mp hmem with rfl | hmem
      · exact .inr hne
      · exact .inl hmem

end ManifestInvariant

end LoroGateway
