import LoroGateway.ManifestCodec
import LoroGateway.Served

/-!
# The manifest stream as a list of records

`ManifestLog` ties the manifest stream of a disk to a list of records: the
stream holds their bytes, the records are a chain, and the last accepted
sequence of the manifest producer is the revision of the last record.

A submission is an append of a record that was checked against the stream as
its caller read it, which may be long ago.  `ManifestLog.accept` is why that is
enough: the store accepts the append only at the sequence that the record has
as its revision, and then the stream is still what the caller had read.
-/

namespace LoroGateway

open ByteCodec CrashLogic

variable [Hashing] {roomId : String} {d d' : Disk} {records records' : List ManifestRecord}
  {record : ManifestRecord}

/-- The manifest stream of a disk holds these records. -/
structure ManifestHeld (roomId : String) (d : Disk) (records : List ManifestRecord) : Prop where
  content : d.read (manifestStream roomId).physical = manifestBytes records
  valid : ∀ record ∈ records, record.Valid
  chain : ManifestChain roomId records
  word : (manifestBytes records).length < wordSize

/-- The manifest stream of a disk holds these records, and the store has accepted
them one by one. -/
structure ManifestLog (roomId : String) (d : Disk) (records : List ManifestRecord) : Prop
    extends ManifestHeld roomId d records where
  next : match d.last (manifestStream roomId).physical (manifestProducerId roomId) with
    | none => records = []
    | some (sequence, _) => sequence.toNat + 1 = records.length

/-- Streams of records extend each other as the lists do. -/
theorem isPrefix_of_manifestBytes (hvalid : ∀ record ∈ records, record.Valid)
    (hvalid' : ∀ record ∈ records', record.Valid)
    (h : manifestBytes records <+: manifestBytes records') : records <+: records' := by
  have hlen := h.length_le
  rw [length_manifestBytes hvalid, length_manifestBytes hvalid'] at hlen
  refine List.prefix_iff_getElem.mpr ⟨by omega, fun index hindex => ?_⟩
  have hindex' : index < records'.length := by omega
  refine (hvalid _ (List.getElem_mem hindex)).inj (hvalid' _ (List.getElem_mem hindex')) ?_
  obtain ⟨rest, hrest⟩ := h
  rw [← slice_manifestBytes hvalid hindex, ← slice_manifestBytes hvalid' hindex', ← hrest]
  have hfit : 188 * index + 188 ≤ (manifestBytes records).length := by
    rw [length_manifestBytes hvalid]
    omega
  rw [List.drop_append_of_le_length (by omega), List.take_append_of_le_length (by
    rw [List.length_drop]
    omega)]

namespace ManifestHeld

/-- The records are read off the manifest stream. -/
theorem congr (h : ManifestHeld roomId d records)
    (hread : d'.read (manifestStream roomId).physical = d.read (manifestStream roomId).physical) :
    ManifestHeld roomId d' records :=
  { h with content := hread.trans h.content }

/-- The record that ends at the offset of an index is the record at the index. -/
theorem getElem?_of_endsAt (h : ManifestHeld roomId d records) (hvalid : record.Valid) {index : Nat}
    (hends : EndsAt (d.read (manifestStream roomId).physical) (188 * (index + 1)) record.encoded) :
    records[index]? = some record := by
  rw [h.content] at hends
  obtain ⟨front, rest, hbytes, hlen⟩ := hends
  have hlength := congrArg List.length hbytes
  rw [length_manifestBytes h.valid, List.length_append, hlen] at hlength
  rw [List.length_append, hvalid.length_eq] at hlen
  have hindex : index < records.length := by omega
  have hslice := slice_manifestBytes h.valid hindex
  rw [hbytes, List.append_assoc, List.drop_left' (by omega),
    List.take_left' hvalid.length_eq] at hslice
  rw [List.getElem?_eq_getElem hindex,
    hvalid.inj (h.valid _ (List.getElem_mem hindex)) hslice]

/-- The last record ends the stream. -/
theorem endsAt_getLast (h : ManifestHeld roomId d records) (hlast : records.getLast? = some record) :
    EndsAt (d.read (manifestStream roomId).physical) (188 * (record.revision.toNat + 1))
      record.encoded := by
  obtain ⟨front, rfl⟩ := List.getLast?_eq_some_iff.mp hlast
  have hrevision : record.revision.toNat = front.length :=
    h.chain.revision_eq _ _ List.getElem?_concat_length
  refine ⟨manifestBytes front, [], ?_, ?_⟩
  · rw [h.content, manifestBytes_append, manifestBytes_singleton, List.append_nil]
  · rw [← manifestBytes_singleton, ← manifestBytes_append, length_manifestBytes h.valid,
      List.length_append, List.length_singleton, hrevision]

/-- A disk holds at most one list of records. -/
theorem unique (h : ManifestHeld roomId d records) (h' : ManifestHeld roomId d records') :
    records = records' := by
  have hbytes := h.content.symm.trans h'.content
  have hprefix := isPrefix_of_manifestBytes h.valid h'.valid (hbytes ▸ List.prefix_rfl)
  have hprefix' := isPrefix_of_manifestBytes h'.valid h.valid (hbytes ▸ List.prefix_rfl)
  exact hprefix.eq_of_length (Nat.le_antisymm hprefix.length_le hprefix'.length_le)

end ManifestHeld

namespace ManifestLog

theorem empty : ManifestLog roomId Disk.empty [] where
  content := rfl
  valid := nofun
  chain := .nil
  word := by
    rw [manifestBytes_nil]
    decide
  next := rfl

/-- A log is empty or accepted by the check of chains. -/
theorem accepted (h : ManifestLog roomId d records) :
    records = [] ∨ ∃ latest, validateManifestChain records roomId = .ok latest := by
  cases hlast : records.getLast? with
  | none => exact .inl (List.getLast?_eq_none_iff.mp hlast)
  | some latest => exact .inr ⟨latest, validateManifestChain_eq_ok.mpr ⟨h.chain, hlast⟩⟩

/-- The log is read off two places of the disk. -/
theorem congr (h : ManifestLog roomId d records)
    (hread : d'.read (manifestStream roomId).physical = d.read (manifestStream roomId).physical)
    (hlast : d'.last (manifestStream roomId).physical (manifestProducerId roomId) =
      d.last (manifestStream roomId).physical (manifestProducerId roomId)) :
    ManifestLog roomId d' records where
  toManifestHeld := h.toManifestHeld.congr hread
  next := by
    rw [hlast]
    exact h.next

theorem ensure (h : ManifestLog roomId d records) (stream : String) :
    ManifestLog roomId (d.ensure stream) records :=
  h.congr (Disk.read_ensure d stream _) rfl

theorem accept_ne (h : ManifestLog roomId d records) {app : Append}
    (hne : app.stream ≠ (manifestStream roomId).physical) :
    ManifestLog roomId (d.accept app) records :=
  h.congr (Disk.read_accept_ne hne.symm) (Disk.last_accept_ne fun heq => hne heq.1.symm)

end ManifestLog

/-- The append that publishes a record. -/
def manifestAppend (roomId : String) (record : ManifestRecord) : Append :=
  ⟨(manifestStream roomId).physical, ⟨manifestProducerId roomId, 0, record.revision⟩,
    record.encoded⟩

/-- An accepted record that extends the records of a stream becomes its last one. -/
theorem ManifestHeld.accept (h : ManifestHeld roomId d records) (hvalid : record.Valid)
    (hnext : Extends roomId records record)
    (haccepts : d.Accepts (manifestAppend roomId record)) :
    ManifestHeld roomId (d.accept (manifestAppend roomId record)) (records ++ [record]) where
  content := by
    have hread := Disk.read_accept_self d (manifestAppend roomId record)
    rw [manifestBytes_append, manifestBytes_singleton, ← h.content]
    exact hread
  valid := by
    intro r hr
    rcases List.mem_append.mp hr with hr | hr
    · exact h.valid r hr
    · exact List.mem_singleton.mp hr ▸ hvalid
  chain := h.chain.snoc hnext
  word := by
    have hword := haccepts.2
    simp only [manifestAppend, h.content] at hword
    rwa [manifestBytes_append, manifestBytes_singleton, List.length_append]

namespace ManifestLog

/-- The store accepts a record only at the end of the log. -/
theorem revision_of_accepts (h : ManifestLog roomId d records)
    (haccepts : d.Accepts (manifestAppend roomId record)) :
    record.revision.toNat = records.length := by
  obtain ⟨hseq, _⟩ := haccepts
  have hnext := h.next
  simp only [manifestAppend] at hseq
  split at hseq
  · rename_i hlast
    rw [hlast] at hnext
    rw [hseq, hnext]
    rfl
  · rename_i sequence endOffset hlast
    rw [hlast] at hnext
    omega

/-- The store accepts a record that extends the log. -/
theorem accepts (h : ManifestLog roomId d records) (hvalid : record.Valid)
    (hnext : Extends roomId records record)
    (hword : (manifestBytes records).length + 188 < wordSize) :
    d.Accepts (manifestAppend roomId record) := by
  have hrevision := h.chain.extends_revision hnext
  have hsequence := h.next
  refine ⟨?_, ?_⟩
  · simp only [manifestAppend]
    cases hlast : d.last (manifestStream roomId).physical (manifestProducerId roomId) with
    | none =>
      simp only [hlast] at hsequence
      rw [hsequence] at hrevision
      exact UInt64.toNat_inj.mp hrevision
    | some last =>
      simp only [hlast] at hsequence
      show record.revision.toNat = last.1.toNat + 1
      omega
  · simp only [manifestAppend, h.content, hvalid.length_eq]
    exact hword

/-- An accepted record that extends the log becomes its last one. -/
theorem accept (h : ManifestLog roomId d records) (hvalid : record.Valid)
    (hnext : Extends roomId records record)
    (haccepts : d.Accepts (manifestAppend roomId record)) :
    ManifestLog roomId (d.accept (manifestAppend roomId record)) (records ++ [record]) where
  toManifestHeld := h.toManifestHeld.accept hvalid hnext haccepts
  next := by
    have hlast := Disk.last_accept_self d (manifestAppend roomId record)
    have hrevision := h.revision_of_accepts haccepts
    simp only [manifestAppend] at hlast ⊢
    rw [hlast, List.length_append, List.length_singleton]
    dsimp only
    rw [hrevision]

end ManifestLog

/-- A record that was checked against the first records of a log. -/
structure Submitted (roomId : String) (records : List ManifestRecord) (record : ManifestRecord) :
    Prop where
  valid : record.Valid
  le : record.revision.toNat ≤ records.length
  next : Extends roomId (records.take record.revision.toNat) record

/-- A check stays good when the log grows. -/
theorem Submitted.mono (h : Submitted roomId records record) (hgrow : records <+: records') :
    Submitted roomId records' record := by
  obtain ⟨rest, rfl⟩ := hgrow
  refine ⟨h.valid, ?_, ?_⟩
  · rw [List.length_append]
    exact h.le.trans (Nat.le_add_right _ _)
  · rw [List.take_append_of_le_length h.le]
    exact h.next

/-- A record that extends a chain is checked against it. -/
theorem ManifestChain.submitted (h : ManifestChain roomId records) (hvalid : record.Valid)
    (hnext : Extends roomId records record) : Submitted roomId records record := by
  have hrevision := h.extends_revision hnext
  refine ⟨hvalid, hrevision.le, ?_⟩
  rw [hrevision, List.take_length]
  exact hnext

/-- A record was checked against records that the stream of a world starts with. -/
def CheckedAgainst (roomId : String) (record : ManifestRecord) (w : World) : Prop :=
  ∃ records, (∀ r ∈ records, r.Valid) ∧ ManifestChain roomId records ∧
    manifestBytes records <+: w.disk.read (manifestStream roomId).physical ∧
    Extends roomId records record

theorem CheckedAgainst.stable (roomId : String) (record : ManifestRecord) :
    GrowthStable (CheckedAgainst roomId record) := by
  rintro w w' hgrow ⟨records, hvalid, hchain, hbytes, hnext⟩
  exact ⟨records, hvalid, hchain, hbytes.trans (hgrow _).1, hnext⟩

theorem ManifestLog.submitted {w : World} (h : ManifestLog roomId w.disk records)
    (hvalid : record.Valid) (hchecked : CheckedAgainst roomId record w) :
    Submitted roomId records record := by
  obtain ⟨checked, hcheckedValid, hchain, hbytes, hnext⟩ := hchecked
  rw [h.content] at hbytes
  exact (hchain.submitted hvalid hnext).mono
    (isPrefix_of_manifestBytes hcheckedValid h.valid hbytes)

/-- A submission that reaches the store extends the log or does nothing. -/
theorem ManifestLog.append (h : ManifestLog roomId d records)
    (hsubmitted : Submitted roomId records record) :
    (¬ d.Accepts (manifestAppend roomId record) ∧
      d.append (manifestAppend roomId record) = d) ∨
    (d.Accepts (manifestAppend roomId record) ∧
      d.append (manifestAppend roomId record) = d.accept (manifestAppend roomId record) ∧
      ManifestLog roomId (d.accept (manifestAppend roomId record)) (records ++ [record])) := by
  by_cases haccepts : d.Accepts (manifestAppend roomId record)
  · refine .inr ⟨haccepts, Disk.append_of_accepts haccepts, h.accept hsubmitted.valid ?_ haccepts⟩
    have hnext := hsubmitted.next
    rwa [h.revision_of_accepts haccepts, List.take_length] at hnext
  · exact .inl ⟨haccepts, Disk.append_of_not_accepts haccepts⟩

end LoroGateway
