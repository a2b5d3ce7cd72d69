import LoroGateway.Answered
import LoroGateway.ManifestPool
import LoroGateway.TamperEvidence

/-!
# How many records the manifest can hold

`publish_manifest_record` decodes the stream as it was before the append, and
checks the chain of what it will be, but not its length.  So a stream that is
full, with as many records as `decode_manifest_stream` takes, takes one more;
after that it can be neither published to nor loaded.
-/

namespace LoroGateway

open ByteCodec CrashLogic Relation

section

variable [Hashing] {roomId : String} {records : List ManifestRecord} {record : ManifestRecord}

namespace ManifestHeld

variable {d : Disk}

/-- What is accepted is held. -/
theorem of_accepted
    (hdecode : decodeManifestStream (d.read (manifestStream roomId).physical) .default = .ok records)
    (hchain : records = [] ∨ ∃ latest, validateManifestChain records roomId = .ok latest) :
    ManifestHeld roomId d records := by
  obtain ⟨hrecords, hbytes⟩ := decodeManifestStream_bytes hdecode
  rw [decodeManifestStream, Manifest.enforceLimit, check_bind_eq_ok, hbytes] at hdecode
  refine ⟨hbytes, fun r hr => (hrecords r hr).1, ?_, Nat.lt_of_le_of_lt hdecode.1 (by decide)⟩
  rcases hchain with rfl | ⟨latest, hlatest⟩
  · exact .nil
  · exact (validateManifestChain_eq_ok.mp hlatest).1

/-- Records that end in `record` are accepted unless there are too many. -/
theorem accepted_iff (h : ManifestHeld roomId d records) (hlast : records.getLast? = some record) :
    (∃ records', decodeManifestStream (d.read (manifestStream roomId).physical) .default =
        .ok records' ∧ validateManifestChain records' roomId = .ok record) ↔
      records.length ≤ 65536 := by
  rw [h.content]
  constructor
  · rintro ⟨records', hdecode, _⟩
    by_contra hover
    obtain ⟨resource, actual, limit, herr⟩ :=
      decodeManifestStream_of_lt h.valid h.word (Nat.lt_of_not_le hover)
    rw [herr] at hdecode
    cases hdecode
  · intro hfit
    exact ⟨records, decodeManifestStream_of_le h.valid h.word hfit,
      validateManifestChain_eq_ok.mpr ⟨h.chain, hlast⟩⟩

end ManifestHeld

namespace Publication

/-- A call that runs with nobody else at the manifest.  Its own appends may
arrive late. -/
def lonely : Contract World where
  inv _ := True
  rely := ReflTransGen drift
  guar _ _ := True
  rely_refl _ := .refl
  rely_trans := .trans

omit [Hashing] in
theorem drift_grows {w w' : World} (h : ReflTransGen drift w w') : w.disk.Grows w'.disk := by
  induction h with
  | refl => exact Disk.Grows.refl _
  | tail _ hlast ih =>
    obtain ⟨app, _, rfl⟩ := hlast
    exact ih.trans (Disk.grows_append _ _)

omit [Hashing] in
theorem lonely_grounded : Grounded served lonely where
  sub h := h
  grows h := drift_grows h
  guar_refl _ := trivial

omit [Hashing] in
/-- What one delivery keeps, any number of them keep. -/
theorem lonely_stable {assertion : World → Prop}
    (h : ∀ w app, assertion w → app ∈ w.underWay → assertion (w.deliver app)) :
    lonely.Stable assertion := by
  intro w w' hw hrely
  induction hrely with
  | refl => exact hw
  | tail _ hlast ih =>
    obtain ⟨app, hmem, rfl⟩ := hlast
    exact h _ app ih hmem

/-- The manifest holds the records, and no append to it is under way. -/
structure Settled (roomId : String) (records : List ManifestRecord) (w : World) : Prop where
  held : ManifestHeld roomId w.disk records
  silent : ∀ app ∈ w.underWay, app.stream ≠ (manifestStream roomId).physical

theorem Settled.stable : lonely.Stable (Settled roomId records) := by
  refine lonely_stable fun w app hw hmem => ⟨hw.held.congr ?_, hw.silent⟩
  change (w.disk.append app).read _ = _
  by_cases haccepts : w.disk.Accepts app
  · rw [Disk.append_of_accepts haccepts, Disk.read_accept_ne (hw.silent app hmem).symm]
  · rw [Disk.append_of_not_accepts haccepts]

/-- The record extends the records, and it is the only one that may be appended.
The manifest does not hold it yet, or its sequence is used up. -/
structure Appending (roomId : String) (records : List ManifestRecord) (record : ManifestRecord)
    (w : World) : Prop where
  valid : record.Valid
  next : Extends roomId records record
  held : ManifestHeld roomId w.disk records ∨ ManifestHeld roomId w.disk (records ++ [record]) ∧
    ∃ offset, w.disk.last (manifestStream roomId).physical (manifestProducerId roomId) =
      some (record.revision, offset)
  underWay : ∀ app ∈ w.underWay, app.stream = (manifestStream roomId).physical →
    app = manifestAppend roomId record

/-- An append that reaches the store is this one, or it goes elsewhere. -/
theorem Appending.append {w : World} {app : Append} (h : Appending roomId records record w)
    (happ : app.stream = (manifestStream roomId).physical → app = manifestAppend roomId record) :
    ManifestHeld roomId (w.disk.append app) records ∨
      ManifestHeld roomId (w.disk.append app) (records ++ [record]) ∧
        ∃ offset, (w.disk.append app).last (manifestStream roomId).physical
          (manifestProducerId roomId) = some (record.revision, offset) := by
  by_cases haccepts : w.disk.Accepts app
  · rw [Disk.append_of_accepts haccepts]
    by_cases hstream : app.stream = (manifestStream roomId).physical
    · obtain rfl := happ hstream
      rcases h.held with hheld | ⟨_, offset, hlast⟩
      · exact .inr ⟨hheld.accept h.valid h.next haccepts, _, Disk.last_accept_self _ _⟩
      · -- the store has seen the sequence of the record
        have hsequence := haccepts.1
        simp only [manifestAppend, hlast] at hsequence
        omega
    · have hread := Disk.read_accept_ne (d := w.disk) (Ne.symm hstream)
      refine h.held.imp (fun hheld => hheld.congr hread) ?_
      rintro ⟨hheld, offset, hlast⟩
      refine ⟨hheld.congr hread, offset, ?_⟩
      rw [Disk.last_accept_ne fun heq => hstream heq.1.symm, hlast]
  · rw [Disk.append_of_not_accepts haccepts]
    exact h.held

theorem Appending.stable : lonely.Stable (Appending roomId records record) :=
  lonely_stable fun _ app h hmem => { h with held := h.append (h.underWay app hmem) }

/-- A call that appends its record keeps that it is the only one. -/
theorem Appending.keeps : Keeps served lonely (Appending roomId records record)
    (.append (manifestStream roomId).physical ⟨manifestProducerId roomId, 0, record.revision⟩
      record.encoded) := by
  intro w x w' h _ hserve
  refine ⟨⟨trivial, trivial⟩, h.valid, h.next, ?_, fun app hmem hstream => ?_⟩
  · have happend := h.append fun (_ : (manifestAppend roomId record).stream = _) => rfl
    cases served_append hserve with
    | accepted haccepts =>
      have hdisk : w.disk.append (manifestAppend roomId record) = _ :=
        Disk.append_of_accepts haccepts
      rwa [hdisk] at happend
    | duplicate => exact h.held
    | refused => exact h.held
  · exact (served_underWay hserve app hmem).elim (fun hmem => h.underWay app hmem hstream) id

/-- A publication that succeeds alone leaves the manifest with its record last. -/
theorem wp_alone {w : World} {maxAmbiguousRetries : Nat} (hw : Settled roomId records w) :
    wp served lonely (publishManifestRecord roomId record maxAmbiguousRetries).run
      (fun r w' => ∀ outcome, r = .ok outcome →
        (records.getLast? = some record ∧ ManifestHeld roomId w'.disk records) ∨
        (Extends roomId records record ∧ ManifestHeld roomId w'.disk (records ++ [record]))) w := by
  have hduring : lonely.Stable (Appending roomId records record) := Appending.stable
  refine wp_publishManifestRecord_cases lonely_grounded Settled.stable hduring hw
    (fun w hw _ => ⟨records, hw.held⟩) ?_ ?_ (fun _ => Appending.keeps) ?_ ?_ ?_
  · rintro w x w' hw - hserve
    refine ⟨⟨trivial, trivial⟩, ?_⟩
    rcases (served_ensureStream hserve).1 with rfl | rfl
    · exact hw
    · exact ⟨hw.held.congr (Disk.read_ensure _ _ _), hw.silent⟩
  · intro w records' hw hheld hvalid hnext
    obtain rfl := hw.held.unique hheld
    exact ⟨hvalid, hnext, .inl hheld, fun app hmem hstream => absurd hstream (hw.silent app hmem)⟩
  · exact fun _ _ _ _ => nofun
  · intro _ w' records' hw hheld hlast _ _
    obtain rfl := hw.held.unique hheld
    exact .inl ⟨hlast, hheld⟩
  · intro _ w' hw hvalid hends _ _
    refine .inr ⟨hw.next, hw.held.elim (fun hheld => ?_) And.left⟩
    -- the stream is long enough to have the record
    have hindex := (List.getElem?_eq_some_iff.mp (hheld.getElem?_of_endsAt hvalid hends)).1
    rw [hheld.chain.extends_revision hw.next] at hindex
    exact absurd hindex (Nat.lt_irrefl _)

end Publication

/-- A record that extends records is not their last one. -/
theorem Extends.ne_getLast (h : Extends roomId records record) : records.getLast? ≠ some record := by
  intro hlast
  rw [Extends, hlast] at h
  have hrevision : record.revision.toNat = record.revision.toNat + 1 := h.revision
  omega

/-- What a publication that succeeds leaves. -/
theorem publish_held {w w' : World} {maxAmbiguousRetries : Nat} {outcome : WriteOutcome}
    (hheld : ManifestHeld roomId w.disk records)
    (hsilent : ∀ app ∈ w.underWay, app.stream ≠ (manifestStream roomId).physical)
    (hrun : Runs served (ReflTransGen Publication.drift)
      (publishManifestRecord roomId record maxAmbiguousRetries).run w (.ok outcome) w') :
    (records.getLast? = some record ∧ ManifestHeld roomId w'.disk records) ∨
      (Extends roomId records record ∧ ManifestHeld roomId w'.disk (records ++ [record])) :=
  (hrun.sound (c := Publication.lonely) (fun _ _ _ _ => trivial) trivial
    (Publication.wp_alone ⟨hheld, hsilent⟩)).2 outcome rfl

/-- A publication that succeeds leaves an accepted manifest with its record last
exactly when the record was the last one already or the manifest was not full. -/
theorem publish_accepted_iff {w w' : World} {maxAmbiguousRetries : Nat} {outcome : WriteOutcome}
    (hdecode : decodeManifestStream (w.disk.read (manifestStream roomId).physical) .default =
      .ok records)
    (hchain : records = [] ∨ ∃ latest, validateManifestChain records roomId = .ok latest)
    (hsilent : ∀ app ∈ w.underWay, app.stream ≠ (manifestStream roomId).physical)
    (hrun : Runs served (ReflTransGen Publication.drift)
      (publishManifestRecord roomId record maxAmbiguousRetries).run w (.ok outcome) w') :
    (∃ records', decodeManifestStream (w'.disk.read (manifestStream roomId).physical) .default =
        .ok records' ∧ validateManifestChain records' roomId = .ok record) ↔
      records.getLast? = some record ∨ records.length < 65536 := by
  have hheld := ManifestHeld.of_accepted hdecode hchain
  have hcount : records.length ≤ 65536 := by
    by_contra hover
    obtain ⟨resource, actual, limit, herr⟩ :=
      decodeManifestStream_of_lt hheld.valid hheld.word (Nat.lt_of_not_le hover)
    rw [hheld.content, herr] at hdecode
    cases hdecode
  rcases publish_held hheld hsilent hrun with ⟨hlast, hheld'⟩ | ⟨hnext, hheld'⟩
  · rw [hheld'.accepted_iff hlast]
    exact ⟨fun _ => .inl hlast, fun _ => hcount⟩
  · rw [hheld'.accepted_iff List.getLast?_concat, List.length_append, List.length_singleton]
    exact ⟨fun hfit => .inr hfit, fun h => h.resolve_left hnext.ne_getLast⟩

end

open Sample

/-- The record that comes after so many records of the sample room. -/
def sampleNext (count : Nat) : ManifestRecord :=
  sampleRecord count (((sampleRecords count).getLast?.map ManifestRecord.digest).getD genesisDigest)

theorem sampleRecords_succ (count : Nat) :
    sampleRecords (count + 1) = sampleRecords count ++ [sampleNext count] := rfl

theorem length_sampleRecords (count : Nat) : (sampleRecords count).length = count := by
  induction count with
  | zero => rfl
  | succ count ih => rw [sampleRecords_succ, List.length_append, ih, List.length_singleton]

/-- The sample hash shows the end of its message, which is not zero here. -/
theorem sampleRecord_digest_ne {revision : Nat} (h : revision + 1 < wordSize) (previous : ByteArr 32) :
    (sampleRecord revision previous).digest ≠ genesisDigest := by
  intro hzero
  have hhash : ∀ (front : Bytes) (word : UInt64),
      (sampleHashing.sha256 (front ++ be64 word)).val.drop 24 = be64 word := by
    intro front word
    change ((List.replicate 32 0 ++ (front ++ be64 word)).drop (front ++ be64 word).length).drop 24 = _
    rw [List.drop_drop, ← List.append_assoc, List.drop_left']
    simp only [List.length_append, List.length_replicate, length_be64]
    omega
  have hdrop : (sampleRecord revision previous).digest.val.drop 24 =
      be64 (UInt64.ofNat (revision + 1)) := hhash _ _
  rw [hzero] at hdrop
  have hword : UInt64.ofNat (revision + 1) = 0 := by
    rw [← ofBE_be64 (UInt64.ofNat (revision + 1)), ← hdrop]
    decide
  have hnat := UInt64.toNat_ofNat_of_lt' h
  rw [hword] at hnat
  cases hnat

theorem sampleRecord_valid {revision : Nat} {previous : ByteArr 32} (h : revision + 1 < wordSize)
    (hprevious : revision = 0 ↔ previous = genesisDigest) :
    (sampleRecord revision previous).Valid := by
  have hrevision : (UInt64.ofNat revision).toNat = revision :=
    UInt64.toNat_ofNat_of_lt' (Nat.lt_of_succ_lt h)
  have hzero : UInt64.ofNat revision = 0 ↔ revision = 0 := by
    rw [← UInt64.toNat_inj, hrevision]
    rfl
  have hpos : 0 < UInt64.ofNat revision ↔ revision ≠ 0 := by
    rw [UInt64.lt_iff_toNat_lt, hrevision]
    exact Nat.pos_iff_ne_zero
  have hfields : (sampleRecord revision previous).validateFields = .ok () := by
    rw [ManifestRecord.validateFields]
    have hend : (sampleRecord revision previous).checkpointStreamEndOffset ≠ 0 :=
      (by decide : (1 : UInt64) ≠ 0)
    refine bind_eq_ok.mpr ⟨(), ?_, bind_eq_ok.mpr ⟨(), ?_, check_of hend⟩⟩
    · refine check_bind_eq_ok.mpr ⟨?_, check_of ?_⟩
      · rintro ⟨hrev, hne⟩
        exact hne (hprevious.mp (hzero.mp hrev))
      · rintro ⟨hrev, hgenesis⟩
        exact hpos.mp hrev (hprevious.mpr hgenesis)
    · refine okOr_bind_eq_ok.mpr ⟨UInt64.ofNat (revision + 1), ?_, check_of rfl⟩
      refine checkedAddU64_eq_some.mpr ?_
      rw [UInt64.toNat_ofNat_of_lt' h]
      change _ = (UInt64.ofNat revision).toNat + 1
      rw [hrevision]
  have hlayout : ManifestRecord.Layout (sampleRecord revision previous) .default _ (188 : UInt64) :=
    { limit := by decide, fields := hfields, digest_eq := rfl, total_eq := rfl, bytes_eq := rfl }
  exact ⟨_, hlayout.encode⟩

/-- The sample records are a chain, and the next one extends it. -/
theorem sampleNext_extends (count : Nat) (h : count + 1 < wordSize) :
    (sampleNext count).Valid ∧ Extends "r" (sampleRecords count) (sampleNext count) := by
  cases count with
  | zero => exact ⟨sampleRecord_valid h (by decide), ⟨rfl, rfl, rfl⟩⟩
  | succ count =>
    have hlast : (sampleRecords (count + 1)).getLast? = some (sampleNext count) :=
      List.getLast?_concat
    have hnext : sampleNext (count + 1) = sampleRecord (count + 1) (sampleNext count).digest := by
      rw [sampleNext, hlast]
      rfl
    have hword : ∀ n, n ≤ count + 2 → (UInt64.ofNat n).toNat = n :=
      fun n hn => UInt64.toNat_ofNat_of_lt' (by change n < wordSize; omega)
    rw [hnext]
    refine ⟨sampleRecord_valid h ?_, ?_⟩
    · exact ⟨nofun, fun hgenesis => absurd hgenesis (sampleRecord_digest_ne (by omega) _)⟩
    · rw [Extends, hlast]
      refine ⟨rfl, ?_, rfl, ?_, ?_⟩
      · change (UInt64.ofNat (count + 1)).toNat = (UInt64.ofNat count).toNat + 1
        rw [hword _ (by omega), hword _ (by omega)]
      · change UInt64.ofNat count < UInt64.ofNat (count + 1)
        rw [UInt64.lt_iff_toNat_lt, hword _ (by omega), hword _ (by omega)]
        exact Nat.lt_succ_self _
      · change UInt64.ofNat (count + 1) < UInt64.ofNat (count + 1 + 1)
        rw [UInt64.lt_iff_toNat_lt, hword _ (by omega), hword _ (by omega)]
        exact Nat.lt_succ_self _

theorem sampleRecords_chain (count : Nat) (h : count < wordSize) :
    (∀ record ∈ sampleRecords count, record.Valid) ∧ ManifestChain "r" (sampleRecords count) := by
  induction count with
  | zero => exact ⟨nofun, .nil⟩
  | succ count ih =>
    obtain ⟨hvalid, hchain⟩ := ih (by omega)
    obtain ⟨hnextValid, hnext⟩ := sampleNext_extends count h
    rw [sampleRecords_succ]
    refine ⟨fun record hmem => ?_, hchain.snoc hnext⟩
    rcases List.mem_append.mp hmem with hmem | hmem
    · exact hvalid record hmem
    · exact List.mem_singleton.mp hmem ▸ hnextValid

/-- The store of the sample room after so many rotations, but for the checkpoints
and deltas. -/
def sampleWorld (count : Nat) : World :=
  { World.empty with disk :=
    { content := fun s =>
        if s = (manifestStream "r").physical then some (manifestBytes (sampleRecords count)) else none
      last := fun s id =>
        if count ≠ 0 ∧ s = (manifestStream "r").physical ∧ id = manifestProducerId "r" then
          some (UInt64.ofNat (count - 1), 0)
        else none } }

theorem sampleWorld_log (count : Nat) (h : 188 * count < wordSize) :
    ManifestLog "r" (sampleWorld count).disk (sampleRecords count) := by
  obtain ⟨hvalid, hchain⟩ := sampleRecords_chain count (by omega)
  have hlength := length_manifestBytes hvalid
  rw [length_sampleRecords] at hlength
  refine { content := ?_, valid := hvalid, chain := hchain, word := by omega, next := ?_ }
  · simp [sampleWorld, Disk.read]
  · simp only [sampleWorld, and_self, and_true]
    by_cases hzero : count = 0
    · rw [if_neg (by omega)]
      rw [hzero]
      rfl
    · rw [if_pos (by omega), length_sampleRecords]
      dsimp only
      rw [UInt64.toNat_ofNat_of_lt' (by change count - 1 < wordSize; omega)]
      omega

/-- The next publication in the sample room succeeds, also when the manifest is
full. -/
theorem sampleWorld_publish {count : Nat} (h : count ≤ 65536) :
    ∃ outcome w', Runs served (ReflTransGen Publication.drift)
      (publishManifestRecord "r" (sampleNext count) 0).run (sampleWorld count) (.ok outcome) w' := by
  have hword : wordSize = 18446744073709551616 := rfl
  obtain ⟨hvalid, hnext⟩ := sampleNext_extends count (by omega)
  have hlog := sampleWorld_log count (by omega)
  have hcount : (sampleRecords count).length ≤ 65536 := by
    rw [length_sampleRecords]
    exact h
  have hpublish : wp answered (.alone fun _ => True)
      (publishManifestRecord "r" (sampleNext count) 0).run
      (fun r _ => ∃ outcome, r = .ok outcome) (sampleWorld count) :=
    wp_publishManifestRecord_answered hlog hcount hvalid hnext fun outcome => ⟨outcome, rfl⟩
  obtain ⟨value, w', hrun, outcome, rfl⟩ := exists_run_of_answered hpublish
  exact ⟨outcome, w', hrun.mono served_of_answered fun h => h ▸ .refl⟩

theorem sampleWorld_silent (count : Nat) :
    ∀ app ∈ (sampleWorld count).underWay, app.stream ≠ (manifestStream "r").physical := by
  intro app hmem
  cases hmem

/-- A publication to a manifest with two records leaves an accepted manifest. -/
theorem publish_accepted_iff_third :
    ∃ (outcome : WriteOutcome) (w' : World) (records : List ManifestRecord),
      Runs served (ReflTransGen Publication.drift)
        (publishManifestRecord "r" (sampleNext 2) 0).run (sampleWorld 2) (.ok outcome) w' ∧
      decodeManifestStream (w'.disk.read (manifestStream "r").physical) .default = .ok records ∧
      validateManifestChain records "r" = .ok (sampleNext 2) := by
  obtain ⟨outcome, w', hrun⟩ := sampleWorld_publish (by decide : 2 ≤ 65536)
  have hdecode : decodeManifestStream ((sampleWorld 2).disk.read (manifestStream "r").physical)
      .default = .ok (sampleRecords 2) := by
    decide +kernel
  have hchain : validateManifestChain (sampleRecords 2) "r" = .ok (sampleRecords 2)[1] := by
    decide +kernel
  obtain ⟨records, hdecode', hchain'⟩ :=
    (publish_accepted_iff hdecode (.inr ⟨_, hchain⟩) (sampleWorld_silent 2) hrun).mpr
      (.inr (by decide))
  exact ⟨outcome, w', records, hrun, hdecode', hchain'⟩

theorem sampleWorld_full {count : Nat} (h : count = 65536) :
    (∃ latest, decodeManifestStream ((sampleWorld count).disk.read (manifestStream "r").physical)
        .default = .ok (sampleRecords count) ∧
      validateManifestChain (sampleRecords count) "r" = .ok latest) ∧
    ∃ (outcome : WriteOutcome) (w' : World),
      Runs served (ReflTransGen Publication.drift)
        (publishManifestRecord "r" (sampleNext count) 0).run (sampleWorld count) (.ok outcome) w' ∧
      ∀ records, decodeManifestStream (w'.disk.read (manifestStream "r").physical) .default ≠
        .ok records := by
  have hword : wordSize = 18446744073709551616 := rfl
  have hheld := (sampleWorld_log count (by omega)).toManifestHeld
  have hlength := length_sampleRecords count
  obtain ⟨hvalid, hnext⟩ := sampleNext_extends count (by omega)
  constructor
  · cases hlast : (sampleRecords count).getLast? with
    | none =>
      rw [List.getLast?_eq_none_iff.mp hlast, List.length_nil] at hlength
      omega
    | some latest =>
      refine ⟨latest, ?_, validateManifestChain_eq_ok.mpr ⟨hheld.chain, hlast⟩⟩
      rw [hheld.content]
      exact decodeManifestStream_of_le hheld.valid hheld.word (by omega)
  · obtain ⟨outcome, w', hrun⟩ := sampleWorld_publish h.le
    refine ⟨outcome, w', hrun, fun records hdecode => ?_⟩
    rcases publish_held hheld (sampleWorld_silent count) hrun with ⟨hlast, _⟩ | ⟨_, hheld'⟩
    · exact hnext.ne_getLast hlast
    · obtain ⟨resource, actual, limit, herr⟩ :=
        decodeManifestStream_of_lt hheld'.valid hheld'.word (by
          rw [List.length_append, List.length_singleton]
          omega)
      rw [hheld'.content, herr] at hdecode
      cases hdecode

/-- A publication to a manifest with 65536 records succeeds, and leaves a stream
that is not accepted. -/
theorem publish_overfills_manifest :
    (∃ latest, decodeManifestStream ((sampleWorld 65536).disk.read (manifestStream "r").physical)
        .default = .ok (sampleRecords 65536) ∧
      validateManifestChain (sampleRecords 65536) "r" = .ok latest) ∧
    ∃ (outcome : WriteOutcome) (w' : World),
      Runs served (ReflTransGen Publication.drift)
        (publishManifestRecord "r" (sampleNext 65536) 0).run (sampleWorld 65536) (.ok outcome) w' ∧
      ∀ records, decodeManifestStream (w'.disk.read (manifestStream "r").physical) .default ≠
        .ok records :=
  sampleWorld_full rfl

end LoroGateway
