import LoroGateway.ManifestCodec
import LoroGateway.Sample

/-!
# The manifest is tamper evident

A record that has been decoded encodes to the bytes it came from, so a manifest
stream that is accepted is the concatenation of its records.  The digest of a
record covers all its other fields, the digest of the record before it among
them; where the hash has no collision, the digest of the head fixes the stream.
No hash of infinitely many inputs is free of collisions, so the results name the
inputs on which it has to be.
-/

namespace LoroGateway

open ByteCodec

section

namespace ManifestRecord

open LoroGateway.Manifest

variable [Hashing] {record other : ManifestRecord} {limits : ManifestLimits} {input bytes : Bytes}

/-! ## Decoding and encoding -/

/-- The encoder writes a record that is laid out. -/
theorem Layout.encode {total : UInt64} (h : Layout record limits bytes total) :
    record.encodeWithLimits limits = .ok bytes := by
  rw [encodeWithLimits]
  dsimp only [enforceLimit]
  refine check_bind_eq_ok.mpr ⟨h.limit, ?_⟩
  refine bind_eq_ok.mpr ⟨(), h.fields, ?_⟩
  refine okOr_bind_eq_ok.mpr ⟨total, u64OfUsize_eq_some.mpr h.total_eq, ?_⟩
  refine check_bind_eq_ok.mpr ⟨h.digest_eq, ?_⟩
  rw [h.bytes_eq]
  simp only [body, List.append_assoc]
  rfl

/-- The default limits admit every record. -/
theorem Layout.default {total : UInt64} (h : Layout record limits bytes total) :
    Layout record .default bytes total :=
  { h with limit := by decide }

/-- The decoder finds a laid out record at the start of its input. -/
theorem decodeOne_layout {consumed : Nat} (h : decodeOne input limits = .ok (record, consumed)) :
    consumed ≤ input.length ∧ ∃ total, Layout record limits (input.take consumed) total := by
  rw [decodeOne] at h
  dsimp only [enforceLimit] at h
  obtain ⟨hlimit, h⟩ := check_bind_eq_ok.mp h
  obtain ⟨_, h⟩ := check_bind_eq_ok.mp h
  obtain ⟨hmagic, h⟩ := check_bind_eq_ok.mp h
  obtain ⟨⟨found, c₁⟩, hfound, h⟩ := bind_eq_ok.mp h
  obtain ⟨rfl, h⟩ := check_bind_eq_ok.mp h
  obtain ⟨⟨flags, c₂⟩, hflags, h⟩ := bind_eq_ok.mp h
  obtain ⟨rfl, h⟩ := check_bind_eq_ok.mp h
  obtain ⟨⟨total, c₃⟩, htotal, h⟩ := bind_eq_ok.mp h
  dsimp only at h
  obtain ⟨hfixed, h⟩ := check_bind_eq_ok.mp h
  obtain ⟨_, h⟩ := check_bind_eq_ok.mp h
  obtain ⟨hfit, h⟩ := check_bind_eq_ok.mp h
  have hlarge : total.toNat = 188 := hfixed
  obtain ⟨rfl, _, hd4⟩ := readU16At_eq_ok hfound
  obtain ⟨rfl, _, hd6⟩ := readU16At_eq_ok hflags
  obtain ⟨rfl, _, hd8⟩ := readU64At_eq_ok htotal
  have hd4 := drop_take_of_drop total.toNat hd4 (by rw [length_be16]) (by omega)
  have hd6 := drop_take_of_drop total.toNat hd6 (by rw [length_be16]) (by omega)
  have hd8 := drop_take_of_drop total.toNat hd8 (by rw [length_be64]) (by omega)
  have hd0 : input.take total.toNat = magic ++ (input.take total.toNat).drop 4 := by
    have htake : (input.take total.toNat).take 4 = magic := by
      rw [List.take_take, Nat.min_eq_left (by omega), hmagic]
    rw [← htake, List.take_append_drop]
  have hlen : (input.take total.toNat).length = total.toNat := by
    rw [List.length_take]
    omega
  generalize hx : input.take total.toNat = x at *
  obtain ⟨trailerStart, htrailerStart, h⟩ := okOr_bind_eq_ok.mp h
  obtain ⟨_, rfl⟩ := checkedSub_eq_some.mp htrailerStart
  obtain ⟨⟨trailer, c₄⟩, htrailer, h⟩ := bind_eq_ok.mp h
  dsimp only at h
  obtain ⟨rfl, h⟩ := check_bind_eq_ok.mp h
  obtain ⟨crcStart, hcrcStart, h⟩ := okOr_bind_eq_ok.mp h
  obtain ⟨_, rfl⟩ := checkedSub_eq_some.mp hcrcStart
  obtain ⟨⟨crc, c₅⟩, hcrc, h⟩ := bind_eq_ok.mp h
  dsimp only at h
  obtain ⟨hchecksum, h⟩ := check_bind_eq_ok.mp h
  obtain ⟨⟨roomBytes, c₆⟩, hroom, h⟩ := bind_eq_ok.mp h
  dsimp only at h
  obtain ⟨⟨revision, c₇⟩, hrevision, h⟩ := bind_eq_ok.mp h
  dsimp only at h
  obtain ⟨⟨previousBytes, c₈⟩, hprevious, h⟩ := bind_eq_ok.mp h
  dsimp only at h
  obtain ⟨⟨checkpointGeneration, c₉⟩, hcheckpoint, h⟩ := bind_eq_ok.mp h
  dsimp only at h
  obtain ⟨⟨endOffset, c₁₀⟩, hendOffset, h⟩ := bind_eq_ok.mp h
  dsimp only at h
  obtain ⟨⟨checkpointBytes, c₁₁⟩, hcheckpointDigest, h⟩ := bind_eq_ok.mp h
  dsimp only at h
  obtain ⟨⟨activeGeneration, c₁₂⟩, hactive, h⟩ := bind_eq_ok.mp h
  dsimp only at h
  obtain ⟨⟨digestBytes, c₁₃⟩, hdigestBytes, h⟩ := bind_eq_ok.mp h
  dsimp only at h
  obtain ⟨hend, h⟩ := check_bind_eq_ok.mp h
  obtain ⟨⟨⟩, hfields, h⟩ := bind_eq_ok.mp h
  obtain ⟨hdigest, h⟩ := check_bind_eq_ok.mp h
  obtain ⟨rfl, rfl⟩ := Prod.mk.inj (Except.ok.inj h)
  obtain ⟨rfl, _, hroomLen, hdRoom⟩ := takeAt_eq_ok hroom
  obtain ⟨rfl, _, hdRevision⟩ := readU64At_eq_ok hrevision
  obtain ⟨rfl, _, hpreviousLen, hdPrevious⟩ := takeAt_eq_ok hprevious
  obtain ⟨rfl, _, hdCheckpoint⟩ := readU64At_eq_ok hcheckpoint
  obtain ⟨rfl, _, hdEnd⟩ := readU64At_eq_ok hendOffset
  obtain ⟨rfl, _, hcheckpointLen, hdCheckpointDigest⟩ := takeAt_eq_ok hcheckpointDigest
  obtain ⟨rfl, _, hdActive⟩ := readU64At_eq_ok hactive
  obtain ⟨rfl, _, hdigestLen, hdDigest⟩ := takeAt_eq_ok hdigestBytes
  obtain ⟨hc₅, _, hdCrc⟩ := readU32At_eq_ok hcrc
  obtain ⟨hc₄, _, hdTrailer⟩ := readU64At_eq_ok htrailer
  refine ⟨hfit, trailer, ?_⟩
  generalize hrecord : (⟨ByteArr.ofBytes 32 roomBytes, revision, ByteArr.ofBytes 32 previousBytes,
    checkpointGeneration, endOffset, ByteArr.ofBytes 32 checkpointBytes, activeGeneration,
    ByteArr.ofBytes 32 digestBytes⟩ : ManifestRecord) = record at hfields hdigest ⊢
  have hall : x = body record trailer ++ x.drop (trailer.toNat - 12) := by
    rw [← hrecord, body]
    dsimp only
    rw [ByteArr.val_ofBytes hroomLen, ByteArr.val_ofBytes hpreviousLen,
      ByteArr.val_ofBytes hcheckpointLen, ByteArr.val_ofBytes hdigestLen]
    simp only [List.append_assoc]
    conv_lhs => rw [hd0, hd4, hd6, hd8, hdRoom, hdRevision, hdPrevious, hdCheckpoint, hdEnd,
      hdCheckpointDigest, hdActive, hdDigest]
    rw [hend]
  have hbody : x.take (trailer.toNat - 12) = body record trailer := by
    have hbodyLen := congrArg List.length hall
    rw [List.length_append, List.length_drop] at hbodyLen
    rw [hall]
    exact List.take_left' (by omega)
  have hsuffix : x.drop (trailer.toNat - 12) = be32 crc ++ be64 trailer := by
    have hstart : trailer.toNat - 12 + 4 = trailer.toNat - 8 := by omega
    rw [hdCrc, hc₅, hstart, hdTrailer, hc₄, Nat.sub_add_cancel (by omega), ← hlen, List.drop_length,
      List.append_nil]
  exact ⟨hlimit, hfields, by rw [← hdigest, ← hrecord], hfixed,
    by rw [hx, ← hbody, hchecksum, ← hsuffix, List.take_append_drop]⟩

/-- A record that has been decoded is valid, and its encoding is what was consumed. -/
theorem decodeOne_eq_ok {consumed : Nat} (h : decodeOne input limits = .ok (record, consumed)) :
    record.Valid ∧ record.encodeWithLimits limits = .ok record.encoded ∧
      record.encoded = input.take consumed := by
  obtain ⟨_, total, hlayout⟩ := decodeOne_layout h
  have hbytes := encoded_eq hlayout.default.encode
  exact ⟨⟨_, hlayout.default.encode⟩, hbytes.symm ▸ hlayout.encode, hbytes⟩

/-! ## What a digest covers -/

/-- The bytes whose hash is the digest of a record. -/
def digestInput (record : ManifestRecord) : Bytes :=
  manifestDigestInput record.roomHash record.revision record.previousRecordDigest
    record.checkpointGeneration record.checkpointStreamEndOffset record.checkpointRecordDigest
    record.activeDeltaGeneration

omit [Hashing] in
/-- The digest input shows all fields but the digest. -/
theorem eq_of_digestInput (h : record.digestInput = other.digestInput)
    (hdigest : record.digest = other.digest) : record = other := by
  have hword : ∀ {a b : UInt64}, be64 a = be64 b → a = b := by
    intro a b hab
    rw [← ofBE_be64 a, hab, ofBE_be64]
  have hlengths : ∀ a b : ByteArr 32, a.val.length = b.val.length := by
    intro a b
    rw [a.property, b.property]
  have hwords : ∀ a b : UInt64, (be64 a).length = (be64 b).length := by
    intro a b
    rw [length_be64, length_be64]
  rw [digestInput, digestInput, manifestDigestInput, manifestDigestInput] at h
  obtain ⟨h, hactive⟩ := List.append_inj' h (hwords _ _)
  obtain ⟨h, hcheckpointDigest⟩ := List.append_inj' h (hlengths _ _)
  obtain ⟨h, hend⟩ := List.append_inj' h (hwords _ _)
  obtain ⟨h, hcheckpoint⟩ := List.append_inj' h (hwords _ _)
  obtain ⟨h, hprevious⟩ := List.append_inj' h (hlengths _ _)
  obtain ⟨h, hrevision⟩ := List.append_inj' h (hwords _ _)
  obtain ⟨_, hroom⟩ := List.append_inj' h (hlengths _ _)
  obtain ⟨_, _, _, _, _, _, _, _⟩ := record
  obtain ⟨_, _, _, _, _, _, _, _⟩ := other
  dsimp only at *
  rw [Subtype.ext hroom, hword hrevision, Subtype.ext hprevious, hword hcheckpoint, hword hend,
    Subtype.ext hcheckpointDigest, hword hactive, hdigest]

/-- A record verifies one checkpoint, where the hash has no collision. -/
theorem verifiesCheckpointBytes_inj {left right : Bytes}
    (hinj : Set.InjOn Hashing.sha256
      {checkpointRecordDigestInput left, checkpointRecordDigestInput right})
    (hleft : record.verifiesCheckpointBytes left) (hright : record.verifiesCheckpointBytes right) :
    left = right := by
  have hlength : lengthWord left.length = lengthWord right.length := hleft.1.symm.trans hright.1
  have hinput : checkpointRecordDigestInput left = checkpointRecordDigestInput right :=
    hinj (.inl rfl) (.inr rfl) (hleft.2.symm.trans hright.2)
  rw [checkpointRecordDigestInput, checkpointRecordDigestInput, hlength] at hinput
  exact List.append_cancel_left hinput

end ManifestRecord

/-! ## Streams -/

section Stream

variable [Hashing] {limits : ManifestLimits} {records : List ManifestRecord} {input : Bytes}

theorem decodeManifestRecords_eq_ok {fuel count : Nat}
    (h : decodeManifestRecords limits fuel input count = .ok records) :
    (∀ record ∈ records, record.Valid ∧
      record.encodeWithLimits limits = .ok record.encoded) ∧ input = manifestBytes records := by
  induction fuel generalizing input count records with
  | zero => cases h
  | succ fuel ih =>
    rw [decodeManifestRecords] at h
    split_ifs at h with hempty
    · cases h
      exact ⟨List.forall_mem_nil _, hempty⟩
    · rw [Manifest.enforceLimit, check_bind_eq_ok] at h
      obtain ⟨⟨record, consumed⟩, hone, h⟩ := bind_eq_ok.mp h.2
      obtain ⟨_, h⟩ := check_bind_eq_ok.mp h
      obtain ⟨rest, hrest, h⟩ := bind_eq_ok.mp h
      cases h
      obtain ⟨hvalid, hencode, hbytes⟩ := ManifestRecord.decodeOne_eq_ok hone
      obtain ⟨hvalids, hdrop⟩ := ih hrest
      refine ⟨List.forall_mem_cons.mpr ⟨⟨hvalid, hencode⟩, hvalids⟩, ?_⟩
      rw [manifestBytes_cons, hbytes, ← hdrop, List.take_append_drop]

/-- A manifest stream that decodes is the concatenation of its records. -/
theorem decodeManifestStream_bytes (h : decodeManifestStream input limits = .ok records) :
    (∀ record ∈ records, record.Valid ∧
      record.encodeWithLimits limits = .ok record.encoded) ∧ input = manifestBytes records := by
  rw [decodeManifestStream, Manifest.enforceLimit, check_bind_eq_ok] at h
  exact decodeManifestRecords_eq_ok h.2

end Stream

/-! ## Chains -/

section Chain

variable [Hashing] {roomId : String} {records records' : List ManifestRecord}
  {record next : ManifestRecord}

/-- The link between two neighbours of a chain. -/
theorem ManifestChain.follows (h : ManifestChain roomId records) {index : Nat}
    (hrecord : records[index]? = some record) (hnext : records[index + 1]? = some next) :
    Follows roomId record next := by
  induction h with
  | nil => cases hrecord
  | @snoc records last _ hextends ih =>
    rcases Nat.lt_trichotomy (index + 1) records.length with hlt | heq | hgt
    · rw [List.getElem?_append_left hlt] at hnext
      rw [List.getElem?_append_left (by omega)] at hrecord
      exact ih hrecord hnext
    · rw [heq, List.getElem?_concat_length] at hnext
      rw [List.getElem?_append_left (by omega)] at hrecord
      cases hnext
      have hlast : records.getLast? = some record := by
        rw [List.getLast?_eq_getElem?, ← heq]
        exact hrecord
      rw [Extends, hlast] at hextends
      exact hextends
    · rw [List.getElem?_eq_none (by rw [List.length_append, List.length_singleton]; omega)] at hnext
      cases hnext

/-- The record that starts a chain. -/
theorem ManifestChain.starts (h : ManifestChain roomId records)
    (hrecord : records[0]? = some record) : Starts roomId record := by
  induction h with
  | nil => cases hrecord
  | @snoc records last _ hextends ih =>
    cases records with
    | nil =>
      cases hrecord
      exact hextends
    | cons first rest => exact ih hrecord

/-- Generations grow along a chain. -/
theorem ManifestChain.pairwise (h : ManifestChain roomId records) :
    records.Pairwise fun earlier later =>
      earlier.checkpointGeneration < later.checkpointGeneration ∧
        earlier.activeDeltaGeneration < later.activeDeltaGeneration := by
  induction h with
  | nil => exact .nil
  | @snoc records last _ hextends ih =>
    refine List.pairwise_append.mpr ⟨ih, List.pairwise_singleton _ _, ?_⟩
    intro earlier hearlier later hlater
    obtain rfl := List.mem_singleton.mp hlater
    rw [Extends] at hextends
    split at hextends
    · rename_i hnone
      rw [List.getLast?_eq_none_iff.mp hnone] at hearlier
      cases hearlier
    · rename_i previous hprevious
      obtain ⟨front, rfl⟩ := List.getLast?_eq_some_iff.mp hprevious
      rcases List.mem_append.mp hearlier with hfront | hlast
      · have hlt := (List.pairwise_append.mp ih).2.2 earlier hfront previous
          (List.mem_singleton_self _)
        exact ⟨UInt64.lt_trans hlt.1 hextends.checkpoint_lt,
          UInt64.lt_trans hlt.2 hextends.active_lt⟩
      · obtain rfl := List.mem_singleton.mp hlast
        exact ⟨hextends.checkpoint_lt, hextends.active_lt⟩

/-- A valid record names the generation after its checkpoint as active. -/
theorem ManifestRecord.Valid.active_eq (h : record.Valid) :
    record.activeDeltaGeneration.toNat = record.checkpointGeneration.toNat + 1 := by
  obtain ⟨_, hlayout⟩ := ManifestRecord.encode_layout h.encode_eq
  have hfields := hlayout.fields
  rw [ManifestRecord.validateFields] at hfields
  obtain ⟨⟨⟩, _, hfields⟩ := bind_eq_ok.mp hfields
  obtain ⟨⟨⟩, hpair, _⟩ := bind_eq_ok.mp hfields
  rw [Manifest.validateGenerationPair, okOr_bind_eq_ok] at hpair
  obtain ⟨expected, hexpected, hpair⟩ := hpair
  by_cases hactive : record.activeDeltaGeneration = expected
  · rw [hactive, checkedAddU64_eq_some.mp hexpected]
    rfl
  · rw [check_of_not hactive] at hpair
    cases hpair

theorem ManifestRecord.Valid.digest_eq (h : record.Valid) :
    record.digest = Hashing.sha256 record.digestInput := by
  obtain ⟨_, hlayout⟩ := ManifestRecord.encode_layout h.encode_eq
  exact hlayout.digest_eq

/-- The digests that the records of a list stand for have no collision. -/
def CollisionFree (records : List ManifestRecord) : Prop :=
  Set.InjOn Hashing.sha256 {input | ∃ record ∈ records, input = record.digestInput}

/-- The head of a chain fixes the chain, going back record by record. -/
theorem ManifestChain.eq_of_digest {head head' : ManifestRecord}
    (hinj : CollisionFree (records ++ records')) (h : ManifestChain roomId records)
    (h' : ManifestChain roomId records') (hvalid : ∀ record ∈ records, record.Valid)
    (hvalid' : ∀ record ∈ records', record.Valid) (hhead : records.getLast? = some head)
    (hhead' : records'.getLast? = some head') (hdigest : head.digest = head'.digest) :
    records = records' := by
  induction h generalizing records' head head' with
  | nil => cases hhead
  | @snoc front last hfront hextends ih =>
    rw [List.getLast?_concat] at hhead
    obtain rfl := Option.some.inj hhead
    cases h' with
    | nil => cases hhead'
    | @snoc front' last' hfront' hextends' =>
      rw [List.getLast?_concat] at hhead'
      obtain rfl := Option.some.inj hhead'
      have hlast := hvalid last (List.mem_append_right _ (List.mem_singleton_self _))
      have hlast' := hvalid' last' (List.mem_append_right _ (List.mem_singleton_self _))
      have hinput : last.digestInput = last'.digestInput := by
        refine hinj ⟨last, ?_, rfl⟩ ⟨last', ?_, rfl⟩ ?_
        · simp
        · simp
        · rw [← hlast.digest_eq, ← hlast'.digest_eq, hdigest]
      obtain rfl := ManifestRecord.eq_of_digestInput hinput hdigest
      -- the revision tells how long both chains are
      have hlength : front.length = front'.length := by
        rw [← hfront.extends_revision hextends, ← hfront'.extends_revision hextends']
      congr 1
      cases hprevious : front.getLast? with
      | none =>
        rw [List.getLast?_eq_none_iff.mp hprevious] at hlength ⊢
        exact (List.length_eq_zero_iff.mp hlength.symm).symm
      | some previous =>
        cases hprevious' : front'.getLast? with
        | none =>
          rw [List.getLast?_eq_none_iff.mp hprevious'] at hlength
          rw [List.length_eq_zero_iff.mp hlength] at hprevious
          cases hprevious
        | some previous' =>
          rw [Extends, hprevious] at hextends
          rw [Extends, hprevious'] at hextends'
          refine ih ?_ hfront' (fun r hr => hvalid r (List.mem_append_left _ hr))
            (fun r hr => hvalid' r (List.mem_append_left _ hr)) hprevious hprevious'
            (hextends.previous.symm.trans hextends'.previous)
          refine hinj.mono ?_
          rintro input ⟨record, hmem, rfl⟩
          refine ⟨record, ?_, rfl⟩
          rcases List.mem_append.mp hmem with hmem | hmem
          · exact List.mem_append_left _ (List.mem_append_left _ hmem)
          · exact List.mem_append_right _ (List.mem_append_left _ hmem)

/-- A manifest stream that is accepted is the concatenation of the encodings of
its records, which are numbered, chained by their digests, and name growing
generations.  Where the hash has no collision, the digest of the head fixes the
stream and the head verifies one checkpoint. -/
theorem manifest_tamper_evident {limits : ManifestLimits} {bytes : Bytes} {head : ManifestRecord}
    (hdecode : decodeManifestStream bytes limits = .ok records)
    (hchain : validateManifestChain records roomId = .ok head) :
    (bytes = records.flatMap ManifestRecord.encoded ∧
      ∀ record ∈ records, record.encodeWithLimits limits = .ok record.encoded) ∧
    (∀ (index : Nat) (record : ManifestRecord), records[index]? = some record →
      record.revision.toNat = index) ∧
    (∀ record, records[0]? = some record →
      record.previousRecordDigest.val = List.replicate 32 0) ∧
    (∀ (index : Nat) (record next : ManifestRecord), records[index]? = some record →
      records[index + 1]? = some next → next.previousRecordDigest = record.digest) ∧
    (records.Pairwise fun earlier later =>
      earlier.checkpointGeneration < later.checkpointGeneration ∧
        earlier.activeDeltaGeneration < later.activeDeltaGeneration) ∧
    (∀ record ∈ records,
      record.activeDeltaGeneration.toNat = record.checkpointGeneration.toNat + 1) ∧
    (∀ (limits' : ManifestLimits) (bytes' : Bytes) (records' : List ManifestRecord)
      (head' : ManifestRecord), decodeManifestStream bytes' limits' = .ok records' →
      validateManifestChain records' roomId = .ok head' → head'.digest = head.digest →
      CollisionFree (records ++ records') → bytes' = bytes) ∧
    ∀ left right : Bytes,
      Set.InjOn Hashing.sha256 {Manifest.checkpointRecordDigestInput left,
        Manifest.checkpointRecordDigestInput right} →
      head.verifiesCheckpointBytes left → head.verifiesCheckpointBytes right → left = right := by
  obtain ⟨hrecords, hbytes⟩ := decodeManifestStream_bytes hdecode
  obtain ⟨hlinked, hhead⟩ := validateManifestChain_eq_ok.mp hchain
  have hvalid : ∀ record ∈ records, record.Valid := fun record hmem => (hrecords record hmem).1
  refine ⟨⟨hbytes, fun record hmem => (hrecords record hmem).2⟩, hlinked.revision_eq,
    fun record hfirst => ?_, fun index record next hrecord hnext =>
      (hlinked.follows hrecord hnext).previous, hlinked.pairwise,
    fun record hmem => (hvalid record hmem).active_eq, ?_,
    fun left right => ManifestRecord.verifiesCheckpointBytes_inj⟩
  · rw [(hlinked.starts hfirst).previous]
    rfl
  · intro limits' bytes' records' head' hdecode' hchain' hdigest hinj
    obtain ⟨hrecords', hbytes'⟩ := decodeManifestStream_bytes hdecode'
    obtain ⟨hlinked', hhead'⟩ := validateManifestChain_eq_ok.mp hchain'
    have hsame : records = records' :=
      hlinked.eq_of_digest hinj hlinked' hvalid
        (fun record hmem => (hrecords' record hmem).1) hhead hhead' hdigest.symm
    rw [hbytes, hbytes', hsame]

end Chain

end

open Sample

/-- A record of the sample room, after the one with this digest. -/
def sampleRecord (revision : Nat) (previous : ByteArr 32) : ManifestRecord :=
  let record : ManifestRecord :=
    { roomHash := roomHash "r", revision := UInt64.ofNat revision, previousRecordDigest := previous,
      checkpointGeneration := UInt64.ofNat revision, checkpointStreamEndOffset := 1,
      checkpointRecordDigest := Manifest.checkpointRecordDigest [7],
      activeDeltaGeneration := UInt64.ofNat (revision + 1), digest := ByteArr.zero 32 }
  { record with digest := record.expectedDigest }

/-- The records of the sample room after so many rotations. -/
def sampleRecords : Nat → List ManifestRecord
  | 0 => []
  | count + 1 => sampleRecords count ++ [sampleRecord count
      (((sampleRecords count).getLast?.map ManifestRecord.digest).getD genesisDigest)]

theorem sampleRecords_collisionFree : CollisionFree (sampleRecords 2 ++ sampleRecords 2) := by
  have hinj : ∀ record ∈ sampleRecords 2 ++ sampleRecords 2,
      ∀ other ∈ sampleRecords 2 ++ sampleRecords 2,
        sampleHashing.sha256 record.digestInput = sampleHashing.sha256 other.digestInput →
          record.digestInput = other.digestInput := by
    decide +kernel
  rintro _ ⟨record, hmem, rfl⟩ _ ⟨other, hmem', rfl⟩ h
  exact hinj record hmem other hmem' h

/-- The manifest of the room is the only one with its head. -/
theorem manifest_tamper_evident_sample :
    CollisionFree (sampleRecords 2 ++ sampleRecords 2) ∧
    (sampleRecords 2).Pairwise (fun earlier later =>
      earlier.checkpointGeneration < later.checkpointGeneration ∧
        earlier.activeDeltaGeneration < later.activeDeltaGeneration) ∧
    ∀ bytes : Bytes, decodeManifestStream bytes .default = .ok (sampleRecords 2) →
      bytes = manifestBytes (sampleRecords 2) := by
  have hchain : validateManifestChain (sampleRecords 2) "r" = .ok (sampleRecords 2)[1] := by
    decide +kernel
  have hdecode : decodeManifestStream (manifestBytes (sampleRecords 2)) .default =
      .ok (sampleRecords 2) := by
    decide +kernel
  obtain ⟨_, _, _, _, hpairwise, _, hunique, _⟩ :=
    manifest_tamper_evident hdecode hchain
  exact ⟨sampleRecords_collisionFree, hpairwise, fun bytes hdecode =>
    hunique .default bytes _ _ hdecode hchain rfl sampleRecords_collisionFree⟩

end LoroGateway
