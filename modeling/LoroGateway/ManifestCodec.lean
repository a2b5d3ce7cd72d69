import LoroGateway.Manifest

/-!
# Manifest streams and manifest chains

An encoded record has a fixed length and decodes to itself, so a stream of
encoded records decodes to the records, and the record at an index can be read
off at its offset.

`ManifestChain` says what `validate_manifest_chain` checks, one record at a
time: a chain is extended by a record that follows its last one.
-/

namespace LoroGateway

open ByteCodec

namespace ManifestRecord

open LoroGateway.Manifest

/-- The fields of a record before the checksum. -/
def body (record : ManifestRecord) (total : UInt64) : Bytes :=
  magic ++ (be16 version ++ (be16 0 ++ (be64 total ++ (record.roomHash.val ++
    (be64 record.revision ++ (record.previousRecordDigest.val ++
      (be64 record.checkpointGeneration ++ (be64 record.checkpointStreamEndOffset ++
        (record.checkpointRecordDigest.val ++ (be64 record.activeDeltaGeneration ++
          record.digest.val))))))))))

theorem body_length (record : ManifestRecord) (total : UInt64) :
    (body record total).length = 176 := by
  have hmagic : magic.length = 4 := by decide
  simp only [body, List.length_append, length_be16, length_be64, hmagic,
    record.roomHash.property, record.digest.property, record.previousRecordDigest.property,
    record.checkpointRecordDigest.property]

variable [Hashing] {record : ManifestRecord} {limits : ManifestLimits} {bytes : Bytes}

/-- What the encoder checked, and the bytes it wrote. -/
structure Layout (record : ManifestRecord) (limits : ManifestLimits) (bytes : Bytes)
    (total : UInt64) : Prop where
  limit : fixedRecordBytes ≤ limits.maxRecordBytes
  fields : validateFields record = .ok ()
  digest_eq : record.digest = record.expectedDigest
  total_eq : total.toNat = fixedRecordBytes
  bytes_eq : bytes = body record total ++ (be32 (Hashing.crc32 (body record total)) ++ be64 total)

theorem encode_layout (h : record.encodeWithLimits limits = .ok bytes) :
    ∃ total, Layout record limits bytes total := by
  rw [encodeWithLimits] at h
  dsimp only [enforceLimit] at h
  obtain ⟨hlimit, h⟩ := check_bind_eq_ok.mp h
  obtain ⟨⟨⟩, hfields, h⟩ := bind_eq_ok.mp h
  obtain ⟨total, htotal, h⟩ := okOr_bind_eq_ok.mp h
  obtain ⟨hdigest, h⟩ := check_bind_eq_ok.mp h
  refine ⟨total, hlimit, hfields, hdigest, u64OfUsize_eq_some.mp htotal, ?_⟩
  cases h
  simp only [body, List.append_assoc]

namespace Layout

variable {total : UInt64}

theorem length_eq (h : Layout record limits bytes total) : bytes.length = 188 := by
  rw [h.bytes_eq, List.length_append, List.length_append, body_length, length_be32, length_be64]

theorem header (h : Layout record limits bytes total) (rest : Bytes) :
    (bytes ++ rest).take 4 = magic ∧
      ∃ tail, (bytes ++ rest).drop 4 = be16 version ++ (be16 0 ++ (be64 total ++ tail)) := by
  have hmagic : magic.length = 4 := by decide
  rw [h.bytes_eq, body]
  simp only [List.append_assoc]
  exact ⟨List.take_left' hmagic, _, List.drop_left' hmagic⟩

theorem payload (h : Layout record limits bytes total) :
    bytes.drop 16 = record.roomHash.val ++ (be64 record.revision ++
      (record.previousRecordDigest.val ++ (be64 record.checkpointGeneration ++
        (be64 record.checkpointStreamEndOffset ++ (record.checkpointRecordDigest.val ++
          (be64 record.activeDeltaGeneration ++ (record.digest.val ++
            (be32 (Hashing.crc32 (body record total)) ++ be64 total)))))))) := by
  have hhead : (magic ++ (be16 version ++ (be16 0 ++ be64 total))).length = 16 := by
    have hmagic : magic.length = 4 := by decide
    simp only [List.length_append, length_be16, length_be64, hmagic]
  generalize hcrc : Hashing.crc32 (body record total) = crc
  have hbytes := h.bytes_eq
  rw [hcrc, body] at hbytes
  refine (congrArg (List.drop 16) ?_).trans (List.drop_left' hhead)
  rw [hbytes]
  simp only [List.append_assoc]

theorem suffix (h : Layout record limits bytes total) :
    bytes.take 176 = body record total ∧
      bytes.drop 176 = be32 (Hashing.crc32 (body record total)) ++ be64 total := by
  rw [h.bytes_eq]
  exact ⟨List.take_left' (body_length record total), List.drop_left' (body_length record total)⟩

end Layout

/-- A record that the encoder accepts is read back from its bytes. -/
theorem decodeOne_encode (rest : Bytes) (hencode : record.encodeWithLimits limits = .ok bytes)
    (hword : (bytes ++ rest).length < wordSize) :
    decodeOne (bytes ++ rest) limits = .ok (record, bytes.length) := by
  obtain ⟨total, h⟩ := encode_layout hencode
  have hlen := h.length_eq
  have htotal : total.toNat = 188 := h.total_eq
  have hinput : (bytes ++ rest).length = bytes.length + rest.length := List.length_append
  have hbytesWord : bytes.length < wordSize := by omega
  obtain ⟨hmagic, tail, hd4⟩ := h.header rest
  have hd6 := drop_add_of_drop hd4 (length_be16 _)
  have hd8 := drop_add_of_drop hd6 (length_be16 _)
  have hframe : (bytes ++ rest).take 188 = bytes := by rw [← hlen, List.take_left]
  obtain ⟨hbody, hcrc⟩ := h.suffix
  have htrailer : bytes.drop 180 = be64 total ++ [] := by
    rw [drop_add_of_drop hcrc (length_be32 _), List.append_nil]
  have hroom := h.payload
  have hrevision := drop_add_of_drop hroom record.roomHash.property
  have hprevious := drop_add_of_drop hrevision (length_be64 _)
  have hcheckpoint := drop_add_of_drop hprevious record.previousRecordDigest.property
  have hend := drop_add_of_drop hcheckpoint (length_be64 _)
  have hcheckpointDigest := drop_add_of_drop hend (length_be64 _)
  have hactive := drop_add_of_drop hcheckpointDigest record.checkpointRecordDigest.property
  have hdig := drop_add_of_drop hactive (length_be64 _)
  rw [decodeOne]
  dsimp only [enforceLimit]
  rw [check_bind_eq_ok, check_bind_eq_ok, check_bind_eq_ok]
  refine ⟨h.limit, by rw [hinput, hlen, fixedRecordBytes]; omega, hmagic, ?_⟩
  refine bind_eq_ok.mpr ⟨_, readU16At_of_drop hword (by omega) hd4, ?_⟩
  dsimp only
  refine check_bind_eq_ok.mpr ⟨rfl, ?_⟩
  refine bind_eq_ok.mpr ⟨_, readU16At_of_drop hword (by omega) hd6, ?_⟩
  dsimp only
  refine check_bind_eq_ok.mpr ⟨rfl, ?_⟩
  refine bind_eq_ok.mpr ⟨_, readU64At_of_drop hword (by omega) hd8, ?_⟩
  dsimp only
  rw [check_bind_eq_ok, check_bind_eq_ok, check_bind_eq_ok, htotal, hframe]
  refine ⟨rfl, h.limit, by omega, ?_⟩
  refine okOr_bind_eq_ok.mpr ⟨180, checkedSub_eq_some.mpr ⟨by omega, rfl⟩, ?_⟩
  refine bind_eq_ok.mpr ⟨_, readU64At_of_drop hbytesWord (by omega) htrailer, ?_⟩
  dsimp only
  refine check_bind_eq_ok.mpr ⟨rfl, ?_⟩
  refine okOr_bind_eq_ok.mpr ⟨176, checkedSub_eq_some.mpr ⟨by omega, rfl⟩, ?_⟩
  refine bind_eq_ok.mpr ⟨_, readU32At_of_drop hbytesWord (by omega) hcrc, ?_⟩
  dsimp only
  refine check_bind_eq_ok.mpr ⟨by rw [hbody], ?_⟩
  refine bind_eq_ok.mpr
    ⟨_, takeAt_of_drop hbytesWord (by omega) hroom record.roomHash.property, ?_⟩
  dsimp only
  refine bind_eq_ok.mpr ⟨_, readU64At_of_drop hbytesWord (by omega) hrevision, ?_⟩
  dsimp only
  refine bind_eq_ok.mpr
    ⟨_, takeAt_of_drop hbytesWord (by omega) hprevious record.previousRecordDigest.property, ?_⟩
  dsimp only
  refine bind_eq_ok.mpr ⟨_, readU64At_of_drop hbytesWord (by omega) hcheckpoint, ?_⟩
  dsimp only
  refine bind_eq_ok.mpr ⟨_, readU64At_of_drop hbytesWord (by omega) hend, ?_⟩
  dsimp only
  refine bind_eq_ok.mpr ⟨_, takeAt_of_drop hbytesWord (by omega) hcheckpointDigest
    record.checkpointRecordDigest.property, ?_⟩
  dsimp only
  refine bind_eq_ok.mpr ⟨_, readU64At_of_drop hbytesWord (by omega) hactive, ?_⟩
  dsimp only
  refine bind_eq_ok.mpr ⟨_, takeAt_of_drop hbytesWord (by omega) hdig record.digest.property, ?_⟩
  dsimp only
  rw [ByteArr.ofBytes_val, ByteArr.ofBytes_val, ByteArr.ofBytes_val, ByteArr.ofBytes_val]
  refine check_bind_eq_ok.mpr ⟨rfl, ?_⟩
  refine bind_eq_ok.mpr ⟨(), h.fields, ?_⟩
  refine check_bind_eq_ok.mpr ⟨h.digest_eq, ?_⟩
  rw [hlen]
  rfl

/-- A record that the encoder accepts under the default limits. -/
def Valid (record : ManifestRecord) : Prop := ∃ bytes, record.encode = .ok bytes

/-- The bytes of a record. -/
def encoded (record : ManifestRecord) : Bytes :=
  match record.encode with
  | .ok bytes => bytes
  | .error _ => []

theorem encoded_eq (h : record.encode = .ok bytes) : record.encoded = bytes := by
  rw [encoded, h]

theorem Valid.encode_eq (h : record.Valid) : record.encode = .ok record.encoded := by
  obtain ⟨bytes, hbytes⟩ := h
  rw [encoded_eq hbytes, hbytes]

theorem Valid.length_eq (h : record.Valid) : record.encoded.length = 188 := by
  obtain ⟨_, hlayout⟩ := encode_layout h.encode_eq
  exact hlayout.length_eq

theorem Valid.inj {other : ManifestRecord} (h : record.Valid) (h' : other.Valid)
    (hbytes : record.encoded = other.encoded) : record = other := by
  have hword : (record.encoded ++ []).length < wordSize := by
    rw [List.append_nil, h.length_eq]
    decide
  have hdecode := decodeOne_encode [] h.encode_eq hword
  have hdecode' := decodeOne_encode [] h'.encode_eq (hbytes ▸ hword)
  rw [hbytes, hdecode'] at hdecode
  exact (congrArg Prod.fst (Except.ok.inj hdecode)).symm

end ManifestRecord

/-! ## Streams of records -/

section Stream

variable [Hashing]

/-- The bytes of a list of records. -/
def manifestBytes (records : List ManifestRecord) : Bytes := records.flatMap ManifestRecord.encoded

@[simp] theorem manifestBytes_nil : manifestBytes [] = [] := rfl

theorem manifestBytes_cons (record : ManifestRecord) (records : List ManifestRecord) :
    manifestBytes (record :: records) = record.encoded ++ manifestBytes records :=
  List.flatMap_cons

theorem manifestBytes_append (left right : List ManifestRecord) :
    manifestBytes (left ++ right) = manifestBytes left ++ manifestBytes right :=
  List.flatMap_append

theorem manifestBytes_singleton (record : ManifestRecord) :
    manifestBytes [record] = record.encoded := by
  rw [manifestBytes_cons, manifestBytes_nil, List.append_nil]

variable {records : List ManifestRecord}

theorem length_manifestBytes (h : ∀ record ∈ records, record.Valid) :
    (manifestBytes records).length = 188 * records.length := by
  induction records with
  | nil => rfl
  | cons record records ih =>
    obtain ⟨hrecord, h⟩ := List.forall_mem_cons.mp h
    rw [manifestBytes_cons, List.length_append, hrecord.length_eq, ih h, List.length_cons]
    omega

theorem manifestBytes_eq_nil (h : ∀ record ∈ records, record.Valid) :
    manifestBytes records = [] ↔ records = [] := by
  rw [← List.length_eq_zero_iff, length_manifestBytes h, ← List.length_eq_zero_iff]
  omega

/-- The record at an index, read off at its offset. -/
theorem slice_manifestBytes (h : ∀ record ∈ records, record.Valid) {index : Nat}
    (hindex : index < records.length) :
    ((manifestBytes records).drop (188 * index)).take 188 = records[index].encoded := by
  have hsplit : records = records.take index ++ records[index] :: records.drop (index + 1) := by
    rw [List.getElem_cons_drop, List.take_append_drop]
  have htake : (manifestBytes (records.take index)).length = 188 * index := by
    rw [length_manifestBytes fun r hr => h r (List.mem_of_mem_take hr), List.length_take,
      Nat.min_eq_left hindex.le]
  have hbytes : manifestBytes records = manifestBytes (records.take index) ++
      (records[index].encoded ++ manifestBytes (records.drop (index + 1))) := by
    rw [← manifestBytes_cons, ← manifestBytes_append, ← hsplit]
  rw [hbytes, List.drop_left' htake,
    List.take_left' (h _ (List.getElem_mem hindex)).length_eq]

/-- One turn of the loop that decodes a stream of records. -/
theorem decodeManifestRecords_cons {record : ManifestRecord} {fuel count : Nat}
    (hrecord : record.Valid) (hword : (manifestBytes (record :: records)).length < wordSize) :
    decodeManifestRecords .default (fuel + 1) (manifestBytes (record :: records)) count =
      (do
        Manifest.enforceLimit "manifest record count" (count + 1) ManifestLimits.default.maxRecords
        let records ← decodeManifestRecords .default fuel (manifestBytes records) (count + 1)
        return record :: records) := by
  have hlen := hrecord.length_eq
  rw [manifestBytes_cons] at hword ⊢
  have hne : record.encoded ++ manifestBytes records ≠ [] := by
    intro hnil
    rw [(List.append_eq_nil_iff.mp hnil).1] at hlen
    exact absurd hlen (by decide)
  have hone := ManifestRecord.decodeOne_encode (manifestBytes records) hrecord.encode_eq hword
  have hconsumed : record.encoded.length ≤ (record.encoded ++ manifestBytes records).length := by
    rw [List.length_append]
    omega
  rw [decodeManifestRecords, if_neg hne]
  change ((_ : Except ManifestError Unit) >>= fun _ => ManifestRecord.decodeOne _ _ >>= _) = _
  rw [hone]
  change ((_ : Except ManifestError Unit) >>= fun _ => (check _ _ : Except _ Unit) >>= _) = _
  rw [check_of hconsumed, List.drop_left]
  rfl

theorem decodeManifestRecords_of_le {fuel count : Nat} (hvalid : ∀ record ∈ records, record.Valid)
    (hword : (manifestBytes records).length < wordSize)
    (hfuel : (manifestBytes records).length < fuel)
    (hfit : count + records.length ≤ ManifestLimits.default.maxRecords) :
    decodeManifestRecords .default fuel (manifestBytes records) count = .ok records := by
  obtain ⟨fuel, rfl⟩ : ∃ n, fuel = n + 1 := ⟨fuel - 1, by omega⟩
  induction records generalizing fuel count with
  | nil => rfl
  | cons record records ih =>
    have hlen := length_manifestBytes hvalid
    obtain ⟨hrecord, hvalid⟩ := List.forall_mem_cons.mp hvalid
    have hlen' := length_manifestBytes hvalid
    rw [List.length_cons] at hfit hlen
    obtain ⟨fuel, rfl⟩ : ∃ n, fuel = n + 1 := ⟨fuel - 1, by omega⟩
    rw [decodeManifestRecords_cons hrecord hword, Manifest.enforceLimit, check_bind_eq_ok]
    refine ⟨by omega, bind_eq_ok.mpr ⟨records, ?_, rfl⟩⟩
    exact ih hvalid (by omega) (by omega) fuel (by omega)

theorem decodeManifestRecords_of_lt {fuel count : Nat} (hvalid : ∀ record ∈ records, record.Valid)
    (hword : (manifestBytes records).length < wordSize)
    (hfuel : (manifestBytes records).length < fuel)
    (hcount : count ≤ ManifestLimits.default.maxRecords)
    (hover : ManifestLimits.default.maxRecords < count + records.length) :
    decodeManifestRecords .default fuel (manifestBytes records) count =
      .error (.limitExceeded "manifest record count" (ManifestLimits.default.maxRecords + 1)
        ManifestLimits.default.maxRecords) := by
  obtain ⟨fuel, rfl⟩ : ∃ n, fuel = n + 1 := ⟨fuel - 1, by omega⟩
  induction records generalizing fuel count with
  | nil =>
    rw [List.length_nil] at hover
    omega
  | cons record records ih =>
    have hlen := length_manifestBytes hvalid
    obtain ⟨hrecord, hvalid⟩ := List.forall_mem_cons.mp hvalid
    have hlen' := length_manifestBytes hvalid
    rw [List.length_cons] at hover hlen
    obtain ⟨fuel, rfl⟩ : ∃ n, fuel = n + 1 := ⟨fuel - 1, by omega⟩
    rw [decodeManifestRecords_cons hrecord hword, Manifest.enforceLimit]
    by_cases hnext : count + 1 ≤ ManifestLimits.default.maxRecords
    · rw [check_of hnext]
      change (decodeManifestRecords _ _ _ _ >>= _) = _
      rw [ih hvalid (by omega) hnext (by omega) fuel (by omega)]
      rfl
    · have heq : count = ManifestLimits.default.maxRecords := by omega
      rw [check_of_not hnext, heq]
      rfl

/-- A stream of valid records decodes to the records, unless there are too many. -/
theorem decodeManifestStream_of_le (hvalid : ∀ record ∈ records, record.Valid)
    (hword : (manifestBytes records).length < wordSize) (hfit : records.length ≤ 65536) :
    decodeManifestStream (manifestBytes records) .default = .ok records := by
  have hlen := length_manifestBytes hvalid
  have hlimit : ManifestLimits.default.maxStreamBytes = 16777216 := rfl
  have hcount : ManifestLimits.default.maxRecords = 65536 := rfl
  rw [decodeManifestStream, Manifest.enforceLimit, check_bind_eq_ok]
  exact ⟨by omega, decodeManifestRecords_of_le hvalid hword (Nat.lt_succ_self _) (by omega)⟩

theorem decodeManifestStream_of_lt (hvalid : ∀ record ∈ records, record.Valid)
    (hword : (manifestBytes records).length < wordSize) (hover : 65536 < records.length) :
    ∃ resource actual limit, decodeManifestStream (manifestBytes records) .default =
      .error (.limitExceeded resource actual limit) := by
  have hcount : ManifestLimits.default.maxRecords = 65536 := rfl
  rw [decodeManifestStream, Manifest.enforceLimit]
  by_cases hbytes : (manifestBytes records).length ≤ ManifestLimits.default.maxStreamBytes
  · rw [check_of hbytes]
    exact ⟨_, _, _, decodeManifestRecords_of_lt hvalid hword (Nat.lt_succ_self _)
      (Nat.zero_le _) (by omega)⟩
  · rw [check_of_not hbytes]
    exact ⟨_, _, _, rfl⟩

/-- What decoding a stream of valid records can answer. -/
theorem decodeManifestStream_eq_ok {records' : List ManifestRecord}
    (hvalid : ∀ record ∈ records, record.Valid) (hword : (manifestBytes records).length < wordSize)
    (h : decodeManifestStream (manifestBytes records) .default = .ok records') :
    records' = records := by
  by_cases hfit : records.length ≤ 65536
  · rw [decodeManifestStream_of_le hvalid hword hfit] at h
    exact (Except.ok.inj h).symm
  · obtain ⟨resource, actual, limit, herr⟩ :=
      decodeManifestStream_of_lt hvalid hword (by omega)
    rw [herr] at h
    cases h

end Stream

/-! ## Chains -/

section Chain

variable [Hashing] {roomId : String} {records : List ManifestRecord}
  {latest record : ManifestRecord}

/-- The record that comes next in a chain whose last record is `latest`. -/
structure Follows (roomId : String) (latest record : ManifestRecord) : Prop where
  room : record.belongsToRoom roomId
  revision : record.revision.toNat = latest.revision.toNat + 1
  previous : record.previousRecordDigest = latest.digest
  checkpoint_lt : latest.checkpointGeneration < record.checkpointGeneration
  active_lt : latest.activeDeltaGeneration < record.activeDeltaGeneration

/-- A record that starts a chain. -/
structure Starts (roomId : String) (record : ManifestRecord) : Prop where
  room : record.belongsToRoom roomId
  revision : record.revision = 0
  previous : record.previousRecordDigest = genesisDigest

/-- A record that may be put after a list of records. -/
def Extends (roomId : String) (records : List ManifestRecord) (record : ManifestRecord) : Prop :=
  match records.getLast? with
  | none => Starts roomId record
  | some latest => Follows roomId latest record

inductive ManifestChain (roomId : String) : List ManifestRecord → Prop
  | nil : ManifestChain roomId []
  | snoc {records : List ManifestRecord} {record : ManifestRecord}
      (chain : ManifestChain roomId records) (next : Extends roomId records record) :
      ManifestChain roomId (records ++ [record])

theorem validateManifestWindow_eq_ok :
    validateManifestWindow roomId latest record = .ok () ↔ Follows roomId latest record := by
  rw [validateManifestWindow, check_bind_eq_ok, okOr_bind_eq_ok]
  constructor
  · rintro ⟨hroom, next, hnext, h⟩
    rw [check_bind_eq_ok, check_bind_eq_ok, check_bind_eq_ok] at h
    obtain ⟨hrevision, hprevious, hcheckpoint, h⟩ := h
    have hactive : latest.activeDeltaGeneration < record.activeDeltaGeneration := by
      by_contra hnot
      rw [check_of_not hnot] at h
      cases h
    refine ⟨hroom, ?_, hprevious, hcheckpoint, hactive⟩
    rw [hrevision, checkedAddU64_eq_some.mp hnext]
    rfl
  · rintro ⟨hroom, hrevision, hprevious, hcheckpoint, hactive⟩
    refine ⟨hroom, record.revision, checkedAddU64_eq_some.mpr hrevision, ?_⟩
    rw [check_bind_eq_ok, check_bind_eq_ok, check_bind_eq_ok]
    exact ⟨rfl, hprevious, hcheckpoint, check_of hactive⟩

theorem validateManifestWindows_append (first : ManifestRecord) (rest : List ManifestRecord) :
    validateManifestWindows roomId first (rest ++ [record]) =
      (do
        let latest ← validateManifestWindows roomId first rest
        validateManifestWindow roomId latest record
        return record) := by
  induction rest generalizing first with
  | nil => rfl
  | cons current rest ih =>
    rw [List.cons_append, validateManifestWindows, validateManifestWindows, bind_assoc]
    exact bind_congr fun _ => ih current

theorem validateManifestWindows_getLast? {first : ManifestRecord} {rest : List ManifestRecord}
    (h : validateManifestWindows roomId first rest = .ok latest) :
    (first :: rest).getLast? = some latest := by
  induction rest generalizing first with
  | nil =>
    cases h
    rfl
  | cons current rest ih =>
    obtain ⟨_, _, h⟩ := bind_eq_ok.mp h
    rw [List.getLast?_cons_cons]
    exact ih h

theorem validateManifestChain_getLast? (h : validateManifestChain records roomId = .ok latest) :
    records.getLast? = some latest := by
  cases records with
  | nil => cases h
  | cons first rest =>
    rw [validateManifestChain, check_bind_eq_ok, check_bind_eq_ok, check_bind_eq_ok] at h
    exact validateManifestWindows_getLast? h.2.2.2

/-- The check accepts a list exactly when it accepts all but its last record and
the last record comes next. -/
theorem validateManifestChain_append :
    validateManifestChain (records ++ [record]) roomId = .ok latest ↔
      latest = record ∧ Extends roomId records record ∧
        (records = [] ∨ ∃ previous, validateManifestChain records roomId = .ok previous) := by
  cases records with
  | nil =>
    rw [List.nil_append]
    constructor
    · intro h
      rw [validateManifestChain, check_bind_eq_ok, check_bind_eq_ok, check_bind_eq_ok] at h
      obtain ⟨hroom, hrevision, hprevious, h⟩ := h
      cases h
      exact ⟨rfl, ⟨hroom, hrevision, hprevious⟩, .inl rfl⟩
    · rintro ⟨rfl, ⟨hroom, hrevision, hprevious⟩, _⟩
      rw [validateManifestChain, check_bind_eq_ok, check_bind_eq_ok, check_bind_eq_ok]
      exact ⟨hroom, hrevision, hprevious, rfl⟩
  | cons first rest =>
    rw [List.cons_append, validateManifestChain, validateManifestChain, check_bind_eq_ok,
      check_bind_eq_ok, check_bind_eq_ok, validateManifestWindows_append]
    constructor
    · rintro ⟨hroom, hrevision, hprevious, h⟩
      obtain ⟨previous, hwindows, h⟩ := bind_eq_ok.mp h
      obtain ⟨⟨⟩, hwindow, h⟩ := bind_eq_ok.mp h
      cases h
      refine ⟨rfl, ?_, .inr ⟨previous, ?_⟩⟩
      · rw [Extends, validateManifestWindows_getLast? hwindows]
        exact validateManifestWindow_eq_ok.mp hwindow
      · rw [check_bind_eq_ok, check_bind_eq_ok, check_bind_eq_ok]
        exact ⟨hroom, hrevision, hprevious, hwindows⟩
    · rintro ⟨rfl, hnext, hchain⟩
      obtain ⟨previous, hchain⟩ := hchain.resolve_left (List.cons_ne_nil _ _)
      rw [check_bind_eq_ok, check_bind_eq_ok, check_bind_eq_ok] at hchain
      obtain ⟨hroom, hrevision, hprevious, hwindows⟩ := hchain
      rw [Extends, validateManifestWindows_getLast? hwindows] at hnext
      refine ⟨hroom, hrevision, hprevious, bind_eq_ok.mpr ⟨previous, hwindows, ?_⟩⟩
      exact bind_eq_ok.mpr ⟨(), validateManifestWindow_eq_ok.mpr hnext, rfl⟩

/-- What `validate_manifest_chain` accepts. -/
theorem validateManifestChain_eq_ok :
    validateManifestChain records roomId = .ok latest ↔
      ManifestChain roomId records ∧ records.getLast? = some latest := by
  induction records using List.reverseRecOn generalizing latest with
  | nil => exact ⟨nofun, nofun⟩
  | append_singleton records record ih =>
    rw [validateManifestChain_append, List.getLast?_concat, Option.some.injEq]
    constructor
    · rintro ⟨rfl, hnext, rfl | ⟨previous, hprevious⟩⟩
      · exact ⟨.snoc .nil hnext, rfl⟩
      · exact ⟨.snoc (ih.mp hprevious).1 hnext, rfl⟩
    · rintro ⟨hchain, rfl⟩
      generalize heq : records ++ [record] = all at hchain
      cases hchain with
      | nil => exact absurd heq (by simp)
      | snoc chain next =>
        obtain ⟨rfl, hsingle⟩ := List.append_inj' heq rfl
        cases hsingle
        refine ⟨rfl, next, ?_⟩
        cases hlast : records.getLast? with
        | none => exact .inl (List.getLast?_eq_none_iff.mp hlast)
        | some previous => exact .inr ⟨previous, ih.mpr ⟨chain, hlast⟩⟩

namespace ManifestChain

theorem room (h : ManifestChain roomId records) : ∀ record ∈ records, record.belongsToRoom roomId := by
  induction h with
  | nil => exact nofun
  | @snoc records record _ next ih =>
    intro r hr
    rcases List.mem_append.mp hr with hr | hr
    · exact ih r hr
    · obtain rfl := List.mem_singleton.mp hr
      rw [Extends] at next
      split at next
      · exact next.room
      · exact next.room

/-- The revision of a record is its index. -/
theorem revision_eq (h : ManifestChain roomId records) :
    ∀ (index : Nat) (record : ManifestRecord), records[index]? = some record →
      record.revision.toNat = index := by
  induction h with
  | nil => exact nofun
  | @snoc records record _ next ih =>
    intro index r hr
    rcases Nat.lt_trichotomy index records.length with hlt | heq | hgt
    · rw [List.getElem?_append_left hlt] at hr
      exact ih index r hr
    · rw [heq, List.getElem?_concat_length] at hr
      obtain rfl := Option.some.inj hr
      rw [Extends] at next
      split at next
      · rename_i hlast
        rw [List.getLast?_eq_none_iff.mp hlast] at heq
        rw [next.revision, heq]
        rfl
      · rename_i latest hlast
        rw [List.getLast?_eq_getElem?] at hlast
        have hpos : 0 < records.length := by
          by_contra hzero
          rw [List.length_eq_zero_iff.mp (by omega : records.length = 0)] at hlast
          cases hlast
        rw [next.revision, ih _ _ hlast]
        omega
    · rw [List.getElem?_eq_none (by rw [List.length_append, List.length_singleton]; omega)] at hr
      cases hr

/-- A record that extends a chain has the length of the chain as its revision. -/
theorem extends_revision (h : ManifestChain roomId records) (next : Extends roomId records record) :
    record.revision.toNat = records.length :=
  (h.snoc next).revision_eq _ _ List.getElem?_concat_length

end ManifestChain

end Chain

end LoroGateway
