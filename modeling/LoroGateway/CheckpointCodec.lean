import LoroGateway.Checkpoint

/-!
# An encoded checkpoint decodes to itself

The proof has the plan of the one for frames: `encode_layout` reads the encoder
once, and `decodeExact_encode` walks the decoder over the fields.
-/

namespace LoroGateway

open ByteCodec

namespace CheckpointRecord

open LoroGateway.Checkpoint

theorem encodeLengths_eq_ok {limits : CheckpointLimits} {updates : List Bytes}
    {lengths : List UInt32} (h : encodeLengths limits updates = .ok lengths) :
    lengths.map UInt32.toNat = updates.map List.length ∧
      ∀ update ∈ updates, update ≠ [] ∧ update.length ≤ limits.maxPendingUpdateBytes := by
  induction updates generalizing lengths with
  | nil =>
    cases h
    exact ⟨rfl, nofun⟩
  | cons update rest ih =>
    rw [encodeLengths, check_bind_eq_ok, enforceLimit, check_bind_eq_ok, okOr_bind_eq_ok] at h
    obtain ⟨hne, hle, length, hlength, h⟩ := h
    obtain ⟨lengths', hlengths, h⟩ := bind_eq_ok.mp h
    cases h
    obtain ⟨hmap, hrest⟩ := ih hlengths
    refine ⟨?_, List.forall_mem_cons.mpr ⟨⟨hne, hle⟩, hrest⟩⟩
    rw [List.map_cons, List.map_cons, hmap, u32OfUsize_eq_some.mp hlength]

theorem sumUpdates_eq_ok {limits : CheckpointLimits} {updates : List Bytes} {sum total : Nat}
    (h : sumUpdates limits sum updates = .ok total) :
    total = sum + updates.flatten.length ∧
      (updates = [] ∨ total ≤ limits.maxPendingUpdatesBytes) := by
  induction updates generalizing sum with
  | nil =>
    cases h
    exact ⟨rfl, .inl rfl⟩
  | cons update rest ih =>
    rw [sumUpdates, okOr_bind_eq_ok] at h
    obtain ⟨next, hnext, h⟩ := h
    rw [enforceLimit, check_bind_eq_ok] at h
    obtain ⟨hlimit, h⟩ := h
    obtain ⟨htotal, hrest⟩ := ih h
    have hnextEq := (checkedAdd_eq_some.mp hnext).1
    rw [List.flatten_cons, List.length_append]
    refine ⟨by omega, .inr ?_⟩
    rcases hrest with hnil | hle
    · subst hnil
      rw [List.flatten_nil, List.length_nil] at htotal
      omega
    · exact hle

theorem accumulateLengths {limits : CheckpointLimits} {lengths : List Nat} {sum : Nat}
    (heach : ∀ length ∈ lengths, length ≠ 0 ∧ length ≤ limits.maxPendingUpdateBytes)
    (hsum : lengths = [] ∨ sum + lengths.sum ≤ limits.maxPendingUpdatesBytes)
    (hword : sum + lengths.sum < wordSize) :
    lengths.foldlM (accumulateLength limits) sum = .ok (sum + lengths.sum) := by
  induction lengths generalizing sum with
  | nil => rfl
  | cons length lengths ih =>
    obtain ⟨⟨hne, hlength⟩, heach⟩ := List.forall_mem_cons.mp heach
    have hsum := hsum.resolve_left (List.cons_ne_nil _ _)
    rw [List.sum_cons] at hsum hword ⊢
    rw [List.foldlM_cons]
    refine bind_eq_ok.mpr ⟨sum + length, ?_, ?_⟩
    · rw [accumulateLength, check_bind_eq_ok, enforceLimit, check_bind_eq_ok, okOr_bind_eq_ok]
      refine ⟨hne, hlength, _, checkedAdd_eq_some.mpr ⟨rfl, by omega⟩, ?_⟩
      exact check_bind_eq_ok.mpr ⟨by omega, rfl⟩
    · rw [ih heach (.inr (by omega)) (by omega), Nat.add_assoc]

/-- The fields of a record before the checksum. -/
def body (record : CheckpointRecord) (snapshotLen : UInt64) (pendingCount : UInt32)
    (lengths : List UInt32) (total : UInt64) : Bytes :=
  magic ++ (be16 version ++ (be16 0 ++ (be64 total ++ (record.roomHash.val ++
    (be64 record.checkpointGeneration ++ (be64 record.sourceDeltaGeneration ++
      (be64 record.sourceDeltaEndOffset ++ (be64 snapshotLen ++ (be32 pendingCount ++
        (lengths.flatMap be32 ++ (record.snapshot ++ (record.pendingUpdates.flatten ++
          record.digest.val))))))))))))

/-- What the encoder checked, and the bytes it wrote. -/
structure Layout [Hashing] (record : CheckpointRecord) (limits : CheckpointLimits) (bytes : Bytes)
    (snapshotLen : UInt64) (pendingCount : UInt32) (lengths : List UInt32) (total : UInt64) :
    Prop where
  snapshot_ne : record.snapshot ≠ []
  snapshot_le : record.snapshot.length ≤ limits.maxSnapshotBytes
  snapshot_length : snapshotLen.toNat = record.snapshot.length
  count_le : record.pendingUpdates.length ≤ limits.maxPendingUpdates
  count_length : pendingCount.toNat = record.pendingUpdates.length
  lengths_eq : lengths.map UInt32.toNat = record.pendingUpdates.map List.length
  update_le : ∀ update ∈ record.pendingUpdates,
    update ≠ [] ∧ update.length ≤ limits.maxPendingUpdateBytes
  updates_le : record.pendingUpdates = [] ∨
    record.pendingUpdates.flatten.length ≤ limits.maxPendingUpdatesBytes
  total_le : total.toNat ≤ limits.maxRecordBytes
  total_eq : total.toNat = 128 + lengths.length * 4 + record.snapshot.length +
    record.pendingUpdates.flatten.length
  digest_eq : record.digest = checkpointDigest record.snapshot record.pendingUpdates
  bytes_eq : bytes = body record snapshotLen pendingCount lengths total ++
    (be32 (Hashing.crc32 (body record snapshotLen pendingCount lengths total)) ++ be64 total)

theorem totalLength_eq_some {tableLen snapshotLen updatesLen total : Nat}
    (h : totalLength tableLen snapshotLen updatesLen = some total) :
    total = 128 + tableLen + snapshotLen + updatesLen := by
  simp only [totalLength, Option.bind_eq_bind, Option.bind_eq_some_iff, checkedAdd_eq_some,
    fixedHeader, fixedSuffix] at h
  obtain ⟨_, ⟨rfl, _⟩, _, ⟨rfl, _⟩, _, ⟨rfl, _⟩, rfl, _⟩ := h
  omega

variable [Hashing] {record : CheckpointRecord} {limits : CheckpointLimits} {bytes : Bytes}

theorem encode_layout (h : record.encodeWithLimits limits = .ok bytes) :
    ∃ snapshotLen pendingCount lengths total,
      Layout record limits bytes snapshotLen pendingCount lengths total := by
  rw [encodeWithLimits] at h
  dsimp only [enforceLimit] at h
  rw [check_bind_eq_ok, check_bind_eq_ok, check_bind_eq_ok] at h
  obtain ⟨hsnapshot, hsnapshotLe, hcount, h⟩ := h
  obtain ⟨snapshotLen, hsnapshotLen, h⟩ := okOr_bind_eq_ok.mp h
  obtain ⟨pendingCount, hpendingCount, h⟩ := okOr_bind_eq_ok.mp h
  obtain ⟨lengths, hlengths, h⟩ := bind_eq_ok.mp h
  obtain ⟨updatesLen, hsum, h⟩ := bind_eq_ok.mp h
  obtain ⟨tableLen, htable, h⟩ := okOr_bind_eq_ok.mp h
  obtain ⟨totalLen, htotal, h⟩ := okOr_bind_eq_ok.mp h
  obtain ⟨hrecord, h⟩ := check_bind_eq_ok.mp h
  obtain ⟨total, htotalWord, h⟩ := okOr_bind_eq_ok.mp h
  obtain ⟨hdigest, h⟩ := check_bind_eq_ok.mp h
  obtain ⟨hlengthsEq, heach⟩ := encodeLengths_eq_ok hlengths
  obtain ⟨hsumEq, hsumLe⟩ := sumUpdates_eq_ok hsum
  rw [u64OfUsize_eq_some] at hsnapshotLen htotalWord
  rw [u32OfUsize_eq_some] at hpendingCount
  have hupdatesEq : updatesLen = record.pendingUpdates.flatten.length := by omega
  have htotalEq := totalLength_eq_some htotal
  rw [(checkedMul_eq_some.mp htable).1, hupdatesEq, ← htotalWord] at htotalEq
  refine ⟨snapshotLen, pendingCount, lengths, total, hsnapshot, hsnapshotLe, hsnapshotLen, hcount,
    hpendingCount, hlengthsEq, heach, hupdatesEq ▸ hsumLe, htotalWord ▸ hrecord, htotalEq, hdigest,
    ?_⟩
  cases h
  simp only [body, List.append_assoc]

namespace Layout

variable {snapshotLen : UInt64} {pendingCount : UInt32} {lengths : List UInt32} {total : UInt64}

theorem lengths_length
    (h : Layout record limits bytes snapshotLen pendingCount lengths total) :
    lengths.length = record.pendingUpdates.length := by
  rw [← List.length_map UInt32.toNat, h.lengths_eq, List.length_map]

theorem body_length (h : Layout record limits bytes snapshotLen pendingCount lengths total) :
    (body record snapshotLen pendingCount lengths total).length = total.toNat - 12 := by
  have htable : (lengths.flatMap be32).length = lengths.length * 4 := by
    simp [List.length_flatMap]
  have hmagic : magic.length = 4 := by decide
  simp only [body, List.length_append, length_be16, length_be32, length_be64, htable, hmagic,
    record.roomHash.property, record.digest.property]
  have := h.total_eq
  omega

theorem length_eq (h : Layout record limits bytes snapshotLen pendingCount lengths total) :
    bytes.length = total.toNat := by
  rw [h.bytes_eq, List.length_append, List.length_append, h.body_length, length_be32, length_be64]
  have := h.total_eq
  omega

theorem sum_eq (h : Layout record limits bytes snapshotLen pendingCount lengths total) :
    (lengths.map UInt32.toNat).sum = record.pendingUpdates.flatten.length := by
  rw [h.lengths_eq, List.length_flatten]

/-- The header of a record, with the length of the whole. -/
theorem header (h : Layout record limits bytes snapshotLen pendingCount lengths total) :
    bytes.take 4 = magic ∧
      ∃ tail, bytes.drop 4 = be16 version ++ (be16 0 ++ (be64 total ++ tail)) := by
  have hmagic : magic.length = 4 := by decide
  rw [h.bytes_eq, body]
  simp only [List.append_assoc]
  exact ⟨List.take_left' hmagic, _, List.drop_left' hmagic⟩

theorem payload (h : Layout record limits bytes snapshotLen pendingCount lengths total) :
    bytes.drop 16 = record.roomHash.val ++ (be64 record.checkpointGeneration ++
      (be64 record.sourceDeltaGeneration ++ (be64 record.sourceDeltaEndOffset ++
        (be64 snapshotLen ++ (be32 pendingCount ++ (lengths.flatMap be32 ++ (record.snapshot ++
          (record.pendingUpdates.flatten ++ (record.digest.val ++
            (be32 (Hashing.crc32 (body record snapshotLen pendingCount lengths total)) ++
              be64 total)))))))))) := by
  have hhead : (magic ++ (be16 version ++ (be16 0 ++ be64 total))).length = 16 := by
    have hmagic : magic.length = 4 := by decide
    simp only [List.length_append, length_be16, length_be64, hmagic]
  generalize hcrc : Hashing.crc32 (body record snapshotLen pendingCount lengths total) = crc
  have hbytes := h.bytes_eq
  rw [hcrc, body] at hbytes
  refine (congrArg (List.drop 16) ?_).trans (List.drop_left' hhead)
  rw [hbytes]
  simp only [List.append_assoc]

theorem suffix (h : Layout record limits bytes snapshotLen pendingCount lengths total) :
    bytes.take (total.toNat - 12) = body record snapshotLen pendingCount lengths total ∧
      bytes.drop (total.toNat - 12) =
        be32 (Hashing.crc32 (body record snapshotLen pendingCount lengths total)) ++
          be64 total := by
  rw [← h.body_length, h.bytes_eq]
  exact ⟨List.take_left, List.drop_left⟩

end Layout

/-- A record that the encoder accepts is read back from its bytes. -/
theorem decodeExact_encode (hencode : record.encodeWithLimits limits = .ok bytes) :
    decodeExact bytes limits = .ok record := by
  obtain ⟨snapshotLen, pendingCount, lengths, total, h⟩ := encode_layout hencode
  have hlen := h.length_eq
  have htotal := h.total_eq
  have hword : bytes.length < wordSize := hlen ▸ total.toNat_lt
  obtain ⟨hmagic, tail, hd4⟩ := h.header
  have hd6 := drop_add_of_drop hd4 (length_be16 _)
  have hd8 := drop_add_of_drop hd6 (length_be16 _)
  obtain ⟨hbody, hcrc⟩ := h.suffix
  have htrailer : bytes.drop (total.toNat - 8) = be64 total ++ [] := by
    have hcursor : total.toNat - 8 = total.toNat - 12 + 4 := by omega
    rw [hcursor, drop_add_of_drop hcrc (length_be32 _), List.append_nil]
  have hroom := h.payload
  have hcheckpoint := drop_add_of_drop hroom record.roomHash.property
  have hsource := drop_add_of_drop hcheckpoint (length_be64 _)
  have hend := drop_add_of_drop hsource (length_be64 _)
  have hsnapLen := drop_add_of_drop hend (length_be64 _)
  have hcount := drop_add_of_drop hsnapLen (length_be64 _)
  have htable := drop_add_of_drop hcount (length_be32 _)
  have htableLen : (lengths.flatMap be32).length = 4 * lengths.length := by
    simp [List.length_flatMap, Nat.mul_comm]
  have hsnap := drop_add_of_drop htable htableLen
  have hblobs := drop_add_of_drop hsnap h.snapshot_length.symm
  have hdig := drop_add_of_drop hblobs rfl
  have hlengths := h.lengths_length
  have hsum := h.sum_eq
  have hsnapshotLen := h.snapshot_length
  have hsnapshotNe : 0 < record.snapshot.length := List.length_pos_iff.mpr h.snapshot_ne
  have heach : ∀ length ∈ lengths.map UInt32.toNat,
      length ≠ 0 ∧ length ≤ limits.maxPendingUpdateBytes := by
    rw [h.lengths_eq, List.forall_mem_map]
    intro update hupdate
    exact (h.update_le update hupdate).imp_left fun hne => (List.length_pos_iff.mpr hne).ne'
  have hsumLe : lengths.map UInt32.toNat = [] ∨
      0 + (lengths.map UInt32.toNat).sum ≤ limits.maxPendingUpdatesBytes := by
    rw [hsum, Nat.zero_add, h.lengths_eq, List.map_eq_nil_iff]
    exact h.updates_le
  have haccum := accumulateLengths heach hsumLe (by omega)
  rw [decodeExact]
  dsimp only [enforceLimit]
  rw [check_bind_eq_ok, check_bind_eq_ok]
  refine ⟨by rw [fixedHeader, fixedSuffix]; omega, hmagic, ?_⟩
  refine bind_eq_ok.mpr ⟨_, readU16At_of_drop hword (by omega) hd4, ?_⟩
  dsimp only
  refine check_bind_eq_ok.mpr ⟨rfl, ?_⟩
  refine bind_eq_ok.mpr ⟨_, readU16At_of_drop hword (by omega) hd6, ?_⟩
  dsimp only
  refine check_bind_eq_ok.mpr ⟨rfl, ?_⟩
  refine bind_eq_ok.mpr ⟨_, readU64At_of_drop hword (by omega) hd8, ?_⟩
  dsimp only
  rw [check_bind_eq_ok, check_bind_eq_ok, check_bind_eq_ok, check_bind_eq_ok]
  refine ⟨by rw [fixedHeader, fixedSuffix]; omega, h.total_le, by omega, hlen, ?_⟩
  refine okOr_bind_eq_ok.mpr ⟨_, checkedSub_eq_some.mpr ⟨by omega, rfl⟩, ?_⟩
  refine bind_eq_ok.mpr ⟨_, readU64At_of_drop hword (by omega) htrailer, ?_⟩
  dsimp only
  refine check_bind_eq_ok.mpr ⟨rfl, ?_⟩
  refine okOr_bind_eq_ok.mpr ⟨_, checkedSub_eq_some.mpr ⟨by omega, rfl⟩, ?_⟩
  refine bind_eq_ok.mpr ⟨_, readU32At_of_drop hword (by omega) hcrc, ?_⟩
  dsimp only
  refine check_bind_eq_ok.mpr ⟨by rw [hbody], ?_⟩
  refine okOr_bind_eq_ok.mpr ⟨_, checkedSub_eq_some.mpr ⟨by omega, rfl⟩, ?_⟩
  refine bind_eq_ok.mpr
    ⟨_, takeAt_of_drop hword (by omega) hroom record.roomHash.property, ?_⟩
  dsimp only
  refine bind_eq_ok.mpr ⟨_, readU64At_of_drop hword (by omega) hcheckpoint, ?_⟩
  dsimp only
  refine bind_eq_ok.mpr ⟨_, readU64At_of_drop hword (by omega) hsource, ?_⟩
  dsimp only
  refine bind_eq_ok.mpr ⟨_, readU64At_of_drop hword (by omega) hend, ?_⟩
  dsimp only
  refine bind_eq_ok.mpr ⟨_, readU64At_of_drop hword (by omega) hsnapLen, ?_⟩
  dsimp only
  refine check_bind_eq_ok.mpr ⟨hsnapshotLen ▸ h.snapshot_le, ?_⟩
  refine check_bind_eq_ok.mpr ⟨by omega, ?_⟩
  refine bind_eq_ok.mpr ⟨_, readU32At_of_drop hword (by omega) hcount, ?_⟩
  dsimp only
  rw [h.count_length]
  refine check_bind_eq_ok.mpr ⟨h.count_le, ?_⟩
  rw [← hlengths]
  refine bind_eq_ok.mpr
    ⟨_, readTable_of_drop hword (by omega) htable haccum, ?_⟩
  dsimp only
  refine okOr_bind_eq_ok.mpr ⟨_, checkedAdd_eq_some.mpr ⟨rfl, by omega⟩, ?_⟩
  refine okOr_bind_eq_ok.mpr ⟨_, checkedSub_eq_some.mpr ⟨by omega, rfl⟩, ?_⟩
  refine check_bind_eq_ok.mpr ⟨by omega, ?_⟩
  refine bind_eq_ok.mpr
    ⟨_, takeUntilAt_of_drop hword (by omega) hsnap hsnapshotLen.symm (by omega), ?_⟩
  dsimp only
  rw [h.lengths_eq]
  refine bind_eq_ok.mpr ⟨_, takeEach_of_drop hword (by omega) hblobs (by omega), ?_⟩
  dsimp only
  refine check_bind_eq_ok.mpr ⟨by omega, ?_⟩
  refine bind_eq_ok.mpr ⟨_, takeAt_of_drop hword (by omega) hdig record.digest.property, ?_⟩
  dsimp only
  rw [ByteArr.ofBytes_val, ByteArr.ofBytes_val]
  refine check_bind_eq_ok.mpr ⟨h.digest_eq, ?_⟩
  exact check_bind_eq_ok.mpr ⟨by omega, rfl⟩

theorem encode_length (hencode : record.encodeWithLimits limits = .ok bytes) :
    0 < bytes.length ∧ bytes.length < wordSize := by
  obtain ⟨_, _, _, total, h⟩ := encode_layout hencode
  have htotal := h.total_eq
  have hword := total.toNat_lt
  rw [h.length_eq]
  exact ⟨by omega, hword⟩

/-- Of two encoded records neither is a proper beginning of the other. -/
theorem encode_eq_of_isPrefix {other : CheckpointRecord} {bytes' : Bytes}
    (h : record.encodeWithLimits limits = .ok bytes)
    (h' : other.encodeWithLimits limits = .ok bytes') (hbegin : bytes <+: bytes') :
    bytes = bytes' := by
  obtain ⟨_, _, _, total, hlayout⟩ := encode_layout h
  obtain ⟨_, _, _, total', hlayout'⟩ := encode_layout h'
  obtain ⟨_, tail, hd4⟩ := hlayout.header
  obtain ⟨_, tail', hd4'⟩ := hlayout'.header
  have hd8 := drop_add_of_drop (drop_add_of_drop hd4 (length_be16 _)) (length_be16 _)
  have hd8' := drop_add_of_drop (drop_add_of_drop hd4' (length_be16 _)) (length_be16 _)
  obtain ⟨rest, rfl⟩ := hbegin
  have hsmall : 8 ≤ bytes.length := by
    rw [hlayout.length_eq, hlayout.total_eq]
    omega
  have hword : be64 total = be64 total' := by
    rw [List.drop_append_of_le_length hsmall, hd8, List.append_assoc] at hd8'
    exact (List.append_inj hd8' (by rw [length_be64, length_be64])).1
  have htotal : total = total' := by rw [← ofBE_be64 total, hword, ofBE_be64]
  have hlen : (bytes ++ rest).length = bytes.length := by
    rw [hlayout.length_eq, hlayout'.length_eq, htotal]
  rw [List.length_append] at hlen
  rw [List.length_eq_zero_iff.mp (by omega : rest.length = 0), List.append_nil]

end CheckpointRecord

end LoroGateway
