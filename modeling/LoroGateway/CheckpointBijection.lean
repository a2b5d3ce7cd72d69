import LoroGateway.CheckpointCodec

/-!
# A decoded checkpoint encodes to the bytes it came from

The proof has the plan of the one for frames: `Layout.encode` writes a laid out
record, and `decodeExact_layout` finds the layout in what the decoder read.
-/

namespace LoroGateway

open ByteCodec

namespace CheckpointRecord

open LoroGateway.Checkpoint

theorem encodeLengths_of_map {limits : CheckpointLimits} {updates : List Bytes}
    {lengths : List UInt32} (h : lengths.map UInt32.toNat = updates.map List.length)
    (heach : ∀ update ∈ updates, update ≠ [] ∧ update.length ≤ limits.maxPendingUpdateBytes) :
    encodeLengths limits updates = .ok lengths := by
  induction updates generalizing lengths with
  | nil =>
    rw [List.map_nil, List.map_eq_nil_iff] at h
    subst h
    rfl
  | cons update rest ih =>
    cases lengths with
    | nil => cases h
    | cons length lengths =>
      rw [List.map_cons, List.map_cons, List.cons.injEq] at h
      obtain ⟨⟨hne, hle⟩, heach⟩ := List.forall_mem_cons.mp heach
      rw [encodeLengths, check_bind_eq_ok, enforceLimit, check_bind_eq_ok, okOr_bind_eq_ok]
      exact ⟨hne, hle, length, u32OfUsize_eq_some.mpr h.1,
        bind_eq_ok.mpr ⟨lengths, ih h.2 heach, rfl⟩⟩

theorem sumUpdates_of_le {limits : CheckpointLimits} {updates : List Bytes} {sum : Nat}
    (hle : updates = [] ∨ sum + updates.flatten.length ≤ limits.maxPendingUpdatesBytes)
    (hword : sum + updates.flatten.length < wordSize) :
    sumUpdates limits sum updates = .ok (sum + updates.flatten.length) := by
  induction updates generalizing sum with
  | nil => rfl
  | cons update rest ih =>
    rw [List.flatten_cons, List.length_append] at hle hword ⊢
    have hle := hle.resolve_left (List.cons_ne_nil _ _)
    rw [sumUpdates, okOr_bind_eq_ok]
    refine ⟨_, checkedAdd_eq_some.mpr ⟨rfl, by omega⟩, ?_⟩
    rw [enforceLimit, check_bind_eq_ok]
    refine ⟨by omega, ?_⟩
    rw [ih (.inr (by omega)) (by omega), Nat.add_assoc]

/-- The checks that the decoder made of the lengths. -/
theorem accumulateLengths_eq_ok {limits : CheckpointLimits} {lengths : List Nat} {sum total : Nat}
    (h : lengths.foldlM (accumulateLength limits) sum = .ok total) :
    total = sum + lengths.sum ∧
      (∀ length ∈ lengths, length ≠ 0 ∧ length ≤ limits.maxPendingUpdateBytes) ∧
      (lengths ≠ [] → total ≤ limits.maxPendingUpdatesBytes) := by
  induction lengths generalizing sum with
  | nil =>
    cases h
    exact ⟨rfl, nofun, fun hne => absurd rfl hne⟩
  | cons length lengths ih =>
    rw [List.foldlM_cons] at h
    obtain ⟨next, hnext, h⟩ := bind_eq_ok.mp h
    rw [accumulateLength, check_bind_eq_ok, enforceLimit, check_bind_eq_ok, okOr_bind_eq_ok] at hnext
    obtain ⟨hne, hlength, sum', hsum, hnext⟩ := hnext
    obtain ⟨hlimit, hnext⟩ := check_bind_eq_ok.mp hnext
    cases hnext
    obtain ⟨rfl, _⟩ := checkedAdd_eq_some.mp hsum
    obtain ⟨htotal, heach, hle⟩ := ih h
    refine ⟨?_, List.forall_mem_cons.mpr ⟨⟨hne, hlength⟩, heach⟩, fun _ => ?_⟩
    · rw [htotal, List.sum_cons, Nat.add_assoc]
    · cases lengths with
      | nil =>
        cases h
        exact hlimit
      | cons => exact hle (List.cons_ne_nil _ _)

theorem totalLength_of_lt {tableLen snapshotLen updatesLen : Nat}
    (h : 128 + tableLen + snapshotLen + updatesLen < wordSize) :
    totalLength tableLen snapshotLen updatesLen =
      some (128 + tableLen + snapshotLen + updatesLen) := by
  simp only [totalLength, Option.bind_eq_bind, Option.bind_eq_some_iff, checkedAdd_eq_some,
    fixedHeader, fixedSuffix]
  exact ⟨_, ⟨rfl, by omega⟩, _, ⟨rfl, by omega⟩, _, ⟨rfl, by omega⟩, by omega, by omega⟩

variable [Hashing] {record : CheckpointRecord} {limits : CheckpointLimits} {input bytes : Bytes}

/-- The encoder writes a record that is laid out. -/
theorem Layout.encode {snapshotLen : UInt64} {pendingCount : UInt32} {lengths : List UInt32}
    {total : UInt64} (h : Layout record limits bytes snapshotLen pendingCount lengths total) :
    record.encodeWithLimits limits = .ok bytes := by
  have htotal := h.total_eq
  have hword : total.toNat < wordSize := total.toNat_lt
  rw [encodeWithLimits]
  dsimp only [enforceLimit]
  rw [check_bind_eq_ok, check_bind_eq_ok, check_bind_eq_ok]
  refine ⟨h.snapshot_ne, h.snapshot_le, h.count_le, ?_⟩
  refine okOr_bind_eq_ok.mpr ⟨snapshotLen, u64OfUsize_eq_some.mpr h.snapshot_length, ?_⟩
  refine okOr_bind_eq_ok.mpr ⟨pendingCount, u32OfUsize_eq_some.mpr h.count_length, ?_⟩
  refine bind_eq_ok.mpr ⟨lengths, encodeLengths_of_map h.lengths_eq h.update_le, ?_⟩
  refine bind_eq_ok.mpr ⟨_, sumUpdates_of_le (by rw [Nat.zero_add]; exact h.updates_le) (by omega), ?_⟩
  rw [Nat.zero_add]
  refine okOr_bind_eq_ok.mpr ⟨_, checkedMul_eq_some.mpr ⟨rfl, by omega⟩, ?_⟩
  refine okOr_bind_eq_ok.mpr ⟨_, totalLength_of_lt (by omega), ?_⟩
  rw [← htotal]
  refine check_bind_eq_ok.mpr ⟨h.total_le, ?_⟩
  refine okOr_bind_eq_ok.mpr ⟨total, u64OfUsize_eq_some.mpr rfl, ?_⟩
  refine check_bind_eq_ok.mpr ⟨h.digest_eq, ?_⟩
  rw [h.bytes_eq]
  simp only [body, List.append_assoc]
  rfl

/-- The decoder finds a laid out record in its input. -/
theorem decodeExact_layout (h : decodeExact input limits = .ok record) :
    ∃ snapshotLen pendingCount lengths total,
      Layout record limits input snapshotLen pendingCount lengths total := by
  rw [decodeExact] at h
  dsimp only [enforceLimit] at h
  obtain ⟨_, h⟩ := check_bind_eq_ok.mp h
  obtain ⟨hmagic, h⟩ := check_bind_eq_ok.mp h
  obtain ⟨⟨found, c₁⟩, hfound, h⟩ := bind_eq_ok.mp h
  obtain ⟨rfl, h⟩ := check_bind_eq_ok.mp h
  obtain ⟨⟨flags, c₂⟩, hflags, h⟩ := bind_eq_ok.mp h
  obtain ⟨rfl, h⟩ := check_bind_eq_ok.mp h
  obtain ⟨⟨total, c₃⟩, htotal, h⟩ := bind_eq_ok.mp h
  dsimp only at h
  obtain ⟨hlarge, h⟩ := check_bind_eq_ok.mp h
  obtain ⟨hrecordLe, h⟩ := check_bind_eq_ok.mp h
  obtain ⟨_, h⟩ := check_bind_eq_ok.mp h
  obtain ⟨hlen, h⟩ := check_bind_eq_ok.mp h
  obtain ⟨trailerStart, htrailerStart, h⟩ := okOr_bind_eq_ok.mp h
  obtain ⟨_, rfl⟩ := checkedSub_eq_some.mp htrailerStart
  obtain ⟨⟨trailer, c₄⟩, htrailer, h⟩ := bind_eq_ok.mp h
  dsimp only at h
  obtain ⟨rfl, h⟩ := check_bind_eq_ok.mp h
  obtain ⟨crcStart, hcrcStart, h⟩ := okOr_bind_eq_ok.mp h
  obtain ⟨_, rfl⟩ := checkedSub_eq_some.mp hcrcStart
  obtain ⟨⟨crc, c₅⟩, hcrc, h⟩ := bind_eq_ok.mp h
  dsimp only at h
  obtain ⟨hchecksum, h⟩ := check_bind_eq_ok.mp h
  obtain ⟨digestStart, hdigestStart, h⟩ := okOr_bind_eq_ok.mp h
  obtain ⟨_, rfl⟩ := checkedSub_eq_some.mp hdigestStart
  obtain ⟨⟨roomBytes, c₆⟩, hroom, h⟩ := bind_eq_ok.mp h
  dsimp only at h
  obtain ⟨⟨checkpointGeneration, c₇⟩, hcheckpoint, h⟩ := bind_eq_ok.mp h
  dsimp only at h
  obtain ⟨⟨sourceGeneration, c₈⟩, hsource, h⟩ := bind_eq_ok.mp h
  dsimp only at h
  obtain ⟨⟨endOffset, c₉⟩, hendOffset, h⟩ := bind_eq_ok.mp h
  dsimp only at h
  obtain ⟨⟨snapshotWord, c₁₀⟩, hsnapshotWord, h⟩ := bind_eq_ok.mp h
  dsimp only at h
  obtain ⟨hsnapshotLe, h⟩ := check_bind_eq_ok.mp h
  obtain ⟨hsnapshotNe, h⟩ := check_bind_eq_ok.mp h
  obtain ⟨⟨count, c₁₁⟩, hcount, h⟩ := bind_eq_ok.mp h
  dsimp only at h
  obtain ⟨hcountLe, h⟩ := check_bind_eq_ok.mp h
  obtain ⟨⟨lengths, updatesLen, c₁₂⟩, hlengths, h⟩ := bind_eq_ok.mp h
  dsimp only at h
  obtain ⟨expected, hexpected, h⟩ := okOr_bind_eq_ok.mp h
  obtain ⟨declared, hdeclared, h⟩ := okOr_bind_eq_ok.mp h
  obtain ⟨_, h⟩ := check_bind_eq_ok.mp h
  obtain ⟨⟨snapshot, c₁₃⟩, hsnapshot, h⟩ := bind_eq_ok.mp h
  dsimp only at h
  obtain ⟨⟨updates, c₁₄⟩, hupdates, h⟩ := bind_eq_ok.mp h
  dsimp only at h
  obtain ⟨hend, h⟩ := check_bind_eq_ok.mp h
  obtain ⟨⟨digestBytes, c₁₅⟩, hdigestBytes, h⟩ := bind_eq_ok.mp h
  dsimp only at h
  obtain ⟨hdigest, h⟩ := check_bind_eq_ok.mp h
  obtain ⟨_, h⟩ := check_bind_eq_ok.mp h
  cases h
  obtain ⟨rfl, _, hd4⟩ := readU16At_eq_ok hfound
  obtain ⟨rfl, _, hd6⟩ := readU16At_eq_ok hflags
  obtain ⟨rfl, _, hd8⟩ := readU64At_eq_ok htotal
  obtain ⟨rfl, _, hroomLen, hdRoom⟩ := takeAt_eq_ok hroom
  obtain ⟨rfl, _, hdCheckpoint⟩ := readU64At_eq_ok hcheckpoint
  obtain ⟨rfl, _, hdSource⟩ := readU64At_eq_ok hsource
  obtain ⟨rfl, _, hdEnd⟩ := readU64At_eq_ok hendOffset
  obtain ⟨rfl, _, hdSnapshotLen⟩ := readU64At_eq_ok hsnapshotWord
  obtain ⟨rfl, hcountEnd, hdCount⟩ := readU32At_eq_ok hcount
  obtain ⟨words, rfl, hwords, rfl, _, hdTable, hfold⟩ := readTable_eq_ok hcountEnd hlengths
  obtain ⟨rfl, hsnapshotEnd, hsnapshotFit, hsnapshotLen, hdSnapshot⟩ := takeUntilAt_eq_ok hsnapshot
  obtain ⟨hmap, hblobsEnd, _, _, hdBlobs⟩ := takeEach_eq_ok hsnapshotFit hsnapshotEnd hupdates
  obtain ⟨rfl, _, hdigestLen, hdDigest⟩ := takeAt_eq_ok hdigestBytes
  obtain ⟨hc₅, _, hdCrc⟩ := readU32At_eq_ok hcrc
  obtain ⟨hc₄, _, hdTrailer⟩ := readU64At_eq_ok htrailer
  obtain ⟨hsum, heach, hsumLe⟩ := accumulateLengths_eq_ok hfold
  have hd0 : input = magic ++ input.drop 4 := by rw [← hmagic, List.take_append_drop]
  have hflatten : (words.map UInt32.toNat).sum = updates.flatten.length := by
    rw [hmap, List.length_flatten]
  have hcount : words.length = updates.length := by
    rw [← List.length_map UInt32.toNat, hmap, List.length_map]
  refine ⟨snapshotWord, count, words, trailer, ?_⟩
  generalize hrecord : (⟨ByteArr.ofBytes 32 roomBytes, checkpointGeneration, sourceGeneration,
    endOffset, snapshot, updates, ByteArr.ofBytes 32 digestBytes⟩ : CheckpointRecord) = record
  have hall : input = body record snapshotWord count words trailer ++
      input.drop (trailer.toNat - 12) := by
    rw [← hrecord, body]
    dsimp only
    rw [ByteArr.val_ofBytes hroomLen, ByteArr.val_ofBytes hdigestLen]
    simp only [List.append_assoc]
    conv_lhs => rw [hd0, hd4, hd6, hd8, hdRoom, hdCheckpoint, hdSource, hdEnd, hdSnapshotLen,
      hdCount, hdTable, hdSnapshot, hdBlobs, hdDigest]
    rw [hend, Nat.sub_add_cancel (by omega)]
  have hbody : input.take (trailer.toNat - 12) = body record snapshotWord count words trailer := by
    have hbodyLen := congrArg List.length hall
    rw [List.length_append, List.length_drop] at hbodyLen
    rw [hall]
    exact List.take_left' (by omega)
  have hsuffix : input.drop (trailer.toNat - 12) = be32 crc ++ be64 trailer := by
    have hstart : trailer.toNat - 12 + 4 = trailer.toNat - 8 := by omega
    rw [hdCrc, hc₅, hstart, hdTrailer, hc₄, Nat.sub_add_cancel (by omega), ← hlen, List.drop_length,
      List.append_nil]
  subst hrecord
  exact
    { snapshot_ne := List.ne_nil_of_length_pos (by dsimp only; omega)
      snapshot_le := hsnapshotLen.symm ▸ hsnapshotLe
      snapshot_length := hsnapshotLen.symm
      count_le := by rw [← hcount, hwords]; exact hcountLe
      count_length := by rw [← hwords, hcount]
      lengths_eq := hmap
      update_le := by
        rw [hmap, List.forall_mem_map] at heach
        intro update hmem
        exact (heach update hmem).imp_left fun hne hnil => hne (by rw [hnil]; rfl)
      updates_le := by
        rw [hmap, ne_eq, List.map_eq_nil_iff] at hsumLe
        dsimp only
        rw [← hflatten, ← Nat.zero_add (List.sum _), ← hsum]
        exact or_iff_not_imp_left.mpr hsumLe
      total_le := hrecordLe
      total_eq := by
        dsimp only
        omega
      digest_eq := hdigest
      bytes_eq := by rw [← hbody, hchecksum, ← hsuffix, List.take_append_drop] }

/-- A byte string decodes to a record exactly when the record encodes to it. -/
theorem decodeExact_eq_ok_iff :
    decodeExact input limits = .ok record ↔ record.encodeWithLimits limits = .ok input := by
  constructor
  · intro h
    obtain ⟨_, _, _, _, hlayout⟩ := decodeExact_layout h
    exact hlayout.encode
  · exact decodeExact_encode

end CheckpointRecord

end LoroGateway
