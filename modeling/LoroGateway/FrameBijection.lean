import LoroGateway.FrameCodec
import LoroGateway.Sample

/-!
# A decoded frame encodes to the bytes it came from

`Layout.encode` writes a laid out frame; `decodeOne_layout` reads the decoder
once and finds the layout in its input.  With the other direction of
`LoroGateway.FrameCodec`, decoding and encoding are inverse to each other, for
one frame and for a stream of frames.
-/

namespace LoroGateway

open ByteCodec

theorem utf8_of_fromUTF8 {bytes : Bytes} {s : String}
    (h : String.fromUTF8? ⟨bytes.toArray⟩ = some s) : utf8 s = bytes := by
  rw [String.fromUTF8?] at h
  split_ifs at h with hvalid
  cases h
  rfl

namespace DeltaFrame

open LoroGateway.Frame

/-! ## The length table and the blobs -/

theorem encodeLengths_of_map {updates : List Bytes} {lengths : List UInt32}
    (h : lengths.map UInt32.toNat = updates.map List.length) :
    encodeLengths updates = .ok lengths := by
  induction updates generalizing lengths with
  | nil =>
    rw [List.map_nil, List.map_eq_nil_iff] at h
    subst h
    rfl
  | cons update rest ih =>
    cases lengths with
    | nil => cases h
    | cons length lengths =>
      rw [List.map_cons, List.map_cons, List.cons.injEq] at h
      rw [encodeLengths, okOr_bind_eq_ok]
      exact ⟨length, u32OfUsize_eq_some.mpr h.1, bind_eq_ok.mpr ⟨lengths, ih h.2, rfl⟩⟩

theorem sumUpdates_of_le {limits : FrameLimits} {updates : List Bytes} {sum : Nat}
    (heach : ∀ update ∈ updates, update.length ≤ limits.maxUpdateBytes)
    (hword : sum + updates.flatten.length < wordSize) :
    sumUpdates limits sum updates = .ok (sum + updates.flatten.length) := by
  induction updates generalizing sum with
  | nil => rfl
  | cons update rest ih =>
    obtain ⟨hupdate, heach⟩ := List.forall_mem_cons.mp heach
    rw [List.flatten_cons, List.length_append] at hword ⊢
    rw [sumUpdates, enforceLimit, check_bind_eq_ok, okOr_bind_eq_ok]
    refine ⟨hupdate, _, checkedAdd_eq_some.mpr ⟨rfl, by omega⟩, ?_⟩
    rw [ih heach (by omega), Nat.add_assoc]

/-- The checks that the decoder made of the lengths. -/
theorem accumulateLengths_eq_ok {limits : FrameLimits} {lengths : List Nat} {sum total : Nat}
    (h : lengths.foldlM (accumulateLength limits) sum = .ok total) :
    total = sum + lengths.sum ∧ (∀ length ∈ lengths, length ≤ limits.maxUpdateBytes) ∧
      (lengths ≠ [] → total ≤ limits.maxUpdatesBytes) := by
  induction lengths generalizing sum with
  | nil =>
    cases h
    exact ⟨rfl, nofun, fun hne => absurd rfl hne⟩
  | cons length lengths ih =>
    rw [List.foldlM_cons] at h
    obtain ⟨next, hnext, h⟩ := bind_eq_ok.mp h
    rw [accumulateLength, enforceLimit, check_bind_eq_ok, okOr_bind_eq_ok] at hnext
    obtain ⟨hlength, sum', hsum, hnext⟩ := hnext
    obtain ⟨hlimit, hnext⟩ := check_bind_eq_ok.mp hnext
    cases hnext
    obtain ⟨rfl, _⟩ := checkedAdd_eq_some.mp hsum
    obtain ⟨htotal, heach, hle⟩ := ih h
    refine ⟨?_, List.forall_mem_cons.mpr ⟨hlength, heach⟩, fun _ => ?_⟩
    · rw [htotal, List.sum_cons, Nat.add_assoc]
    · cases lengths with
      | nil =>
        cases h
        exact hlimit
      | cons => exact hle (List.cons_ne_nil _ _)

/-! ## One frame -/

theorem totalLength_of_lt {producerLen tableLen updatesLen : Nat}
    (h : 90 + producerLen + tableLen + updatesLen < wordSize) :
    totalLength producerLen tableLen updatesLen =
      some (90 + producerLen + tableLen + updatesLen) := by
  simp only [totalLength, Option.bind_eq_bind, Option.bind_eq_some_iff, checkedAdd_eq_some,
    fixedPrefix, fixedSuffix]
  refine ⟨_, ⟨rfl, by omega⟩, _, ⟨rfl, by omega⟩, _, ⟨rfl, by omega⟩, _, ⟨rfl, by omega⟩, _,
    ⟨rfl, by omega⟩, by omega, by omega⟩

variable [Hashing] {frame : DeltaFrame} {limits : FrameLimits} {input bytes : Bytes}

/-- The encoder writes a frame that is laid out. -/
theorem Layout.encode {producerLen : UInt16} {updateCount : UInt32} {lengths : List UInt32}
    {total : UInt64} (h : Layout frame limits bytes producerLen updateCount lengths total) :
    frame.encodeWithLimits limits = .ok bytes := by
  have htotal := h.total_eq
  have hword : total.toNat < wordSize := total.toNat_lt
  rw [encodeWithLimits]
  dsimp only [enforceLimit]
  rw [check_bind_eq_ok, check_bind_eq_ok, check_bind_eq_ok, check_bind_eq_ok]
  refine ⟨h.id_ne, h.id_le, h.updates_ne, h.count_le, ?_⟩
  refine okOr_bind_eq_ok.mpr ⟨producerLen, u16OfUsize_eq_some.mpr h.id_length, ?_⟩
  refine okOr_bind_eq_ok.mpr ⟨updateCount, u32OfUsize_eq_some.mpr h.count_length, ?_⟩
  refine bind_eq_ok.mpr ⟨lengths, encodeLengths_of_map h.lengths_eq, ?_⟩
  refine bind_eq_ok.mpr ⟨_, sumUpdates_of_le h.update_le (by omega), ?_⟩
  rw [Nat.zero_add]
  refine check_bind_eq_ok.mpr ⟨h.updates_le, ?_⟩
  refine okOr_bind_eq_ok.mpr ⟨_, checkedMul_eq_some.mpr ⟨rfl, by omega⟩, ?_⟩
  rw [h.id_length]
  refine okOr_bind_eq_ok.mpr ⟨_, totalLength_of_lt (by omega), ?_⟩
  rw [← htotal]
  refine check_bind_eq_ok.mpr ⟨h.total_le, ?_⟩
  refine okOr_bind_eq_ok.mpr ⟨total, u64OfUsize_eq_some.mpr rfl, ?_⟩
  rw [h.bytes_eq]
  simp only [body, List.append_assoc]
  rfl

/-- The decoder finds a laid out frame at the start of its input. -/
theorem decodeOne_layout {consumed : Nat}
    (h : decodeOneWithLimits input limits = .ok (frame, consumed)) :
    consumed ≤ input.length ∧ frame.digest = updateDigest frame.updates ∧
      ∃ producerLen updateCount lengths total,
        Layout frame limits (input.take consumed) producerLen updateCount lengths total := by
  rw [decodeOneWithLimits] at h
  dsimp only [enforceLimit] at h
  obtain ⟨_, hmagic, h⟩ := (check_bind_eq_ok.trans (and_congr_right fun _ => check_bind_eq_ok)).mp h
  obtain ⟨⟨found, c₁⟩, hfound, h⟩ := bind_eq_ok.mp h
  obtain ⟨rfl, h⟩ := check_bind_eq_ok.mp h
  obtain ⟨⟨flags, c₂⟩, hflags, h⟩ := bind_eq_ok.mp h
  obtain ⟨rfl, h⟩ := check_bind_eq_ok.mp h
  obtain ⟨⟨total, c₃⟩, htotal, h⟩ := bind_eq_ok.mp h
  dsimp only at h
  obtain ⟨hlarge, h⟩ := check_bind_eq_ok.mp h
  obtain ⟨hframeLe, h⟩ := check_bind_eq_ok.mp h
  obtain ⟨hfit, h⟩ := check_bind_eq_ok.mp h
  obtain ⟨rfl, _, hd4⟩ := readU16At_eq_ok hfound
  obtain ⟨rfl, _, hd6⟩ := readU16At_eq_ok hflags
  obtain ⟨rfl, _, hd8⟩ := readU64At_eq_ok htotal
  rw [fixedPrefix, fixedSuffix] at hlarge
  have hd4 := drop_take_of_drop total.toNat hd4 (by rw [length_be16]) (by omega)
  have hd6 := drop_take_of_drop total.toNat hd6 (by rw [length_be16]) (by omega)
  have hd8 := drop_take_of_drop total.toNat hd8 (by rw [length_be64]) (by omega)
  have hd0 : input.take total.toNat = magic ++ (input.take total.toNat).drop 4 := by
    have htake : (input.take total.toNat).take 4 = magic := by
      rw [List.take_take, Nat.min_eq_left (by omega), hmagic]
    rw [← htake, List.take_append_drop]
  have hlen : (input.take total.toNat).length = total.toNat := by
    rw [List.length_take]
    omega
  generalize hx : input.take total.toNat = x at *
  obtain ⟨trailerStart, htrailerStart, h⟩ := okOr_bind_eq_ok.mp h
  obtain ⟨_, rfl⟩ := checkedSub_eq_some.mp htrailerStart
  obtain ⟨⟨trailer, c₄⟩, htrailer, h⟩ := bind_eq_ok.mp h
  dsimp only at h
  obtain ⟨rfl, h⟩ := check_bind_eq_ok.mp h
  obtain ⟨crcStart, hcrcStart, h⟩ := okOr_bind_eq_ok.mp h
  obtain ⟨_, rfl⟩ := checkedSub_eq_some.mp hcrcStart
  obtain ⟨⟨crc, c₅⟩, hcrc, h⟩ := bind_eq_ok.mp h
  dsimp only at h
  obtain ⟨hchecksum, h⟩ := check_bind_eq_ok.mp h
  obtain ⟨⟨producerLen, c₆⟩, hproducerLen, h⟩ := bind_eq_ok.mp h
  dsimp only at h
  obtain ⟨hidLe, h⟩ := check_bind_eq_ok.mp h
  obtain ⟨⟨producerBytes, c₇⟩, hproducer, h⟩ := bind_eq_ok.mp h
  dsimp only at h
  obtain ⟨producerId, hid, h⟩ := okOr_bind_eq_ok.mp h
  obtain ⟨hidNe, h⟩ := check_bind_eq_ok.mp h
  obtain ⟨⟨epoch, c₈⟩, hepoch, h⟩ := bind_eq_ok.mp h
  dsimp only at h
  obtain ⟨⟨sequence, c₉⟩, hsequence, h⟩ := bind_eq_ok.mp h
  dsimp only at h
  obtain ⟨⟨batchBytes, c₁₀⟩, hbatch, h⟩ := bind_eq_ok.mp h
  dsimp only at h
  obtain ⟨⟨count, c₁₁⟩, hcount, h⟩ := bind_eq_ok.mp h
  dsimp only at h
  obtain ⟨hcountNe, h⟩ := check_bind_eq_ok.mp h
  obtain ⟨hcountLe, h⟩ := check_bind_eq_ok.mp h
  obtain ⟨payloadEnd, hpayloadEnd, h⟩ := okOr_bind_eq_ok.mp h
  obtain ⟨_, rfl⟩ := checkedSub_eq_some.mp hpayloadEnd
  obtain ⟨tableBytes, htableBytes, h⟩ := okOr_bind_eq_ok.mp h
  obtain ⟨tableEnd, htableEnd, h⟩ := okOr_bind_eq_ok.mp h
  obtain ⟨⟨lengths, updatesLen, c₁₂⟩, hlengths, h⟩ := bind_eq_ok.mp h
  dsimp only at h
  obtain ⟨declaredLen, hdeclaredLen, h⟩ := okOr_bind_eq_ok.mp h
  obtain ⟨hdeclared, h⟩ := check_bind_eq_ok.mp h
  obtain ⟨⟨updates, c₁₃⟩, hupdates, h⟩ := bind_eq_ok.mp h
  dsimp only at h
  obtain ⟨hend, h⟩ := check_bind_eq_ok.mp h
  obtain ⟨⟨digestBytes, c₁₄⟩, hdigestBytes, h⟩ := bind_eq_ok.mp h
  dsimp only at h
  obtain ⟨hdigest, h⟩ := check_bind_eq_ok.mp h
  cases h
  obtain ⟨rfl, _, hd16⟩ := readU16At_eq_ok hproducerLen
  obtain ⟨rfl, _, hidLen, hd18⟩ := takeAt_eq_ok hproducer
  obtain ⟨rfl, _, hdEpoch⟩ := readU64At_eq_ok hepoch
  obtain ⟨rfl, _, hdSequence⟩ := readU64At_eq_ok hsequence
  obtain ⟨rfl, _, hbatchLen, hdBatch⟩ := takeAt_eq_ok hbatch
  obtain ⟨rfl, hcountEnd, hdCount⟩ := readU32At_eq_ok hcount
  obtain ⟨words, rfl, hwords, rfl, htableFit, hdTable, hfold⟩ := readTable_eq_ok hcountEnd hlengths
  obtain ⟨htableEnd, htableLe⟩ := Option.filter_eq_some_iff.mp htableEnd
  obtain ⟨rfl, _⟩ := checkedAdd_eq_some.mp htableEnd
  obtain ⟨rfl, _⟩ := checkedMul_eq_some.mp htableBytes
  rw [decide_eq_true_iff] at htableLe
  obtain ⟨hmap, hblobsEnd, _, _, hdBlobs⟩ := takeEach_eq_ok htableFit (by omega) hupdates
  obtain ⟨rfl, _, hdigestLen, hdDigest⟩ := takeAt_eq_ok hdigestBytes
  obtain ⟨hc₅, _, hdCrc⟩ := readU32At_eq_ok hcrc
  obtain ⟨hc₄, _, hdTrailer⟩ := readU64At_eq_ok htrailer
  have hutf8 := utf8_of_fromUTF8 hid
  subst hutf8
  obtain ⟨hsum, heach, hsumLe⟩ := accumulateLengths_eq_ok hfold
  refine ⟨hfit, hdigest, producerLen, count, words, trailer, ?_⟩
  have hflatten : (words.map UInt32.toNat).sum = updates.flatten.length := by
    rw [hmap, List.length_flatten]
  have hcount : words.length = updates.length := by
    rw [← List.length_map UInt32.toNat, hmap, List.length_map]
  have hall : x = body ⟨⟨producerId, epoch, sequence⟩, .ofBytes 8 batchBytes, updates,
      .ofBytes 32 digestBytes⟩ producerLen count words trailer ++ x.drop (trailer.toNat - 12) := by
    rw [body]
    dsimp only
    rw [ByteArr.val_ofBytes hbatchLen, ByteArr.val_ofBytes hdigestLen]
    simp only [List.append_assoc]
    conv_lhs => rw [hd0, hd4, hd6, hd8, hd16, hd18, hdEpoch, hdSequence, hdBatch, hdCount, hdTable,
      hdBlobs, hdDigest]
    rw [hend, Nat.sub_add_cancel (by omega)]
  have hbody : x.take (trailer.toNat - 12) = body ⟨⟨producerId, epoch, sequence⟩,
      .ofBytes 8 batchBytes, updates, .ofBytes 32 digestBytes⟩ producerLen count words trailer := by
    have hbodyLen := congrArg List.length hall
    rw [List.length_append, List.length_drop] at hbodyLen
    rw [hall]
    exact List.take_left' (by omega)
  have hsuffix : x.drop (trailer.toNat - 12) = be32 crc ++ be64 trailer := by
    have hstart : trailer.toNat - 12 + 4 = trailer.toNat - 8 := by omega
    rw [hdCrc, hc₅, hstart, hdTrailer, hc₄, Nat.sub_add_cancel (by omega), ← hlen, List.drop_length,
      List.append_nil]
  exact
    { id_ne := hidNe
      id_le := hidLen.symm ▸ hidLe
      id_length := hidLen.symm
      updates_ne := by
        rintro rfl
        exact hcountNe (hwords ▸ hcount)
      count_le := by rw [← hcount, hwords]; exact hcountLe
      count_length := by rw [← hwords, hcount]
      lengths_eq := hmap
      update_le := by
        rw [hmap, List.forall_mem_map] at heach
        exact heach
      updates_le := by
        rw [← hflatten, ← Nat.zero_add (List.sum _), ← hsum]
        refine hsumLe fun hnil => hcountNe ?_
        rw [← hwords, ← List.length_map UInt32.toNat, hnil]
        rfl
      total_le := hframeLe
      total_eq := by
        dsimp only
        omega
      bytes_eq := by rw [hx, ← hbody, hchecksum, ← hsuffix, List.take_append_drop] }

/-- A frame that has been decoded is valid, and its encoding is what was consumed. -/
theorem decodeOne_eq_ok {consumed : Nat}
    (h : decodeOneWithLimits input limits = .ok (frame, consumed)) :
    consumed ≤ input.length ∧ frame.Valid limits ∧ frame.encoded limits = input.take consumed := by
  obtain ⟨hfit, hdigest, _, _, _, _, hlayout⟩ := decodeOne_layout h
  exact ⟨hfit, ⟨hdigest, _, hlayout.encode⟩, encoded_eq hlayout.encode⟩

end DeltaFrame

/-! ## Streams of frames -/

section Stream

variable [Hashing] {limits : FrameLimits} {frames : List DeltaFrame} {input : Bytes}

theorem decodeFrames_eq_ok {fuel : Nat} {offset : UInt64}
    (h : decodeFrames limits fuel input offset = .ok frames) :
    (∀ frame ∈ frames, frame.Valid limits) ∧ input = logBytes limits frames := by
  induction fuel generalizing input offset frames with
  | zero => cases h
  | succ fuel ih =>
    rw [decodeFrames] at h
    split_ifs at h with hempty
    · cases h
      exact ⟨List.forall_mem_nil _, hempty⟩
    · obtain ⟨⟨frame, consumed⟩, hone, h⟩ := bind_eq_ok.mp h
      obtain ⟨_, h⟩ := check_bind_eq_ok.mp h
      obtain ⟨_, _, h⟩ := okOr_bind_eq_ok.mp h
      obtain ⟨_, _, h⟩ := okOr_bind_eq_ok.mp h
      obtain ⟨rest, hrest, h⟩ := bind_eq_ok.mp h
      rw [mapError_eq_ok] at hone
      cases h
      obtain ⟨_, hvalid, hbytes⟩ := DeltaFrame.decodeOne_eq_ok hone
      obtain ⟨hvalids, hdrop⟩ := ih hrest
      refine ⟨List.forall_mem_cons.mpr ⟨hvalid, hvalids⟩, ?_⟩
      rw [logBytes_cons, hbytes, ← hdrop, List.take_append_drop]

/-- What decodes is the concatenation of the encodings of valid frames. -/
theorem decodeAll_eq_logBytes (h : decodeAllWithLimits input limits = .ok frames) :
    (∀ frame ∈ frames, frame.Valid limits) ∧ input = logBytes limits frames := by
  rw [decodeAllWithLimits, Frame.enforceLimit, check_bind_eq_ok] at h
  exact decodeFrames_eq_ok h.2

/-- A byte string decodes to a list of frames exactly when it is short enough and
is the concatenation of the encodings of these frames, which all carry the
digest of their updates. -/
theorem decodeAllWithLimits_eq_ok_iff (hlimits : limits.maxStreamBytes < wordSize) :
    decodeAllWithLimits input limits = .ok frames ↔
      input.length ≤ limits.maxStreamBytes ∧
        (∀ frame ∈ frames, frame.digest = Frame.updateDigest frame.updates ∧
          frame.encodeWithLimits limits = .ok (frame.encoded limits)) ∧
        input = frames.flatMap fun frame => frame.encoded limits := by
  constructor
  · intro h
    obtain ⟨hvalid, hbytes⟩ := decodeAll_eq_logBytes h
    rw [decodeAllWithLimits, Frame.enforceLimit, check_bind_eq_ok] at h
    refine ⟨h.1, fun frame hmem => ?_, hbytes⟩
    have hframe := hvalid frame hmem
    exact ⟨hframe.digest_eq, hframe.encode_eq⟩
  · rintro ⟨hlength, hencode, rfl⟩
    have hvalid : ∀ frame ∈ frames, frame.Valid limits := by
      intro frame hmem
      obtain ⟨hdigest, hbytes⟩ := hencode frame hmem
      exact ⟨hdigest, _, hbytes⟩
    exact (decodeAll_logBytes hvalid (Nat.lt_of_le_of_lt hlength hlimits)).trans (if_pos hlength)

end Stream

open Sample

/-- A frame with two updates. -/
def sampleFrame : DeltaFrame := .new ⟨"p", 0, 0⟩ (ByteArr.zero 8) [[1, 0], [1, 1]]

/-- Two frames in a stream. -/
theorem decodeAllWithLimits_eq_ok_iff_sample :
    decodeAllWithLimits ([sampleFrame, sampleFrame].flatMap fun frame => frame.encoded .default)
      .default = .ok [sampleFrame, sampleFrame] :=
  (decodeAllWithLimits_eq_ok_iff (by decide)).mpr
    ⟨by decide +kernel, by decide +kernel, rfl⟩

end LoroGateway
