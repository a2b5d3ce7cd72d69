import LoroGateway.Frame

/-!
# An encoded frame decodes to itself

`encode_layout` reads the encoder once: what it checked, and the bytes it wrote,
field by field.  `decodeOne_encode` walks the decoder over these fields.  The
rest of the module carries the result to a stream of frames.
-/

namespace LoroGateway

open ByteCodec

theorem fromUTF8_utf8 (s : String) : String.fromUTF8? ⟨(utf8 s).toArray⟩ = some s := by
  have hbytes : (⟨(utf8 s).toArray⟩ : ByteArray) = s.toByteArray := by
    rw [utf8, Array.toArray_toList]
  rw [hbytes, String.fromUTF8?, dif_pos s.isValidUTF8]
  rfl

namespace DeltaFrame

open LoroGateway.Frame

/-! ## The length table and the blobs -/

theorem encodeLengths_eq_ok {updates : List Bytes} {lengths : List UInt32}
    (h : encodeLengths updates = .ok lengths) :
    lengths.map UInt32.toNat = updates.map List.length := by
  induction updates generalizing lengths with
  | nil =>
    cases h
    rfl
  | cons update rest ih =>
    rw [encodeLengths, okOr_bind_eq_ok] at h
    obtain ⟨length, hlength, h⟩ := h
    obtain ⟨lengths', hlengths, h⟩ := bind_eq_ok.mp h
    cases h
    rw [List.map_cons, List.map_cons, ih hlengths, u32OfUsize_eq_some.mp hlength]

theorem sumUpdates_eq_ok {limits : FrameLimits} {updates : List Bytes} {sum total : Nat}
    (h : sumUpdates limits sum updates = .ok total) :
    total = sum + updates.flatten.length ∧
      ∀ update ∈ updates, update.length ≤ limits.maxUpdateBytes := by
  induction updates generalizing sum with
  | nil =>
    cases h
    exact ⟨rfl, nofun⟩
  | cons update rest ih =>
    rw [sumUpdates, enforceLimit, check_bind_eq_ok, okOr_bind_eq_ok] at h
    obtain ⟨hlimit, next, hnext, h⟩ := h
    obtain ⟨htotal, hrest⟩ := ih h
    refine ⟨?_, List.forall_mem_cons.mpr ⟨hlimit, hrest⟩⟩
    rw [htotal, (checkedAdd_eq_some.mp hnext).1, List.flatten_cons, List.length_append]
    omega

theorem accumulateLengths {limits : FrameLimits} {lengths : List Nat} {sum : Nat}
    (heach : ∀ length ∈ lengths, length ≤ limits.maxUpdateBytes)
    (hsum : sum + lengths.sum ≤ limits.maxUpdatesBytes) (hword : sum + lengths.sum < wordSize) :
    lengths.foldlM (accumulateLength limits) sum = .ok (sum + lengths.sum) := by
  induction lengths generalizing sum with
  | nil => rfl
  | cons length lengths ih =>
    obtain ⟨hlength, heach⟩ := List.forall_mem_cons.mp heach
    rw [List.sum_cons] at hsum hword ⊢
    rw [List.foldlM_cons]
    refine bind_eq_ok.mpr ⟨sum + length, ?_, ?_⟩
    · rw [accumulateLength, enforceLimit, check_bind_eq_ok, okOr_bind_eq_ok]
      refine ⟨hlength, _, checkedAdd_eq_some.mpr ⟨rfl, by omega⟩, ?_⟩
      exact check_bind_eq_ok.mpr ⟨by omega, rfl⟩
    · rw [ih heach (by omega) (by omega), Nat.add_assoc]

/-! ## One frame -/

/-- The fields of a frame before the checksum. -/
def body (frame : DeltaFrame) (producerLen : UInt16) (updateCount : UInt32) (lengths : List UInt32)
    (total : UInt64) : Bytes :=
  magic ++ (be16 version ++ (be16 0 ++ (be64 total ++ (be16 producerLen ++ (utf8 frame.producer.id ++
    (be64 frame.producer.epoch ++ (be64 frame.producer.sequence ++ (frame.batchId.val ++
      (be32 updateCount ++ (lengths.flatMap be32 ++ (frame.updates.flatten ++
        frame.digest.val)))))))))))

/-- What the encoder checked, and the bytes it wrote. -/
structure Layout [Hashing] (frame : DeltaFrame) (limits : FrameLimits) (bytes : Bytes)
    (producerLen : UInt16) (updateCount : UInt32) (lengths : List UInt32) (total : UInt64) :
    Prop where
  id_ne : utf8 frame.producer.id ≠ []
  id_le : (utf8 frame.producer.id).length ≤ limits.maxProducerIdBytes
  id_length : producerLen.toNat = (utf8 frame.producer.id).length
  updates_ne : frame.updates ≠ []
  count_le : frame.updates.length ≤ limits.maxUpdates
  count_length : updateCount.toNat = frame.updates.length
  lengths_eq : lengths.map UInt32.toNat = frame.updates.map List.length
  update_le : ∀ update ∈ frame.updates, update.length ≤ limits.maxUpdateBytes
  updates_le : frame.updates.flatten.length ≤ limits.maxUpdatesBytes
  total_le : total.toNat ≤ limits.maxFrameBytes
  total_eq : total.toNat = 90 + (utf8 frame.producer.id).length + lengths.length * 4 +
    frame.updates.flatten.length
  bytes_eq : bytes = body frame producerLen updateCount lengths total ++
    (be32 (Hashing.crc32 (body frame producerLen updateCount lengths total)) ++ be64 total)

theorem totalLength_eq_some {producerLen tableLen updatesLen total : Nat}
    (h : totalLength producerLen tableLen updatesLen = some total) :
    total = 90 + producerLen + tableLen + updatesLen := by
  simp only [totalLength, Option.bind_eq_bind, Option.bind_eq_some_iff, checkedAdd_eq_some,
    fixedPrefix, fixedSuffix] at h
  obtain ⟨_, ⟨rfl, _⟩, _, ⟨rfl, _⟩, _, ⟨rfl, _⟩, _, ⟨rfl, _⟩, _, ⟨rfl, _⟩, rfl, _⟩ := h
  omega

variable [Hashing] {frame : DeltaFrame} {limits : FrameLimits} {bytes : Bytes}

theorem encode_layout (h : frame.encodeWithLimits limits = .ok bytes) :
    ∃ producerLen updateCount lengths total,
      Layout frame limits bytes producerLen updateCount lengths total := by
  rw [encodeWithLimits] at h
  dsimp only [enforceLimit] at h
  rw [check_bind_eq_ok, check_bind_eq_ok, check_bind_eq_ok, check_bind_eq_ok] at h
  obtain ⟨hid, hidLe, hupdates, hcount, h⟩ := h
  obtain ⟨producerLen, hproducerLen, h⟩ := okOr_bind_eq_ok.mp h
  obtain ⟨updateCount, hupdateCount, h⟩ := okOr_bind_eq_ok.mp h
  obtain ⟨lengths, hlengths, h⟩ := bind_eq_ok.mp h
  obtain ⟨updatesLen, hsum, h⟩ := bind_eq_ok.mp h
  obtain ⟨hupdatesLen, h⟩ := check_bind_eq_ok.mp h
  obtain ⟨tableLen, htable, h⟩ := okOr_bind_eq_ok.mp h
  obtain ⟨totalLen, htotal, h⟩ := okOr_bind_eq_ok.mp h
  obtain ⟨hframe, h⟩ := check_bind_eq_ok.mp h
  obtain ⟨total, htotalWord, h⟩ := okOr_bind_eq_ok.mp h
  obtain ⟨hsumEq, heach⟩ := sumUpdates_eq_ok hsum
  rw [u16OfUsize_eq_some] at hproducerLen
  rw [u32OfUsize_eq_some] at hupdateCount
  rw [u64OfUsize_eq_some] at htotalWord
  have hupdatesEq : updatesLen = frame.updates.flatten.length := by omega
  have htotalEq := totalLength_eq_some htotal
  rw [(checkedMul_eq_some.mp htable).1, hproducerLen, hupdatesEq, ← htotalWord] at htotalEq
  refine ⟨producerLen, updateCount, lengths, total, hid, hidLe, hproducerLen, hupdates, hcount,
    hupdateCount, encodeLengths_eq_ok hlengths, heach, hupdatesEq ▸ hupdatesLen,
    htotalWord ▸ hframe, htotalEq, ?_⟩
  cases h
  simp only [body, List.append_assoc]

namespace Layout

variable {producerLen : UInt16} {updateCount : UInt32} {lengths : List UInt32} {total : UInt64}

theorem lengths_length (h : Layout frame limits bytes producerLen updateCount lengths total) :
    lengths.length = frame.updates.length := by
  rw [← List.length_map UInt32.toNat, h.lengths_eq, List.length_map]

theorem body_length (h : Layout frame limits bytes producerLen updateCount lengths total) :
    (body frame producerLen updateCount lengths total).length = total.toNat - 12 := by
  have htable : (lengths.flatMap be32).length = lengths.length * 4 := by
    simp [List.length_flatMap]
  have hmagic : magic.length = 4 := by decide
  simp only [body, List.length_append, length_be16, length_be32, length_be64, htable, hmagic,
    frame.batchId.property, frame.digest.property]
  have := h.total_eq
  omega

theorem length_eq (h : Layout frame limits bytes producerLen updateCount lengths total) :
    bytes.length = total.toNat := by
  rw [h.bytes_eq, List.length_append, List.length_append, h.body_length, length_be32, length_be64]
  have := h.total_eq
  omega

theorem sum_eq (h : Layout frame limits bytes producerLen updateCount lengths total) :
    (lengths.map UInt32.toNat).sum = frame.updates.flatten.length := by
  rw [h.lengths_eq, List.length_flatten]

/-- The header of a frame is read from any input that the frame starts. -/
theorem decode_header (h : Layout frame limits bytes producerLen updateCount lengths total)
    (rest : Bytes) :
    (bytes ++ rest).take 4 = magic ∧
      ∃ tail, (bytes ++ rest).drop 4 = be16 version ++ (be16 0 ++ (be64 total ++ tail)) := by
  have hmagic : magic.length = 4 := by decide
  rw [h.bytes_eq, body]
  simp only [List.append_assoc]
  exact ⟨List.take_left' hmagic, _, List.drop_left' hmagic⟩

/-- The payload of a frame, from the length of the producer id on. -/
theorem decode_payload (h : Layout frame limits bytes producerLen updateCount lengths total) :
    bytes.drop 16 = be16 producerLen ++ (utf8 frame.producer.id ++ (be64 frame.producer.epoch ++
      (be64 frame.producer.sequence ++ (frame.batchId.val ++ (be32 updateCount ++
        (lengths.flatMap be32 ++ (frame.updates.flatten ++ (frame.digest.val ++
          (be32 (Hashing.crc32 (body frame producerLen updateCount lengths total)) ++
            be64 total))))))))) := by
  have hhead : (magic ++ (be16 version ++ (be16 0 ++ be64 total))).length = 16 := by
    have hmagic : magic.length = 4 := by decide
    simp only [List.length_append, length_be16, length_be64, hmagic]
  generalize hcrc : Hashing.crc32 (body frame producerLen updateCount lengths total) = crc
  have hbytes := h.bytes_eq
  rw [hcrc, body] at hbytes
  refine (congrArg (List.drop 16) ?_).trans (List.drop_left' hhead)
  rw [hbytes]
  simp only [List.append_assoc]

/-- The checksum and the trailer. -/
theorem decode_suffix (h : Layout frame limits bytes producerLen updateCount lengths total) :
    bytes.take (total.toNat - 12) = body frame producerLen updateCount lengths total ∧
      bytes.drop (total.toNat - 12) =
        be32 (Hashing.crc32 (body frame producerLen updateCount lengths total)) ++ be64 total := by
  rw [← h.body_length, h.bytes_eq]
  exact ⟨List.take_left, List.drop_left⟩

end Layout

/-- A frame that the encoder accepts is read back from its bytes. -/
theorem decodeOne_encode (rest : Bytes) (hencode : frame.encodeWithLimits limits = .ok bytes)
    (hdigest : frame.digest = updateDigest frame.updates)
    (hword : (bytes ++ rest).length < wordSize) :
    decodeOneWithLimits (bytes ++ rest) limits = .ok (frame, bytes.length) := by
  obtain ⟨producerLen, updateCount, lengths, total, h⟩ := encode_layout hencode
  have hlen := h.length_eq
  have htotal := h.total_eq
  have hinput : (bytes ++ rest).length = bytes.length + rest.length := List.length_append
  have hbytesWord : bytes.length < wordSize := by omega
  obtain ⟨hmagic, tail, hd4⟩ := h.decode_header rest
  have hd6 := drop_add_of_drop hd4 (length_be16 _)
  have hd8 := drop_add_of_drop hd6 (length_be16 _)
  have hframe : (bytes ++ rest).take total.toNat = bytes := by rw [← hlen, List.take_left]
  obtain ⟨hbody, hcrc⟩ := h.decode_suffix
  have htrailer : bytes.drop (total.toNat - 8) = be64 total ++ [] := by
    have hcursor : total.toNat - 8 = total.toNat - 12 + 4 := by omega
    rw [hcursor, drop_add_of_drop hcrc (length_be32 _), List.append_nil]
  have hpl := h.decode_payload
  have hid := drop_add_of_drop hpl (length_be16 _)
  have hepoch := drop_add_of_drop hid h.id_length.symm
  have hseq := drop_add_of_drop hepoch (length_be64 _)
  have hbatch := drop_add_of_drop hseq (length_be64 _)
  have hcount := drop_add_of_drop hbatch frame.batchId.property
  have htable := drop_add_of_drop hcount (length_be32 _)
  have htableLen : (lengths.flatMap be32).length = 4 * lengths.length := by
    simp [List.length_flatMap, Nat.mul_comm]
  have hblobs := drop_add_of_drop htable htableLen
  have hdig := drop_add_of_drop hblobs rfl
  have hcountNe : updateCount.toNat ≠ 0 := by
    rw [h.count_length]
    exact fun hzero => h.updates_ne (List.length_eq_zero_iff.mp hzero)
  have hlengths := h.lengths_length
  have hsum := h.sum_eq
  have heach : ∀ length ∈ lengths.map UInt32.toNat, length ≤ limits.maxUpdateBytes := by
    rw [h.lengths_eq, List.forall_mem_map]
    exact h.update_le
  have haccum := accumulateLengths heach (by rw [hsum, Nat.zero_add]; exact h.updates_le) (by omega)
  rw [decodeOneWithLimits]
  dsimp only [enforceLimit]
  rw [check_bind_eq_ok, check_bind_eq_ok]
  refine ⟨by rw [hinput, fixedPrefix, fixedSuffix]; omega, hmagic, ?_⟩
  refine bind_eq_ok.mpr ⟨_, readU16At_of_drop hword (by omega) hd4, ?_⟩
  dsimp only
  refine check_bind_eq_ok.mpr ⟨rfl, ?_⟩
  refine bind_eq_ok.mpr ⟨_, readU16At_of_drop hword (by omega) hd6, ?_⟩
  dsimp only
  refine check_bind_eq_ok.mpr ⟨rfl, ?_⟩
  refine bind_eq_ok.mpr ⟨_, readU64At_of_drop hword (by omega) hd8, ?_⟩
  dsimp only
  rw [check_bind_eq_ok, check_bind_eq_ok, check_bind_eq_ok, hframe]
  refine ⟨by rw [fixedPrefix, fixedSuffix]; omega, h.total_le, by omega, ?_⟩
  refine okOr_bind_eq_ok.mpr ⟨_, checkedSub_eq_some.mpr ⟨by omega, rfl⟩, ?_⟩
  refine bind_eq_ok.mpr ⟨_, readU64At_of_drop hbytesWord (by omega) htrailer, ?_⟩
  dsimp only
  refine check_bind_eq_ok.mpr ⟨rfl, ?_⟩
  refine okOr_bind_eq_ok.mpr ⟨_, checkedSub_eq_some.mpr ⟨by omega, rfl⟩, ?_⟩
  refine bind_eq_ok.mpr ⟨_, readU32At_of_drop hbytesWord (by omega) hcrc, ?_⟩
  dsimp only
  refine check_bind_eq_ok.mpr ⟨by rw [hbody], ?_⟩
  refine bind_eq_ok.mpr ⟨_, readU16At_of_drop hbytesWord (by omega) hpl, ?_⟩
  dsimp only
  refine check_bind_eq_ok.mpr ⟨h.id_length ▸ h.id_le, ?_⟩
  refine bind_eq_ok.mpr ⟨_, takeAt_of_drop hbytesWord (by omega) hid h.id_length.symm, ?_⟩
  dsimp only
  refine okOr_bind_eq_ok.mpr ⟨_, fromUTF8_utf8 _, ?_⟩
  refine check_bind_eq_ok.mpr ⟨h.id_ne, ?_⟩
  have hidLen := h.id_length
  refine bind_eq_ok.mpr ⟨_, readU64At_of_drop hbytesWord (by omega) hepoch, ?_⟩
  dsimp only
  refine bind_eq_ok.mpr ⟨_, readU64At_of_drop hbytesWord (by omega) hseq, ?_⟩
  dsimp only
  refine bind_eq_ok.mpr
    ⟨_, takeAt_of_drop hbytesWord (by omega) hbatch frame.batchId.property, ?_⟩
  dsimp only
  refine bind_eq_ok.mpr ⟨_, readU32At_of_drop hbytesWord (by omega) hcount, ?_⟩
  dsimp only
  rw [check_bind_eq_ok, check_bind_eq_ok, h.count_length, ← hlengths]
  refine ⟨by rw [hlengths, ← h.count_length]; exact hcountNe, hlengths ▸ h.count_le, ?_⟩
  refine okOr_bind_eq_ok.mpr ⟨_, checkedSub_eq_some.mpr ⟨by omega, rfl⟩, ?_⟩
  refine okOr_bind_eq_ok.mpr ⟨_, checkedMul_eq_some.mpr ⟨rfl, by omega⟩, ?_⟩
  have hcursor : 4 + 2 + 2 + 8 + 2 + producerLen.toNat + 8 + 8 + 8 + 4 + lengths.length * 4 ≤
      total.toNat - 12 - 32 := by omega
  refine okOr_bind_eq_ok.mpr
    ⟨_, Option.filter_eq_some_iff.mpr ⟨checkedAdd_eq_some.mpr ⟨rfl, by omega⟩, by simpa using hcursor⟩, ?_⟩
  refine bind_eq_ok.mpr ⟨_, readTable_of_drop hbytesWord (by omega) htable haccum, ?_⟩
  dsimp only
  refine okOr_bind_eq_ok.mpr ⟨_, checkedSub_eq_some.mpr ⟨hcursor, rfl⟩, ?_⟩
  refine check_bind_eq_ok.mpr ⟨by omega, ?_⟩
  rw [h.lengths_eq]
  refine bind_eq_ok.mpr ⟨_, takeEach_of_drop hbytesWord (by omega) hblobs (by omega), ?_⟩
  dsimp only
  refine check_bind_eq_ok.mpr ⟨by omega, ?_⟩
  refine bind_eq_ok.mpr
    ⟨_, takeAt_of_drop hbytesWord (by omega) hdig frame.digest.property, ?_⟩
  dsimp only
  rw [ByteArr.ofBytes_val, ByteArr.ofBytes_val]
  refine check_bind_eq_ok.mpr ⟨hdigest, ?_⟩
  rw [hlen]
  rfl

theorem decodeExact_encode (hencode : frame.encodeWithLimits limits = .ok bytes)
    (hdigest : frame.digest = updateDigest frame.updates) (hword : bytes.length < wordSize) :
    decodeExact bytes limits = .ok frame := by
  have hone := decodeOne_encode [] hencode hdigest (by rwa [List.append_nil])
  rw [List.append_nil] at hone
  refine bind_eq_ok.mpr ⟨_, hone, ?_⟩
  exact check_bind_eq_ok.mpr ⟨rfl, rfl⟩

/-- A frame that an encoder under these limits accepts. -/
structure Valid (frame : DeltaFrame) (limits : FrameLimits) : Prop where
  digest_eq : frame.digest = updateDigest frame.updates
  encodes : ∃ bytes, frame.encodeWithLimits limits = .ok bytes

/-- The bytes of a frame. -/
def encoded (frame : DeltaFrame) (limits : FrameLimits) : Bytes :=
  match frame.encodeWithLimits limits with
  | .ok bytes => bytes
  | .error _ => []

theorem encoded_eq (h : frame.encodeWithLimits limits = .ok bytes) :
    frame.encoded limits = bytes := by
  rw [encoded, h]

theorem Valid.encode_eq (h : frame.Valid limits) :
    frame.encodeWithLimits limits = .ok (frame.encoded limits) := by
  obtain ⟨bytes, hbytes⟩ := h.encodes
  rw [encoded_eq hbytes, hbytes]

theorem Valid.length_pos (h : frame.Valid limits) : 0 < (frame.encoded limits).length := by
  obtain ⟨_, _, _, _, hlayout⟩ := encode_layout h.encode_eq
  rw [hlayout.length_eq, hlayout.total_eq]
  omega

theorem Valid.length_lt (h : frame.Valid limits) : (frame.encoded limits).length < wordSize := by
  obtain ⟨_, _, _, total, hlayout⟩ := encode_layout h.encode_eq
  rw [hlayout.length_eq]
  exact total.toNat_lt

/-- The frame ends with its own length. -/
theorem Valid.trailer (h : frame.Valid limits) :
    ∃ front total, frame.encoded limits = front ++ be64 total ∧
      total.toNat = (frame.encoded limits).length := by
  obtain ⟨_, _, _, total, hlayout⟩ := encode_layout h.encode_eq
  have hbytes := hlayout.bytes_eq
  rw [← List.append_assoc] at hbytes
  exact ⟨_, total, hbytes, hlayout.length_eq.symm⟩

/-- Two frames that end at the same place are the same frame. -/
theorem Valid.eq_of_suffix {other : DeltaFrame} {stream : Bytes} (h : frame.Valid limits)
    (h' : other.Valid limits) (hsuffix : frame.encoded limits <:+ stream)
    (hsuffix' : other.encoded limits <:+ stream) : frame = other := by
  obtain ⟨front, total, hfront, htotal⟩ := h.trailer
  obtain ⟨front', total', hfront', htotal'⟩ := h'.trailer
  have hword : be64 total <:+ stream := (hfront ▸ List.suffix_append _ _).trans hsuffix
  have hword' : be64 total' <:+ stream := (hfront' ▸ List.suffix_append _ _).trans hsuffix'
  have hsame : be64 total = be64 total' := by
    refine (List.suffix_of_suffix_length_le hword hword' ?_).eq_of_length ?_
    · rw [length_be64, length_be64]
    · rw [length_be64, length_be64]
  have htotals : total = total' := by rw [← ofBE_be64 total, hsame, ofBE_be64]
  have hlen : (frame.encoded limits).length = (other.encoded limits).length := by
    rw [← htotal, ← htotal', htotals]
  have hbytes : frame.encoded limits = other.encoded limits :=
    (List.suffix_of_suffix_length_le hsuffix hsuffix' hlen.le).eq_of_length hlen
  have hdecode := decodeExact_encode h.encode_eq h.digest_eq h.length_lt
  rw [hbytes, decodeExact_encode h'.encode_eq h'.digest_eq h'.length_lt] at hdecode
  exact (Except.ok.inj hdecode).symm

end DeltaFrame

/-! ## Streams of frames -/

section Stream

variable [Hashing] {limits : FrameLimits}

/-- The bytes of a list of frames. -/
def logBytes (limits : FrameLimits) (frames : List DeltaFrame) : Bytes :=
  frames.flatMap fun frame => frame.encoded limits

@[simp] theorem logBytes_nil : logBytes limits [] = [] := rfl

theorem logBytes_cons (frame : DeltaFrame) (frames : List DeltaFrame) :
    logBytes limits (frame :: frames) = frame.encoded limits ++ logBytes limits frames :=
  List.flatMap_cons

theorem logBytes_append (left right : List DeltaFrame) :
    logBytes limits (left ++ right) = logBytes limits left ++ logBytes limits right :=
  List.flatMap_append

theorem logBytes_singleton (frame : DeltaFrame) :
    logBytes limits [frame] = frame.encoded limits := by
  rw [logBytes_cons, logBytes_nil, List.append_nil]

/-- The step of the reader over a valid frame. -/
theorem decodeFrames_cons {frame : DeltaFrame} {rest : Bytes} {fuel : Nat} {offset : UInt64}
    (hframe : frame.Valid limits)
    (hword : offset.toNat + (frame.encoded limits ++ rest).length < wordSize) :
    decodeFrames limits (fuel + 1) (frame.encoded limits ++ rest) offset =
      (do
        let frames ← decodeFrames limits fuel rest
          (UInt64.ofNat (offset.toNat + (frame.encoded limits).length))
        return frame :: frames) := by
  rw [List.length_append] at hword
  have hpos := hframe.length_pos
  have hne : frame.encoded limits ++ rest ≠ [] := by
    simp [List.ne_nil_of_length_pos hpos]
  have hone := DeltaFrame.decodeOne_encode rest hframe.encode_eq hframe.digest_eq
    (by rw [List.length_append]; omega)
  have hlength : (UInt64.ofNat (frame.encoded limits).length).toNat =
      (frame.encoded limits).length := UInt64.toNat_ofNat_of_lt' hframe.length_lt
  have hnext : (UInt64.ofNat (offset.toNat + (frame.encoded limits).length)).toNat =
      offset.toNat + (frame.encoded limits).length := by
    apply UInt64.toNat_ofNat_of_lt'
    show _ < wordSize
    omega
  have hfit : (frame.encoded limits).length ≤ (frame.encoded limits ++ rest).length := by
    simp
  rw [decodeFrames, if_neg hne, bind_of_ok (mapError_eq_ok.mpr hone)]
  dsimp only
  rw [check_bind_of hfit, okOr_bind_of (u64OfUsize_eq_some.mpr hlength),
    okOr_bind_of (checkedAddU64_eq_some.mpr (hnext.trans (by rw [hlength]))), List.drop_left]

theorem decodeFrames_logBytes {frames : List DeltaFrame} {fuel : Nat} {offset : UInt64}
    (hvalid : ∀ frame ∈ frames, frame.Valid limits)
    (hword : offset.toNat + (logBytes limits frames).length < wordSize)
    (hfuel : (logBytes limits frames).length < fuel) :
    decodeFrames limits fuel (logBytes limits frames) offset = .ok frames := by
  induction frames generalizing fuel offset with
  | nil =>
    obtain ⟨fuel, rfl⟩ : ∃ n, fuel = n + 1 := ⟨fuel - 1, by omega⟩
    rw [decodeFrames, logBytes_nil, if_pos rfl]
    rfl
  | cons frame frames ih =>
    obtain ⟨hframe, hvalid⟩ := List.forall_mem_cons.mp hvalid
    have hpos := hframe.length_pos
    rw [logBytes_cons] at hword hfuel ⊢
    obtain ⟨fuel, rfl⟩ : ∃ n, fuel = n + 1 := ⟨fuel - 1, by omega⟩
    rw [decodeFrames_cons hframe hword]
    rw [List.length_append] at hword hfuel
    have hnext : (UInt64.ofNat (offset.toNat + (frame.encoded limits).length)).toNat =
        offset.toNat + (frame.encoded limits).length := by
      apply UInt64.toNat_ofNat_of_lt'
      show _ < wordSize
      omega
    rw [ih hvalid (by omega) (by omega)]
    rfl

/-- A stream of valid frames decodes to the frames, unless it is too long. -/
theorem decodeAll_logBytes {frames : List DeltaFrame}
    (hvalid : ∀ frame ∈ frames, frame.Valid limits)
    (hword : (logBytes limits frames).length < wordSize) :
    decodeAllWithLimits (logBytes limits frames) limits =
      if (logBytes limits frames).length ≤ limits.maxStreamBytes then .ok frames
      else .error (.limitExceeded "stream bytes" (logBytes limits frames).length
        limits.maxStreamBytes) := by
  rw [decodeAllWithLimits, Frame.enforceLimit]
  split_ifs with hle
  · exact check_bind_eq_ok.mpr
      ⟨hle, decodeFrames_logBytes hvalid (by rwa [UInt64.toNat_zero, Nat.zero_add]) (by omega)⟩
  · rw [check_of_not hle]
    rfl

end Stream

end LoroGateway
