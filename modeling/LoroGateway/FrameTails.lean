import LoroGateway.FrameBijection

/-!
# Torn and corrupt tails

A stream of frames is read frame by frame, and no frame looks at what follows
it.  So the reader gets to the end of the last whole frame and fails there, with
the offset of that end.  A frame that has been cut off anywhere reads as
truncated: its length is in the first sixteen bytes, and nothing else is looked
at before all its bytes are there.
-/

namespace LoroGateway

open ByteCodec

namespace DeltaFrame

open LoroGateway.Frame

variable [Hashing] {frame : DeltaFrame} {limits : FrameLimits}

/-- A part of a frame reads as truncated. -/
theorem decodeOne_take (h : frame.Valid limits) {k : Nat} (hk : k < (frame.encoded limits).length) :
    decodeOneWithLimits ((frame.encoded limits).take k) limits = .error .truncated := by
  obtain ⟨_, _, _, total, hlayout⟩ := encode_layout h.encode_eq
  have hlen := hlayout.length_eq
  have htotal := hlayout.total_eq
  have hword := h.length_lt
  generalize frame.encoded limits = bytes at *
  have hcut : (bytes.take k).length = k := List.length_take_of_le hk.le
  rw [decodeOneWithLimits]
  by_cases hshort : fixedPrefix + fixedSuffix ≤ (bytes.take k).length
  · obtain ⟨hmagic, tail, hd4⟩ := hlayout.decode_header []
    rw [List.append_nil] at hmagic hd4
    have hd6 := drop_add_of_drop hd4 (length_be16 _)
    have hd8 := drop_add_of_drop hd6 (length_be16 _)
    have hd16 := drop_add_of_drop hd8 (length_be64 _)
    have hlong : 60 ≤ k := hcut ▸ hshort
    have hversion := drop_take_of_drop k (hd6 ▸ hd4) rfl (by rw [length_be16]; omega)
    have hflags := drop_take_of_drop k (hd8 ▸ hd6) rfl (by rw [length_be16]; omega)
    have hlength := drop_take_of_drop k (hd16 ▸ hd8) rfl (by rw [length_be64]; omega)
    have hfirst : (bytes.take k).take 4 = magic := by
      rw [List.take_take, Nat.min_eq_left (by omega), hmagic]
    have hk : (bytes.take k).length < wordSize := by omega
    have hreadVersion : readU16 (bytes.take k) 4 = .ok (version, 6) :=
      readU16At_of_drop hk (by omega) hversion
    have hreadFlags : readU16 (bytes.take k) 6 = .ok (0, 8) :=
      readU16At_of_drop hk (by omega) hflags
    have hreadLength : readU64 (bytes.take k) 8 = .ok (total, 16) :=
      readU64At_of_drop hk (by omega) hlength
    have hfixed : fixedPrefix + fixedSuffix ≤ total.toNat := by
      rw [fixedPrefix, fixedSuffix]
      omega
    have hfits : ¬ total.toNat ≤ (bytes.take k).length := by omega
    dsimp only [enforceLimit]
    rw [check_bind_of hshort, check_bind_of hfirst, bind_of_ok hreadVersion, check_bind_of rfl,
      bind_of_ok hreadFlags, check_bind_of rfl, bind_of_ok hreadLength, check_bind_of hfixed,
      check_bind_of hlayout.total_le, check_bind_of_not hfits]
  · rw [check_bind_of_not hshort]

end DeltaFrame

/-! ## Streams of frames -/

section Stream

variable [Hashing] {limits : FrameLimits} {frames : List DeltaFrame} {rest : Bytes} {fuel : Nat}
  {offset : UInt64}

/-- The reader fails where the valid frames end, with the error of what follows. -/
theorem decodeFrames_torn {e : FrameError} (hvalid : ∀ frame ∈ frames, frame.Valid limits)
    (hrest : rest ≠ []) (hone : DeltaFrame.decodeOneWithLimits rest limits = .error e)
    (hword : offset.toNat + (logBytes limits frames ++ rest).length < wordSize)
    (hfuel : (logBytes limits frames ++ rest).length < fuel) :
    decodeFrames limits fuel (logBytes limits frames ++ rest) offset =
      .error (.atOffset (UInt64.ofNat (offset.toNat + (logBytes limits frames).length)) e) := by
  induction frames generalizing fuel offset with
  | nil =>
    obtain ⟨fuel, rfl⟩ : ∃ n, fuel = n + 1 := ⟨fuel - 1, by omega⟩
    rw [logBytes_nil, List.nil_append, decodeFrames, if_neg hrest, hone]
    show Except.error (FrameError.atOffset offset e) = _
    rw [List.length_nil, Nat.add_zero, UInt64.ofNat_toNat]
  | cons frame frames ih =>
    obtain ⟨hframe, hvalid⟩ := List.forall_mem_cons.mp hvalid
    have hpos := hframe.length_pos
    rw [logBytes_cons, List.append_assoc] at hword hfuel ⊢
    obtain ⟨fuel, rfl⟩ : ∃ n, fuel = n + 1 := ⟨fuel - 1, by omega⟩
    rw [decodeFrames_cons hframe hword]
    rw [List.length_append] at hword hfuel
    have hnext : (UInt64.ofNat (offset.toNat + (frame.encoded limits).length)).toNat =
        offset.toNat + (frame.encoded limits).length := by
      apply UInt64.toNat_ofNat_of_lt'
      show _ < wordSize
      omega
    rw [ih hvalid (by omega) (by omega), hnext, List.length_append, Nat.add_assoc]
    rfl

/-- The frames that end at the `k`th byte of a stream or before it. -/
def framesBefore (limits : FrameLimits) : List DeltaFrame → Nat → List DeltaFrame
  | [], _ => []
  | frame :: frames, k =>
    if (frame.encoded limits).length ≤ k then
      frame :: framesBefore limits frames (k - (frame.encoded limits).length)
    else []

theorem framesBefore_subset (frames : List DeltaFrame) (k : Nat) :
    framesBefore limits frames k ⊆ frames := by
  induction frames generalizing k with
  | nil => exact List.Subset.refl _
  | cons frame frames ih =>
    rw [framesBefore]
    split_ifs
    · exact List.cons_subset_cons _ (ih _)
    · exact List.nil_subset _

/-- A stream that is cut off is the frames before the cut, and a part of the next one. -/
theorem take_logBytes {k : Nat} (hk : k ≤ (logBytes limits frames).length) :
    (logBytes limits frames).take k = logBytes limits (framesBefore limits frames k) ∨
      ∃ frame ∈ frames, ∃ j, 0 < j ∧ j < (frame.encoded limits).length ∧
        k = (logBytes limits (framesBefore limits frames k)).length + j ∧
        (logBytes limits frames).take k =
          logBytes limits (framesBefore limits frames k) ++ (frame.encoded limits).take j := by
  induction frames generalizing k with
  | nil => simp [framesBefore]
  | cons frame frames ih =>
    rw [logBytes_cons, List.length_append] at hk
    rw [framesBefore, logBytes_cons]
    split_ifs with hle
    · rw [logBytes_cons, List.take_append, List.take_of_length_le hle]
      rcases ih (k := k - (frame.encoded limits).length) (by omega) with
        hwhole | ⟨next, hmem, j, hpos, hj, hlen, htake⟩
      · exact .inl (by rw [hwhole])
      · refine .inr ⟨next, List.mem_cons_of_mem _ hmem, j, hpos, hj, ?_, ?_⟩
        · rw [List.length_append]
          omega
        · rw [htake, List.append_assoc]
    · rw [List.take_append_of_le_length (by omega)]
      by_cases hzero : k = 0
      · subst hzero
        exact .inl rfl
      · exact .inr ⟨frame, List.mem_cons_self, k, by omega, by omega, by simp, by simp⟩

/-- What follows the valid frames of a stream is reported at the offset where they end.
A stream that has been cut off gives the frames before the cut, or the offset of the
last boundary and a truncated frame. -/
theorem decodeAll_tail (hlimits : limits.maxStreamBytes < wordSize)
    (hvalid : ∀ frame ∈ frames, frame.Valid limits) :
    (∀ (rest : Bytes) (e : FrameError), rest ≠ [] →
      (logBytes limits frames ++ rest).length ≤ limits.maxStreamBytes →
      DeltaFrame.decodeOneWithLimits rest limits = .error e →
      decodeAllWithLimits (logBytes limits frames ++ rest) limits =
        .error (.atOffset (UInt64.ofNat (logBytes limits frames).length) e)) ∧
    ((logBytes limits frames).length ≤ limits.maxStreamBytes →
      ∀ k ≤ (logBytes limits frames).length,
        decodeAllWithLimits ((logBytes limits frames).take k) limits =
          if (logBytes limits (framesBefore limits frames k)).length = k then
            .ok (framesBefore limits frames k)
          else
            .error (.atOffset (UInt64.ofNat (logBytes limits (framesBefore limits frames k)).length)
              .truncated)) := by
  have htorn : ∀ {frames : List DeltaFrame}, (∀ frame ∈ frames, frame.Valid limits) →
      ∀ (rest : Bytes) (e : FrameError), rest ≠ [] →
      (logBytes limits frames ++ rest).length ≤ limits.maxStreamBytes →
      DeltaFrame.decodeOneWithLimits rest limits = .error e →
      decodeAllWithLimits (logBytes limits frames ++ rest) limits =
        .error (.atOffset (UInt64.ofNat (logBytes limits frames).length) e) := by
    intro frames hvalid rest e hrest hlength hone
    rw [decodeAllWithLimits, Frame.enforceLimit, check_bind_of hlength,
      decodeFrames_torn hvalid hrest hone (by rw [UInt64.toNat_zero]; omega) (by omega),
      UInt64.toNat_zero, Nat.zero_add]
  refine ⟨htorn hvalid, fun hlength k hk => ?_⟩
  have hbefore : ∀ frame ∈ framesBefore limits frames k, frame.Valid limits :=
    fun frame hmem => hvalid frame (framesBefore_subset frames k hmem)
  have hcut : ((logBytes limits frames).take k).length = k := List.length_take_of_le hk
  rcases take_logBytes hk with hwhole | ⟨frame, hmem, j, hpos, hj, hlen, htake⟩
  · rw [hwhole] at hcut
    rw [hwhole, if_pos hcut, decodeAll_logBytes hbefore (by omega), if_pos (by omega)]
  · have hne : (frame.encoded limits).take j ≠ [] := by
      apply List.ne_nil_of_length_pos
      rw [List.length_take]
      omega
    rw [htake] at hcut
    rw [htake, if_neg (by omega)]
    exact htorn hbefore _ _ hne (by omega) (DeltaFrame.decodeOne_take (hvalid frame hmem) hj)

end Stream

open Sample

/-- Two frames, the second of which is cut off after 70 bytes. -/
theorem decodeAll_tail_sample :
    decodeAllWithLimits ((logBytes .default [sampleFrame, sampleFrame]).take
      ((logBytes .default [sampleFrame]).length + 70)) .default =
        .error (.atOffset (UInt64.ofNat (logBytes .default [sampleFrame]).length) .truncated) := by
  have hvalid : ∀ frame ∈ [sampleFrame, sampleFrame], frame.Valid .default := by
    have hencode : sampleFrame.encodeWithLimits .default = .ok (sampleFrame.encoded .default) := by
      decide +kernel
    simp [DeltaFrame.Valid.mk (show sampleFrame.digest = _ from rfl) ⟨_, hencode⟩]
  have hbefore : framesBefore .default [sampleFrame, sampleFrame]
      ((logBytes .default [sampleFrame]).length + 70) = [sampleFrame] := by
    decide +kernel
  have hlimits : FrameLimits.default.maxStreamBytes < wordSize := by decide
  have hcut := (decodeAll_tail hlimits hvalid).2 (by decide +kernel)
    ((logBytes .default [sampleFrame]).length + 70) (by decide +kernel)
  rw [hbefore, if_neg (by omega)] at hcut
  exact hcut

end LoroGateway
