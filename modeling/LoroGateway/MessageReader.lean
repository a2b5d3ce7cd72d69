import LoroGateway.Precheck

/-!
# The reader of the precheck

* `Reader.feed` says how a reader moves through its input;
* `Reader.run_take` and the bit lemmas say what the primitives do;
* `Reader.uleb128From_fits`, `Reader.uleb128From_overlong` and
  `Reader.uleb128From_unfinished` are the three ends of the loop of `uleb128`,
  and `Reader.uleb128_cases` says that there are no others.
-/

namespace LoroGateway

open ByteCodec Leb128

namespace Reader

/-- What the reader has not read. -/
def rest (r : Reader) : Bytes := r.input.drop r.cursor

/-- The reader some bytes on. -/
def skip (r : Reader) (length : Nat) : Reader := { r with cursor := r.cursor + length }

/-- A reader inside a slice of a 64-bit machine. -/
structure Ready (r : Reader) : Prop where
  sized : r.input.length < wordSize
  inside : r.cursor ≤ r.input.length

theorem rest_skip (r : Reader) (length : Nat) : (r.skip length).rest = r.rest.drop length := by
  unfold rest skip
  rw [List.drop_drop]

theorem length_rest (r : Reader) : r.rest.length = r.input.length - r.cursor := List.length_drop

theorem Ready.skip {r : Reader} (h : r.Ready) {length : Nat} (hlength : length ≤ r.rest.length) :
    (r.skip length).Ready := by
  have hinside := h.inside
  rw [length_rest] at hlength
  refine ⟨h.sized, ?_⟩
  show r.cursor + length ≤ r.input.length
  omega

theorem skip_skip (r : Reader) (m n : Nat) : (r.skip m).skip n = r.skip (m + n) := by
  unfold Reader.skip
  rw [Nat.add_assoc]

def feed : Feed Reader where
  ready := Ready
  eats r bytes r' := bytes <+: r.rest ∧ r' = r.skip bytes.length
  eats_ready h heats := heats.2 ▸ h.skip heats.1.length_le
  eats_nil := by
    intro r r'
    constructor
    · exact fun heats => heats.2
    · exact fun heq => ⟨List.nil_prefix, heq⟩
  eats_append := by
    intro r front back r' hr
    constructor
    · intro ⟨hbytes, heq⟩
      obtain ⟨tail, htail⟩ := hbytes
      rw [List.append_assoc] at htail
      refine ⟨r.skip front.length, ⟨⟨back ++ tail, htail⟩, rfl⟩, ⟨tail, ?_⟩, ?_⟩
      · rw [rest_skip, ← htail, List.drop_left]
      · rw [heq, skip_skip, List.length_append]
    · intro ⟨middle, ⟨hfront, hmiddle⟩, hback, heq⟩
      subst hmiddle
      obtain ⟨tail, htail⟩ := hfront
      rw [rest_skip, ← htail, List.drop_left] at hback
      refine ⟨?_, ?_⟩
      · rw [← htail]
        exact (List.prefix_append_right_inj front).2 hback
      · rw [heq, skip_skip, List.length_append]

/-- No index was outside the input. -/
def Safe (stop : Stop) : Prop := stop ≠ .outOfBounds

theorem safe_error (error : ProtocolDecodeError) : Safe (.error error) := by simp [Safe]

/-! ## The primitives -/

theorem run_take {r : Reader} (h : r.Ready) (length : Nat) :
    (take length).run r = if length ≤ r.rest.length then .ok (r.rest.take length, r.skip length)
      else .error (.error .truncated) := by
  have hinside := h.inside
  have hsized := h.sized
  rw [length_rest]
  by_cases hlength : length ≤ r.input.length - r.cursor
  · have hadd : checkedAdd r.cursor length = some (r.cursor + length) :=
      checkedAdd_eq_some.2 ⟨rfl, by omega⟩
    have hfilter : (some (r.cursor + length)).filter (· ≤ r.input.length) =
        some (r.cursor + length) := by
      rw [Option.filter_some, if_pos (by simp; omega)]
    have hslice : r.cursor ≤ r.cursor + length ∧ r.cursor + length ≤ r.input.length := by omega
    rw [if_pos hlength]
    simp only [take, StateT.run_bind, StateT.run_get, pure_bind, hadd, hfilter, okOr, slice,
      if_pos hslice, StateT.run_pure, StateT.run_set, Nat.add_sub_cancel_left]
    rfl
  · have hfilter : (checkedAdd r.cursor length).filter (· ≤ r.input.length) = none := by
      unfold checkedAdd
      split
      · rw [Option.filter_some, if_neg (by simp; omega)]
      · rfl
    rw [if_neg hlength]
    simp only [take, StateT.run_bind, StateT.run_get, pure_bind, hfilter, okOr]
    rfl

theorem parses_take (length : Nat) :
    Parses feed Safe (take length) (fun bytes field => bytes = field ∧ field.length = length) where
  ok_iff := by
    intro r bytes r' hr
    rw [run_take hr]
    constructor
    · intro heq
      split_ifs at heq with hlength
      cases heq
      refine ⟨_, ⟨rfl, List.length_take_of_le hlength⟩, List.take_prefix _ _, ?_⟩
      rw [List.length_take_of_le hlength]
    · intro ⟨field, ⟨hbytes, hlength⟩, hfield, heq⟩
      subst hbytes hlength heq
      rw [if_pos hfield.length_le, ← List.prefix_iff_eq_take.1 hfield]
  errors := by
    intro r stop hr heq
    rw [run_take hr] at heq
    split_ifs at heq
    cases heq
    exact safe_error _

theorem run_byte_nil {r : Reader} (h : r.Ready) (hrest : r.rest = []) :
    byte.run r = .error (.error .truncated) := by
  unfold byte
  rw [StateT.run_bind, run_take h, hrest]
  rfl

theorem run_byte_cons {r : Reader} (h : r.Ready) {b : UInt8} {tail : Bytes}
    (hrest : r.rest = b :: tail) : byte.run r = .ok (b, r.skip 1) := by
  unfold byte
  have hlength : 1 ≤ (b :: tail).length := Nat.le_add_left 1 tail.length
  rw [StateT.run_bind, run_take h, hrest, if_pos hlength]
  rfl

theorem parses_byte : Parses feed Safe byte (fun b field => field = [b]) where
  ok_iff := by
    intro r b r' hr
    constructor
    · intro heq
      cases hrest : r.rest with
      | nil =>
        rw [run_byte_nil hr hrest] at heq
        cases heq
      | cons head tail =>
        rw [run_byte_cons hr hrest] at heq
        cases heq
        exact ⟨_, rfl, ⟨tail, hrest.symm⟩, rfl⟩
    · intro ⟨field, hfield, ⟨tail, htail⟩, heq⟩
      subst hfield heq
      exact run_byte_cons hr htail.symm
  errors := by
    intro r stop hr heq
    cases hrest : r.rest with
    | nil =>
      rw [run_byte_nil hr hrest] at heq
      cases heq
      exact safe_error _
    | cons head tail =>
      rw [run_byte_cons hr hrest] at heq
      cases heq

/-! ## The loop of `uleb128` -/

theorem and_7e (b : UInt8) : b &&& 0x7e ≠ 0 ↔ 2 ≤ b.toNat % 128 := by
  have hall : ∀ n < 256, (UInt8.ofNat n &&& 0x7e ≠ 0 ↔ 2 ≤ n % 128) := by decide +kernel
  have hb := hall b.toNat b.toNat_lt
  rwa [UInt8.ofNat_toNat] at hb

theorem and_80 (b : UInt8) : b &&& 0x80 = 0 ↔ b.toNat < 128 := by
  have hall : ∀ n < 256, (UInt8.ofNat n &&& 0x80 = 0 ↔ n < 128) := by decide +kernel
  have hb := hall b.toNat b.toNat_lt
  rwa [UInt8.ofNat_toNat] at hb

theorem and_7f (b : UInt8) : (b &&& 0x7f).toUInt64.toNat = b.toNat % 128 := by
  rw [UInt8.toNat_toUInt64, UInt8.toNat_and]
  exact Nat.and_two_pow_sub_one_eq_mod b.toNat 7

/-- A group goes above the bits that have been read. -/
theorem toNat_or_shift {result : UInt64} {shift : Nat} {b : UInt8} (hshift : shift ≤ 63)
    (hresult : result.toNat < 2 ^ shift) (hfits : b.toNat % 128 * 2 ^ shift < 2 ^ 64) :
    (result ||| ((b &&& 0x7f).toUInt64 <<< UInt64.ofNat shift)).toNat =
      result.toNat + b.toNat % 128 * 2 ^ shift := by
  have hcount : (UInt64.ofNat shift).toNat % 64 = shift := by
    rw [UInt64.toNat_ofNat_of_lt' (Nat.lt_of_le_of_lt hshift (by decide)),
      Nat.mod_eq_of_lt (Nat.lt_succ_of_le hshift)]
  rw [UInt64.toNat_or, UInt64.toNat_shiftLeft, and_7f, hcount, Nat.shiftLeft_eq,
    Nat.mod_eq_of_lt hfits, Nat.or_comm, Nat.mul_comm, ← Nat.two_pow_add_eq_or_of_lt hresult,
    Nat.add_comm]

section Loop

variable {r : Reader} {result : UInt64} {shift count : Nat}

theorem uleb128From_nil (h : r.Ready) (hrest : r.rest = []) :
    (uleb128From result shift).run r = .error (.error .truncated) := by
  rw [uleb128From, StateT.run_bind, run_byte_nil h hrest]
  rfl

/-- One turn of the loop. -/
theorem uleb128From_cons (h : r.Ready) {b : UInt8} {tail : Bytes} (hrest : r.rest = b :: tail)
    (hshift : shift ≤ 63) :
    (uleb128From result shift).run r =
      if shift = 63 ∧ b &&& 0x7e ≠ 0 then .error (.error .lengthOverflow)
      else if b &&& 0x80 = 0 then
        .ok (result ||| ((b &&& 0x7f).toUInt64 <<< UInt64.ofNat shift), r.skip 1)
      else if 63 < shift + 7 then .error (.error .lengthOverflow)
      else (uleb128From (result ||| ((b &&& 0x7f).toUInt64 <<< UInt64.ofNat shift))
        (shift + 7)).run (r.skip 1) := by
  have hadd : checkedAddU32 shift 7 = some (shift + 7) := if_pos (by omega)
  rw [uleb128From, StateT.run_bind, run_byte_cons h hrest]
  show ((check (¬ (shift = 63 ∧ b &&& 0x7e ≠ 0)) (Stop.error .lengthOverflow) : Reading Unit) >>=
    fun _ => _).run (r.skip 1) = _
  unfold check
  by_cases hlast : shift = 63 ∧ b &&& 0x7e ≠ 0
  · rw [if_neg (not_not.2 hlast), if_pos hlast]
    rfl
  · rw [if_pos hlast, if_neg hlast, StateT.run_bind, StateT.run_pure, pure_bind]
    by_cases hend : b &&& 0x80 = 0
    · rw [if_pos hend, if_pos hend]
      rfl
    · rw [if_neg hend, if_neg hend]
      split
      · rename_i hnone
        rw [hadd] at hnone
        cases hnone
      · rename_i next hsome
        rw [hadd] at hsome
        cases hsome
        by_cases hover : 63 < shift + 7
        · rw [dif_pos hover, if_pos hover]
          rfl
        · rw [dif_neg hover, if_neg hover]

/-- The turn that ends the number. -/
theorem uleb128From_last (h : r.Ready) {b : UInt8} {tail : Bytes} (hrest : r.rest = b :: tail)
    (hshift : shift + 7 * count = 70) (hcount : 1 ≤ count) (hresult : result.toNat < 2 ^ shift)
    (hb : b.toNat < 128) (hfits : b.toNat < 2 ^ (7 * count - 6)) :
    ∃ n : UInt64, n.toNat = result.toNat + b.toNat * 2 ^ shift ∧
      (uleb128From result shift).run r = .ok (n, r.skip 1) := by
  have hmod : b.toNat % 128 = b.toNat := Nat.mod_eq_of_lt hb
  have hword : b.toNat % 128 * 2 ^ shift < 2 ^ 64 := by
    have hexp : 64 = 7 * count - 6 + shift := by omega
    rw [hmod, hexp, Nat.pow_add]
    exact Nat.mul_lt_mul_of_pos_right hfits (Nat.two_pow_pos shift)
  have hlast : ¬ (shift = 63 ∧ b &&& 0x7e ≠ 0) := by
    intro hfull
    have hbig := (and_7e b).1 hfull.2
    have hone : count = 1 := by omega
    subst hone
    omega
  refine ⟨result ||| ((b &&& 0x7f).toUInt64 <<< UInt64.ofNat shift), ?_, ?_⟩
  · rw [toNat_or_shift (by omega) hresult hword, hmod]
  · rw [uleb128From_cons h hrest (by omega), if_neg hlast, if_pos ((and_80 b).2 hb)]

/-- The turn that goes on. -/
theorem uleb128From_more (h : r.Ready) {b : UInt8} {tail : Bytes} (hrest : r.rest = b :: tail)
    (hshift : shift + 7 * (count + 1) = 70) (hcount : 1 ≤ count)
    (hresult : result.toNat < 2 ^ shift) (hb : 128 ≤ b.toNat) :
    ∃ n : UInt64, n.toNat = result.toNat + (b.toNat - 128) * 2 ^ shift ∧ n.toNat < 2 ^ (shift + 7) ∧
      (uleb128From result shift).run r = (uleb128From n (shift + 7)).run (r.skip 1) := by
  have hbyte := b.toNat_lt
  have hmod : b.toNat % 128 = b.toNat - 128 := by omega
  have hstep : result.toNat + (b.toNat - 128) * 2 ^ shift < 2 ^ (shift + 7) := by
    have hgroup : (b.toNat - 128) * 2 ^ shift ≤ 127 * 2 ^ shift :=
      Nat.mul_le_mul_right _ (by omega)
    rw [Nat.pow_add]
    omega
  have hword : b.toNat % 128 * 2 ^ shift < 2 ^ 64 := by
    have hpow : 2 ^ (shift + 7) ≤ 2 ^ 64 := Nat.pow_le_pow_right (by decide) (by omega)
    rw [hmod]
    omega
  have hlast : ¬ (shift = 63 ∧ b &&& 0x7e ≠ 0) := by omega
  have hend : ¬ b &&& 0x80 = 0 := fun hend => absurd ((and_80 b).1 hend) (by omega)
  have hover : ¬ 63 < shift + 7 := by omega
  refine ⟨result ||| ((b &&& 0x7f).toUInt64 <<< UInt64.ofNat shift), ?_, ?_, ?_⟩
  · rw [toNat_or_shift (by omega) hresult hword, hmod]
  · rw [toNat_or_shift (by omega) hresult hword, hmod]
    exact hstep
  · rw [uleb128From_cons h hrest (by omega), if_neg hlast, if_neg hend, if_neg hover]

theorem rest_skip_one {b : UInt8} {tail : Bytes} (hrest : r.rest = b :: tail) :
    (r.skip 1).rest = tail := by
  rw [rest_skip, hrest]
  rfl

theorem Ready.skip_one (h : r.Ready) {b : UInt8} {tail : Bytes} (hrest : r.rest = b :: tail) :
    (r.skip 1).Ready :=
  h.skip (by rw [hrest]; exact Nat.le_add_left 1 tail.length)

theorem uleb128From_fits (h : r.Ready) (hshift : shift + 7 * count = 70)
    (hresult : result.toNat < 2 ^ shift) {groups : List Group} (hfits : Fits count groups)
    {tail : Bytes} (hrest : r.rest = encode groups ++ tail) :
    ∃ n : UInt64, n.toNat = result.toNat + 2 ^ shift * value groups ∧
      (uleb128From result shift).run r = .ok (n, r.skip groups.length) := by
  induction groups generalizing r result shift count with
  | nil => exact absurd rfl hfits.1
  | cons group groups ih =>
    rw [encode_cons, List.cons_append] at hrest
    have hcount : 1 ≤ count := Nat.le_trans (Nat.le_add_left 1 _) hfits.2.1
    cases groups with
    | nil =>
      have hbyte : (UInt8.ofNat
          (if ([] : List Group) = [] then group.val else group.val + 128)).toNat = group.val :=
        toNat_last group
      have hvalue : group.val < 2 ^ (7 * count - 6) := by
        have hlt := hfits.2.2
        rw [value, value] at hlt
        exact hlt
      obtain ⟨n, hn, hrun⟩ := uleb128From_last h hrest hshift hcount hresult
        (by rw [hbyte]; exact group.isLt) (by rw [hbyte]; exact hvalue)
      refine ⟨n, ?_, hrun⟩
      rw [hn, hbyte, value, value, Nat.mul_comm]
      rfl
    | cons next groups =>
      obtain ⟨count, rfl⟩ := Nat.exists_eq_add_of_le' hcount
      have htail := hfits.tail
      have hbyte : (UInt8.ofNat
          (if (next :: groups) = [] then group.val else group.val + 128)).toNat = group.val + 128 :=
        toNat_more group
      obtain ⟨n, hn, hlt, hrun⟩ := uleb128From_more h hrest hshift htail.1 hresult
        (by rw [hbyte]; exact Nat.le_add_left 128 group.val)
      obtain ⟨m, hm, hrest'⟩ := ih (h.skip_one hrest) (by omega) hlt htail.2 (rest_skip_one hrest)
      refine ⟨m, ?_, ?_⟩
      · rw [hm, hn, hbyte, Nat.add_sub_cancel, value.eq_def (group :: next :: groups), Nat.pow_add]
        ring
      · rw [hrun, hrest', skip_skip, Nat.add_comm]
        rfl

theorem uleb128From_overlong (h : r.Ready) (hshift : shift + 7 * count = 70)
    (hresult : result.toNat < 2 ^ shift) (hover : Overlong count r.rest) :
    (uleb128From result shift).run r = .error (.error .lengthOverflow) := by
  induction count generalizing r result shift with
  | zero => exact hover.elim
  | succ count ih =>
    cases count with
    | zero =>
      obtain ⟨b, tail, hrest, hb⟩ := hover
      have hfull : shift = 63 := by omega
      rw [uleb128From_cons h hrest (by omega)]
      by_cases hbits : b &&& 0x7e ≠ 0
      · rw [if_pos ⟨hfull, hbits⟩]
      · -- the tenth byte announces an eleventh
        have hsmall := mt (and_7e b).2 hbits
        have hend : ¬ b &&& 0x80 = 0 := fun hend => absurd ((and_80 b).1 hend) (by omega)
        rw [if_neg (fun hlast => hbits hlast.2), if_neg hend, if_pos (by omega)]
    | succ count =>
      obtain ⟨b, tail, hrest, hb, hover⟩ := hover
      obtain ⟨n, _, hlt, hrun⟩ :=
        uleb128From_more h hrest hshift (Nat.le_add_left 1 count) hresult hb
      rw [hrun]
      exact ih (h.skip_one hrest) (by omega) hlt (rest_skip_one hrest ▸ hover)

theorem uleb128From_unfinished (h : r.Ready) (hshift : shift + 7 * count = 70)
    (hresult : result.toNat < 2 ^ shift) (hshort : Unfinished count r.rest) :
    (uleb128From result shift).run r = .error (.error .truncated) := by
  induction count generalizing r result shift with
  | zero => exact absurd hshort.1 (Nat.not_lt_zero _)
  | succ count ih =>
    cases hrest : r.rest with
    | nil => exact uleb128From_nil h hrest
    | cons b tail =>
      rw [hrest] at hshort
      have hlength : tail.length < count := Nat.lt_of_succ_lt_succ hshort.1
      obtain ⟨n, _, hlt, hrun⟩ := uleb128From_more h hrest hshift (by omega) hresult
        (hshort.2 b List.mem_cons_self)
      rw [hrun]
      apply ih (h.skip_one hrest) (by omega) hlt
      rw [rest_skip_one hrest]
      exact ⟨hlength, fun other hmem => hshort.2 other (List.mem_cons_of_mem b hmem)⟩

end Loop

section Number

variable {r : Reader}

theorem uleb128_fits (h : r.Ready) {groups : List Group} (hfits : Fits 10 groups) {tail : Bytes}
    (hrest : r.rest = encode groups ++ tail) :
    ∃ n : UInt64, n.toNat = value groups ∧ uleb128.run r = .ok (n, r.skip groups.length) := by
  have hzero : (0 : UInt64).toNat < 2 ^ 0 := by decide
  obtain ⟨n, hn, hrun⟩ := uleb128From_fits h (rfl : 0 + 7 * 10 = 70) hzero hfits hrest
  refine ⟨n, ?_, hrun⟩
  rw [hn, Nat.pow_zero, Nat.one_mul]
  exact Nat.zero_add _

theorem uleb128_encodes (h : r.Ready) {n : UInt64} {bytes tail : Bytes} (hencodes : Encodes n bytes)
    (hrest : r.rest = bytes ++ tail) : uleb128.run r = .ok (n, r.skip bytes.length) := by
  obtain ⟨groups, hne, hlength, hvalue, rfl⟩ := hencodes
  obtain ⟨m, hm, hrun⟩ := uleb128_fits h (fits_of_value hne hlength hvalue) hrest
  rw [hrun, length_encode, UInt64.toNat_inj.1 (hm.trans hvalue)]

theorem uleb128_overlong (h : r.Ready) (hover : Overlong 10 r.rest) :
    uleb128.run r = .error (.error .lengthOverflow) :=
  uleb128From_overlong h rfl (by decide) hover

theorem uleb128_unfinished (h : r.Ready) (hshort : Unfinished 10 r.rest) :
    uleb128.run r = .error (.error .truncated) :=
  uleb128From_unfinished h rfl (by decide) hshort

/-- How a reading of a number ends. -/
theorem uleb128_cases (h : r.Ready) :
    (∃ n bytes tail, Encodes n bytes ∧ r.rest = bytes ++ tail ∧
      uleb128.run r = .ok (n, r.skip bytes.length)) ∨
    (Overlong 10 r.rest ∧ uleb128.run r = .error (.error .lengthOverflow)) ∨
    (Unfinished 10 r.rest ∧ uleb128.run r = .error (.error .truncated)) := by
  rcases shape 10 r.rest (by decide) with ⟨groups, tail, hfits, hrest⟩ | hover | hshort
  · obtain ⟨n, hn, hrun⟩ := uleb128_fits h hfits hrest
    refine .inl ⟨n, encode groups, tail, ⟨groups, hfits.1, hfits.2.1, hn.symm, rfl⟩, hrest, ?_⟩
    rw [length_encode]
    exact hrun
  · exact .inr (.inl ⟨hover, uleb128_overlong h hover⟩)
  · exact .inr (.inr ⟨hshort, uleb128_unfinished h hshort⟩)

theorem parses_uleb128 : Parses feed Safe uleb128 Encodes where
  ok_iff := by
    intro r n r' hr
    constructor
    · intro heq
      rcases uleb128_cases hr with ⟨m, bytes, tail, hencodes, hrest, hrun⟩ | ⟨_, hrun⟩ | ⟨_, hrun⟩
      · rw [hrun] at heq
        cases heq
        exact ⟨bytes, hencodes, ⟨tail, hrest.symm⟩, rfl⟩
      · rw [hrun] at heq
        cases heq
      · rw [hrun] at heq
        cases heq
    · intro ⟨bytes, hencodes, ⟨tail, htail⟩, heq⟩
      rw [heq, uleb128_encodes hr hencodes htail.symm]
  errors := by
    intro r stop hr heq
    rcases uleb128_cases hr with ⟨_, _, _, _, _, hrun⟩ | ⟨_, hrun⟩ | ⟨_, hrun⟩
    · rw [hrun] at heq
      cases heq
    · rw [hrun] at heq
      cases heq
      exact safe_error _
    · rw [hrun] at heq
      cases heq
      exact safe_error _

end Number

end Reader

/-- The reader of numbers answers the number of the groups in front of it, however
many zero groups end them, and says what is wrong where there is no number. -/
theorem uleb128_exact {r : Reader} (h : r.Ready) :
    (∀ n r', Reader.uleb128.run r = .ok (n, r') ↔
      ∃ groups tail, groups ≠ [] ∧ groups.length ≤ 10 ∧ value groups = n.toNat ∧
        r.rest = encode groups ++ tail ∧ r' = r.skip groups.length) ∧
    (Reader.uleb128.run r = .error (.error .lengthOverflow) ↔
      ∃ front last tail, r.rest = front ++ last :: tail ∧ front.length = 9 ∧
        (∀ byte ∈ front, 128 ≤ byte.toNat) ∧ 2 ≤ last.toNat) ∧
    (Reader.uleb128.run r = .error (.error .truncated) ↔
      r.rest.length < 10 ∧ ∀ byte ∈ r.rest, 128 ≤ byte.toNat) := by
  refine ⟨fun n r' => ?_, ?_, ?_⟩
  · rw [Reader.parses_uleb128.ok_iff h]
    constructor
    · rintro ⟨_, ⟨groups, hne, hlength, hvalue, rfl⟩, ⟨tail, htail⟩, heq⟩
      exact ⟨groups, tail, hne, hlength, hvalue, htail.symm, by rw [heq, length_encode]⟩
    · rintro ⟨groups, tail, hne, hlength, hvalue, hrest, heq⟩
      refine ⟨_, ⟨groups, hne, hlength, hvalue, rfl⟩, ⟨tail, hrest.symm⟩, ?_⟩
      rw [heq, length_encode]
  · rw [← overlong_iff]
    refine ⟨fun heq => ?_, Reader.uleb128_overlong h⟩
    rcases Reader.uleb128_cases h with ⟨_, _, _, _, _, hrun⟩ | ⟨hover, _⟩ | ⟨_, hrun⟩
    · rw [hrun] at heq
      cases heq
    · exact hover
    · rw [hrun] at heq
      cases heq
  · refine ⟨fun heq => ?_, Reader.uleb128_unfinished h⟩
    rcases Reader.uleb128_cases h with ⟨_, _, _, _, _, hrun⟩ | ⟨_, hrun⟩ | ⟨hshort, _⟩
    · rw [hrun] at heq
      cases heq
    · rw [hrun] at heq
      cases heq
    · exact hshort

/-- The number 5 with two groups of zeros behind it, and a byte that is left. -/
theorem uleb128_exact_padded :
    Reader.uleb128.run ⟨[0x85, 0x80, 0x00, 0xff], 0⟩ =
      .ok (5, ⟨[0x85, 0x80, 0x00, 0xff], 3⟩) :=
  ((uleb128_exact ⟨by decide, by decide⟩).1 5 _).2
    ⟨[5, 0, 0], [0xff], by decide, by decide, by decide, by decide, rfl⟩

end LoroGateway
