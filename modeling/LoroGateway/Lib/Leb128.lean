import LoroGateway.Lib.Bytes

/-!
# LEB128

A number is written as groups of seven bits, the lowest first, one group in a
byte.  The high bit of a byte says that another group follows.  Groups of zeros
may follow the last group that counts, so a number has many encodings.

* `Leb128.value` and `Leb128.encode` are the number and the bytes of some groups;
* `Leb128.Encodes` says that bytes are one of the encodings of a 64-bit number;
* `Leb128.shape` sorts all byte strings: they start with an encoding, or their
  first ten bytes are too much, or they end in the middle.
-/

namespace Leb128

open ByteCodec

/-- Seven bits. -/
abbrev Group := Fin 128

def value : List Group → Nat
  | [] => 0
  | group :: groups => group.val + 128 * value groups

def encode : List Group → Bytes
  | [] => []
  | [group] => [UInt8.ofNat group.val]
  | group :: next :: groups => UInt8.ofNat (group.val + 128) :: encode (next :: groups)

/-- The bytes are an encoding of a 64-bit number. -/
def Encodes (n : UInt64) (bytes : Bytes) : Prop :=
  ∃ groups, groups ≠ [] ∧ groups.length ≤ 10 ∧ value groups = n.toNat ∧ bytes = encode groups

/-- So many bytes that all announce another one, but for the last, and carry a bit
that the last of ten may not carry. -/
def Overlong : Nat → Bytes → Prop
  | 0, _ => False
  | 1, bytes => ∃ byte rest, bytes = byte :: rest ∧ 2 ≤ byte.toNat
  | count + 2, bytes => ∃ byte rest, bytes = byte :: rest ∧ 128 ≤ byte.toNat ∧ Overlong (count + 1) rest

/-- The bytes end before a group ends the number. -/
def Unfinished (count : Nat) (bytes : Bytes) : Prop :=
  bytes.length < count ∧ ∀ byte ∈ bytes, 128 ≤ byte.toNat

/-- The groups fit in what is left of 64 bits when `count` of ten groups are left. -/
def Fits (count : Nat) (groups : List Group) : Prop :=
  groups ≠ [] ∧ groups.length ≤ count ∧ value groups < 2 ^ (7 * count - 6)

theorem toNat_last (group : Group) : (UInt8.ofNat group.val).toNat = group.val := by
  rw [UInt8.toNat_ofNat']
  omega

theorem toNat_more (group : Group) : (UInt8.ofNat (group.val + 128)).toNat = group.val + 128 := by
  rw [UInt8.toNat_ofNat']
  omega

theorem length_encode : ∀ groups : List Group, (encode groups).length = groups.length
  | [] => rfl
  | [_] => rfl
  | _ :: next :: groups => congrArg (· + 1) (length_encode (next :: groups))

/-- The first byte shows whether it is the last. -/
theorem encode_cons (group : Group) (groups : List Group) :
    encode (group :: groups) =
      UInt8.ofNat (if groups = [] then group.val else group.val + 128) :: encode groups := by
  cases groups with
  | nil => rfl
  | cons next groups => rfl

theorem pow_step {count : Nat} (h : 1 ≤ count) :
    2 ^ (7 * (count + 1) - 6) = 128 * 2 ^ (7 * count - 6) := by
  have hexp : 7 * (count + 1) - 6 = 7 + (7 * count - 6) := by omega
  rw [hexp, Nat.pow_add]

theorem Fits.tail {count : Nat} {group next : Group} {groups : List Group}
    (h : Fits (count + 1) (group :: next :: groups)) : 1 ≤ count ∧ Fits count (next :: groups) := by
  have hcount : 1 ≤ count := by
    have hlength := h.2.1
    simp only [List.length_cons] at hlength
    omega
  refine ⟨hcount, by simp, Nat.le_of_succ_le_succ h.2.1, ?_⟩
  have hvalue := h.2.2
  rw [pow_step hcount, value] at hvalue
  omega

theorem fits_of_value {groups : List Group} (hne : groups ≠ []) (hlength : groups.length ≤ 10)
    {n : UInt64} (h : value groups = n.toNat) : Fits 10 groups :=
  ⟨hne, hlength, h ▸ n.toNat_lt⟩

theorem overlong_iff {count : Nat} {bytes : Bytes} : Overlong (count + 1) bytes ↔
    ∃ front last rest, bytes = front ++ last :: rest ∧ front.length = count ∧
      (∀ byte ∈ front, 128 ≤ byte.toNat) ∧ 2 ≤ last.toNat := by
  induction count generalizing bytes with
  | zero =>
    constructor
    · rintro ⟨byte, rest, rfl, h⟩
      exact ⟨[], byte, rest, rfl, rfl, by simp, h⟩
    · rintro ⟨front, last, rest, rfl, hlength, _, h⟩
      rw [List.eq_nil_of_length_eq_zero hlength]
      exact ⟨last, rest, rfl, h⟩
  | succ count ih =>
    constructor
    · rintro ⟨byte, rest, rfl, hmore, h⟩
      obtain ⟨front, last, after, rfl, hlength, hall, hlast⟩ := ih.1 h
      exact ⟨byte :: front, last, after, rfl, congrArg (· + 1) hlength,
        List.forall_mem_cons.2 ⟨hmore, hall⟩, hlast⟩
    · rintro ⟨front, last, rest, rfl, hlength, hall, hlast⟩
      cases front with
      | nil => cases hlength
      | cons byte front =>
        have hparts := List.forall_mem_cons.1 hall
        exact ⟨byte, front ++ last :: rest, rfl, hparts.1,
          ih.2 ⟨front, last, rest, rfl, Nat.succ.inj hlength, hparts.2, hlast⟩⟩

/-- All byte strings, by how a reader of so many groups gets on with them. -/
theorem shape (count : Nat) (bytes : Bytes) (h : 1 ≤ count) :
    (∃ groups rest, Fits count groups ∧ bytes = encode groups ++ rest) ∨
      Overlong count bytes ∨ Unfinished count bytes := by
  induction count generalizing bytes with
  | zero => cases h
  | succ count ih =>
    cases bytes with
    | nil => exact .inr (.inr ⟨Nat.succ_pos count, by simp⟩)
    | cons byte rest =>
      by_cases hlast : byte.toNat < 128 ∧ (count = 0 → byte.toNat < 2)
      · refine .inl ⟨[⟨byte.toNat, hlast.1⟩], rest, ⟨by simp, by simp, ?_⟩, ?_⟩
        · show byte.toNat + 128 * 0 < _
          rcases Nat.eq_zero_or_pos count with hzero | hpos
          · subst hzero
            exact hlast.2 rfl
          · have hpow := pow_step hpos
            have hone := Nat.one_le_two_pow (n := 7 * count - 6)
            omega
        · show byte :: rest = [UInt8.ofNat byte.toNat] ++ rest
          rw [UInt8.ofNat_toNat]
          rfl
      · rcases Nat.eq_zero_or_pos count with hzero | hpos
        · subst hzero
          refine .inr (.inl ⟨byte, rest, rfl, ?_⟩)
          by_contra hsmall
          exact hlast ⟨by omega, fun _ => by omega⟩
        · have hmore : 128 ≤ byte.toNat := by
            by_contra hsmall
            exact hlast ⟨by omega, fun hzero => by omega⟩
          have hbyte := byte.toNat_lt
          rcases ih rest hpos with ⟨groups, after, hfits, hrest⟩ | hover | hshort
          · refine .inl ⟨⟨byte.toNat - 128, by omega⟩ :: groups, after, ⟨by simp, ?_, ?_⟩, ?_⟩
            · exact Nat.succ_le_succ hfits.2.1
            · rw [pow_step hpos, value]
              have hvalue := hfits.2.2
              simp only
              omega
            · rw [encode_cons, if_neg hfits.1, hrest]
              simp only [Nat.sub_add_cancel hmore, UInt8.ofNat_toNat, List.cons_append]
          · obtain ⟨count, rfl⟩ := Nat.exists_eq_add_of_le' hpos
            exact .inr (.inl ⟨byte, rest, rfl, hmore, hover⟩)
          · refine .inr (.inr ⟨Nat.succ_lt_succ hshort.1, ?_⟩)
            intro other hmem
            rcases List.mem_cons.1 hmem with rfl | hmem
            · exact hmore
            · exact hshort.2 other hmem

end Leb128
