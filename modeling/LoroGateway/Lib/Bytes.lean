import Mathlib.Data.List.Basic
import Mathlib.Tactic

/-!
# Byte strings, big-endian integers and a bounded cursor

The binary formats of a log store are written field by field and read back
with a cursor.  This module holds what any such format needs and names no
format:

* `Bytes` and the fixed-width `ByteArr n`, whose length is a field.
* `toBE` and `ofBE`, the big-endian digits of a number, and the fixed-width
  integers `be16`, `be32` and `be64` built on them.
* `checkedAdd` and `checkedMul`, the machine-word arithmetic that answers
  `none` on overflow.  A machine word has 64 bits.
* `takeAt`, one bounded read at a cursor, the readers of the three integer
  widths, and the readers of a length table and of a run of blobs.  The lemmas read a field off the front of what is left of
  the input, `input.drop cursor = field ++ rest`, which is how a decoder
  proof walks over an encoded record.
-/

namespace ByteCodec

abbrev Bytes := List UInt8

/-- A byte string of a fixed length. -/
abbrev ByteArr (n : Nat) := { bytes : Bytes // bytes.length = n }

/-- The byte string of `n` zeros. -/
def ByteArr.zero (n : Nat) : ByteArr n := ⟨List.replicate n 0, List.length_replicate⟩

/-- Read a byte string as one of a fixed length, as `copy_from_slice` does
after a read of exactly that length. -/
def ByteArr.ofBytes (n : Nat) (bytes : Bytes) : ByteArr n :=
  if h : bytes.length = n then ⟨bytes, h⟩ else ByteArr.zero n

theorem ByteArr.ofBytes_val {n : Nat} (arr : ByteArr n) : ByteArr.ofBytes n arr.val = arr := by
  rw [ByteArr.ofBytes, dif_pos arr.property]

theorem ByteArr.val_ofBytes {n : Nat} {bytes : Bytes} (h : bytes.length = n) :
    (ByteArr.ofBytes n bytes).val = bytes := by
  rw [ByteArr.ofBytes, dif_pos h]

/-! ## Machine words -/

/-- The number of values of a 64-bit machine word. -/
abbrev wordSize : Nat := 2 ^ 64

/-- `checked_add` on `usize`. -/
def checkedAdd (a b : Nat) : Option Nat := if a + b < wordSize then some (a + b) else none

/-- `checked_mul` on `usize`. -/
def checkedMul (a b : Nat) : Option Nat := if a * b < wordSize then some (a * b) else none

/-- `checked_sub` on `usize`. -/
def checkedSub (a b : Nat) : Option Nat := if b ≤ a then some (a - b) else none

/-- `u16::try_from` of a `usize`. -/
def u16OfUsize (n : Nat) : Option UInt16 := if n < 2 ^ 16 then some (UInt16.ofNat n) else none

/-- `u32::try_from` of a `usize`. -/
def u32OfUsize (n : Nat) : Option UInt32 := if n < 2 ^ 32 then some (UInt32.ofNat n) else none

/-- `u64::try_from` of a `usize`. -/
def u64OfUsize (n : Nat) : Option UInt64 := if n < wordSize then some (UInt64.ofNat n) else none

/-- `u64::try_from(n).unwrap_or(u64::MAX)`. -/
def lengthWord (n : Nat) : UInt64 := (u64OfUsize n).getD (UInt64.ofNat (wordSize - 1))

/-- `checked_add` on `u64`. -/
def checkedAddU64 (a b : UInt64) : Option UInt64 :=
  if a.toNat + b.toNat < wordSize then some (a + b) else none

/-- `checked_sub` on `u64`. -/
def checkedSubU64 (a b : UInt64) : Option UInt64 :=
  if b.toNat ≤ a.toNat then some (a - b) else none

theorem checkedAdd_eq_some {a b c : Nat} :
    checkedAdd a b = some c ↔ c = a + b ∧ a + b < wordSize := by
  rw [checkedAdd]
  split_ifs with h
  · simp only [Option.some.injEq]
    exact ⟨fun heq => ⟨heq.symm, h⟩, fun heq => heq.1.symm⟩
  · simp only [false_iff]
    exact fun heq => h heq.2

theorem checkedMul_eq_some {a b c : Nat} :
    checkedMul a b = some c ↔ c = a * b ∧ a * b < wordSize := by
  rw [checkedMul]
  split_ifs with h
  · simp only [Option.some.injEq]
    exact ⟨fun heq => ⟨heq.symm, h⟩, fun heq => heq.1.symm⟩
  · simp only [false_iff]
    exact fun heq => h heq.2

theorem checkedSub_eq_some {a b c : Nat} : checkedSub a b = some c ↔ b ≤ a ∧ c = a - b := by
  rw [checkedSub]
  split_ifs with h
  · simp only [Option.some.injEq]
    exact ⟨fun heq => ⟨h, heq.symm⟩, fun heq => heq.2.symm⟩
  · simp only [false_iff]
    exact fun heq => h heq.1

theorem u16OfUsize_eq_some {n : Nat} {x : UInt16} : u16OfUsize n = some x ↔ x.toNat = n := by
  rw [u16OfUsize]
  split_ifs with h
  · rw [Option.some.injEq]
    constructor
    · rintro rfl
      exact UInt16.toNat_ofNat_of_lt' h
    · rintro rfl
      exact UInt16.ofNat_toNat
  · simp only [false_iff]
    rintro rfl
    exact h x.toNat_lt

theorem u32OfUsize_eq_some {n : Nat} {x : UInt32} : u32OfUsize n = some x ↔ x.toNat = n := by
  rw [u32OfUsize]
  split_ifs with h
  · rw [Option.some.injEq]
    constructor
    · rintro rfl
      exact UInt32.toNat_ofNat_of_lt' h
    · rintro rfl
      exact UInt32.ofNat_toNat
  · simp only [false_iff]
    rintro rfl
    exact h x.toNat_lt

theorem u64OfUsize_eq_some {n : Nat} {x : UInt64} :
    u64OfUsize n = some x ↔ x.toNat = n := by
  rw [u64OfUsize]
  split_ifs with h
  · rw [Option.some.injEq]
    constructor
    · rintro rfl
      exact UInt64.toNat_ofNat_of_lt' h
    · rintro rfl
      exact UInt64.ofNat_toNat
  · simp only [false_iff]
    rintro rfl
    exact h x.toNat_lt

theorem checkedAddU64_eq_some {a b c : UInt64} :
    checkedAddU64 a b = some c ↔ c.toNat = a.toNat + b.toNat := by
  rw [checkedAddU64]
  split_ifs with h
  · rw [Option.some.injEq]
    have hsum : (a + b).toNat = a.toNat + b.toNat := by
      rw [UInt64.toNat_add, Nat.mod_eq_of_lt h]
    constructor
    · rintro rfl
      exact hsum
    · intro hc
      rw [← UInt64.toNat_inj, hsum, hc]
  · simp only [false_iff]
    intro hc
    exact h (hc ▸ c.toNat_lt)

theorem checkedSubU64_eq_some {a b c : UInt64} :
    checkedSubU64 a b = some c ↔ a.toNat = c.toNat + b.toNat := by
  rw [checkedSubU64]
  split_ifs with h
  · rw [Option.some.injEq]
    have hdiff : (a - b).toNat = a.toNat - b.toNat := by
      rw [UInt64.toNat_sub_of_le a b (UInt64.le_iff_toNat_le.mpr h)]
    constructor
    · rintro rfl
      omega
    · intro hc
      rw [← UInt64.toNat_inj]
      omega
  · simp only [false_iff]
    omega

/-! ## Big-endian digits -/

/-- The `width` big-endian base-256 digits of `n`. -/
def toBE : Nat → Nat → Bytes
  | 0, _ => []
  | width + 1, n => toBE width (n / 256) ++ [UInt8.ofNat (n % 256)]

/-- The number that big-endian digits denote. -/
def ofBE (bytes : Bytes) : Nat := bytes.foldl (fun acc byte => acc * 256 + byte.toNat) 0

@[simp] theorem length_toBE (width n : Nat) : (toBE width n).length = width := by
  induction width generalizing n with
  | zero => rfl
  | succ width ih => rw [toBE, List.length_append, ih, List.length_singleton]

theorem ofBE_append_singleton (bytes : Bytes) (byte : UInt8) :
    ofBE (bytes ++ [byte]) = ofBE bytes * 256 + byte.toNat := by
  rw [ofBE, List.foldl_append]
  rfl

theorem ofBE_toBE {width n : Nat} (h : n < 256 ^ width) : ofBE (toBE width n) = n := by
  induction width generalizing n with
  | zero =>
    have : n = 0 := by simpa using h
    subst this
    rfl
  | succ width ih =>
    have hdiv : n / 256 < 256 ^ width := by
      rw [Nat.pow_succ] at h
      exact Nat.div_lt_of_lt_mul (by omega)
    rw [toBE, ofBE_append_singleton, ih hdiv, UInt8.toNat_ofNat_of_lt' (by simp [UInt8.size]; omega)]
    omega

theorem ofBE_lt (bytes : Bytes) : ofBE bytes < 256 ^ bytes.length := by
  induction bytes using List.reverseRecOn with
  | nil => simp [ofBE]
  | append_singleton bytes byte ih =>
    have hbyte := byte.toNat_lt
    rw [ofBE_append_singleton, List.length_append, List.length_singleton, Nat.pow_succ]
    omega

theorem toBE_ofBE (bytes : Bytes) : toBE bytes.length (ofBE bytes) = bytes := by
  induction bytes using List.reverseRecOn with
  | nil => rfl
  | append_singleton bytes byte ih =>
    have hbyte := byte.toNat_lt
    rw [List.length_append, List.length_singleton, toBE, ofBE_append_singleton]
    have hdiv : (ofBE bytes * 256 + byte.toNat) / 256 = ofBE bytes := by omega
    have hmod : (ofBE bytes * 256 + byte.toNat) % 256 = byte.toNat := by omega
    rw [hdiv, hmod, ih, UInt8.ofNat_toNat]

def be16 (x : UInt16) : Bytes := toBE 2 x.toNat
def be32 (x : UInt32) : Bytes := toBE 4 x.toNat
def be64 (x : UInt64) : Bytes := toBE 8 x.toNat

@[simp] theorem length_be16 (x : UInt16) : (be16 x).length = 2 := length_toBE 2 _
@[simp] theorem length_be32 (x : UInt32) : (be32 x).length = 4 := length_toBE 4 _
@[simp] theorem length_be64 (x : UInt64) : (be64 x).length = 8 := length_toBE 8 _

theorem ofBE_be16 (x : UInt16) : UInt16.ofNat (ofBE (be16 x)) = x := by
  rw [be16, ofBE_toBE (Nat.lt_of_lt_of_eq x.toNat_lt (by norm_num)), UInt16.ofNat_toNat]

theorem ofBE_be32 (x : UInt32) : UInt32.ofNat (ofBE (be32 x)) = x := by
  rw [be32, ofBE_toBE (Nat.lt_of_lt_of_eq x.toNat_lt (by norm_num)), UInt32.ofNat_toNat]

theorem ofBE_be64 (x : UInt64) : UInt64.ofNat (ofBE (be64 x)) = x := by
  rw [be64, ofBE_toBE (Nat.lt_of_lt_of_eq x.toNat_lt (by norm_num)), UInt64.ofNat_toNat]

/-! ## Bounded reads -/

section Cursor

variable {ε : Type}

/-- One bounded read of `length` bytes at `cursor`: the bytes read and the
cursor after them.  The two errors are the answers to an overflowing and to a
too short input. -/
def takeAt (overflow short : ε) (input : Bytes) (cursor length : Nat) : Except ε (Bytes × Nat) :=
  match checkedAdd cursor length with
  | none => .error overflow
  | some stop =>
    if stop ≤ input.length then .ok ((input.drop cursor).take length, stop) else .error short

/-- A bounded read that may not pass `limit` either. -/
def takeUntilAt (overflow short : ε) (input : Bytes) (cursor length limit : Nat) :
    Except ε (Bytes × Nat) :=
  match checkedAdd cursor length with
  | none => .error overflow
  | some stop =>
    if stop ≤ limit then takeAt overflow short input cursor length else .error short

/-- A big-endian `u16` at `cursor`. -/
def readU16At (overflow short : ε) (input : Bytes) (cursor : Nat) : Except ε (UInt16 × Nat) := do
  let (bytes, cursor) ← takeAt overflow short input cursor 2
  return (UInt16.ofNat (ofBE bytes), cursor)

/-- A big-endian `u32` at `cursor`. -/
def readU32At (overflow short : ε) (input : Bytes) (cursor : Nat) : Except ε (UInt32 × Nat) := do
  let (bytes, cursor) ← takeAt overflow short input cursor 4
  return (UInt32.ofNat (ofBE bytes), cursor)

/-- A big-endian `u64` at `cursor`. -/
def readU64At (overflow short : ε) (input : Bytes) (cursor : Nat) : Except ε (UInt64 × Nat) := do
  let (bytes, cursor) ← takeAt overflow short input cursor 8
  return (UInt64.ofNat (ofBE bytes), cursor)

/-- A table of `count` big-endian `u32` lengths at `cursor`.  `accumulate` checks a
length and adds it to the sum so far. -/
def readTable (overflow short : ε) (accumulate : Nat → Nat → Except ε Nat) (input : Bytes) :
    Nat → Nat → Nat → Except ε (List Nat × Nat × Nat)
  | 0, sum, cursor => return ([], sum, cursor)
  | count + 1, sum, cursor => do
    let (length, cursor) ← readU32At overflow short input cursor
    let sum ← accumulate sum length.toNat
    let (lengths, sum, cursor) ← readTable overflow short accumulate input count sum cursor
    return (length.toNat :: lengths, sum, cursor)

/-- One blob after another, of the given lengths, none of which may pass
`limit`. -/
def takeEach (overflow short : ε) (input : Bytes) (limit : Nat) :
    List Nat → Nat → Except ε (List Bytes × Nat)
  | [], cursor => return ([], cursor)
  | length :: lengths, cursor => do
    let (blob, cursor) ← takeUntilAt overflow short input cursor length limit
    let (blobs, cursor) ← takeEach overflow short input limit lengths cursor
    return (blob :: blobs, cursor)

/-- What is left of the input after a field has been read off its front. -/
theorem drop_add_of_drop {input field rest : Bytes} {cursor length : Nat}
    (h : input.drop cursor = field ++ rest) (hlen : field.length = length) :
    input.drop (cursor + length) = rest := by
  rw [← List.drop_drop, h, ← hlen, List.drop_left]

theorem length_of_drop {input field rest : Bytes} {cursor : Nat}
    (h : input.drop cursor = field ++ rest) (hne : 0 < field.length) :
    cursor + field.length ≤ input.length := by
  have hlen := congrArg List.length h
  rw [List.length_drop, List.length_append] at hlen
  omega

variable {overflow short : ε} {input field rest : Bytes} {cursor length : Nat}

theorem takeAt_of_drop (hword : input.length < wordSize) (hcur : cursor ≤ input.length)
    (h : input.drop cursor = field ++ rest) (hlen : field.length = length) :
    takeAt overflow short input cursor length = .ok (field, cursor + length) := by
  have hfit : cursor + length ≤ input.length := by
    have := congrArg List.length h
    rw [List.length_drop, List.length_append] at this
    omega
  have hadd : checkedAdd cursor length = some (cursor + length) :=
    checkedAdd_eq_some.mpr ⟨rfl, by omega⟩
  rw [takeAt, hadd]
  simp only [hfit, if_true]
  rw [h, ← hlen, List.take_left]

theorem takeUntilAt_of_drop {limit : Nat} (hword : input.length < wordSize)
    (hcur : cursor ≤ input.length) (h : input.drop cursor = field ++ rest)
    (hlen : field.length = length) (hlimit : cursor + length ≤ limit) :
    takeUntilAt overflow short input cursor length limit = .ok (field, cursor + length) := by
  have hfit : cursor + length ≤ input.length := by
    have := congrArg List.length h
    rw [List.length_drop, List.length_append] at this
    omega
  have hadd : checkedAdd cursor length = some (cursor + length) :=
    checkedAdd_eq_some.mpr ⟨rfl, by omega⟩
  rw [takeUntilAt, hadd]
  simp only [hlimit, if_true]
  exact takeAt_of_drop hword hcur h hlen

/-- What a bounded read that succeeds has read. -/
theorem takeAt_eq_ok {next : Nat}
    (h : takeAt overflow short input cursor length = .ok (field, next)) :
    next = cursor + length ∧ next ≤ input.length ∧ field.length = length ∧
      input.drop cursor = field ++ input.drop next := by
  rw [takeAt] at h
  split at h
  · cases h
  · rename_i stop hstop
    obtain ⟨rfl, _⟩ := checkedAdd_eq_some.mp hstop
    split_ifs at h with hfit
    cases h
    refine ⟨rfl, hfit, ?_, ?_⟩
    · rw [List.length_take, List.length_drop]
      omega
    · rw [← List.drop_drop, List.take_append_drop]

theorem takeUntilAt_eq_ok {next limit : Nat}
    (h : takeUntilAt overflow short input cursor length limit = .ok (field, next)) :
    next = cursor + length ∧ next ≤ limit ∧ next ≤ input.length ∧ field.length = length ∧
      input.drop cursor = field ++ input.drop next := by
  rw [takeUntilAt] at h
  split at h
  · cases h
  · rename_i stop hstop
    obtain ⟨rfl, _⟩ := checkedAdd_eq_some.mp hstop
    split_ifs at h with hlimit
    obtain ⟨hnext, hfit, hlength, hdrop⟩ := takeAt_eq_ok h
    exact ⟨hnext, hnext ▸ hlimit, hfit, hlength, hdrop⟩

theorem readU16At_of_drop (hword : input.length < wordSize) (hcur : cursor ≤ input.length)
    {x : UInt16} (h : input.drop cursor = be16 x ++ rest) :
    readU16At overflow short input cursor = .ok (x, cursor + 2) := by
  rw [readU16At, takeAt_of_drop hword hcur h (length_be16 x)]
  exact congrArg (fun y => Except.ok (y, cursor + 2)) (ofBE_be16 x)

theorem readU32At_of_drop (hword : input.length < wordSize) (hcur : cursor ≤ input.length)
    {x : UInt32} (h : input.drop cursor = be32 x ++ rest) :
    readU32At overflow short input cursor = .ok (x, cursor + 4) := by
  rw [readU32At, takeAt_of_drop hword hcur h (length_be32 x)]
  exact congrArg (fun y => Except.ok (y, cursor + 4)) (ofBE_be32 x)

theorem readU64At_of_drop (hword : input.length < wordSize) (hcur : cursor ≤ input.length)
    {x : UInt64} (h : input.drop cursor = be64 x ++ rest) :
    readU64At overflow short input cursor = .ok (x, cursor + 8) := by
  rw [readU64At, takeAt_of_drop hword hcur h (length_be64 x)]
  exact congrArg (fun y => Except.ok (y, cursor + 8)) (ofBE_be64 x)

end Cursor

/-! ## Guards -/

/-- Go on only if a condition holds. -/
def check {m : Type → Type} [Monad m] {ε : Type} [MonadExceptOf ε m] (cond : Prop) [Decidable cond]
    (err : ε) : m Unit :=
  if cond then pure () else throw err

/-- The value of an option, or an error. -/
def okOr {m : Type → Type} [Monad m] {ε α : Type} [MonadExceptOf ε m] (value : Option α) (err : ε) :
    m α :=
  match value with
  | some a => pure a
  | none => throw err

section Except

variable {ε α β : Type} {cond : Prop} [Decidable cond] {err : ε}

theorem check_of (h : cond) : (check cond err : Except ε Unit) = .ok () := if_pos h

theorem check_of_not (h : ¬ cond) : (check cond err : Except ε Unit) = .error err := if_neg h

theorem check_bind_of {f : Unit → Except ε β} (h : cond) :
    ((check cond err : Except ε Unit) >>= f) = f () := by
  rw [check_of h]
  rfl

theorem check_bind_of_not {f : Unit → Except ε β} (h : ¬ cond) :
    ((check cond err : Except ε Unit) >>= f) = .error err := by
  rw [check_of_not h]
  rfl

theorem okOr_bind_of {value : Option α} {f : α → Except ε β} {a : α} (h : value = some a) :
    ((okOr value err : Except ε α) >>= f) = f a := by
  rw [h]
  rfl

theorem bind_of_ok {x : Except ε α} {f : α → Except ε β} {a : α} (h : x = .ok a) :
    (x >>= f) = f a := by
  rw [h]
  rfl

theorem check_eq_ok : (check cond err : Except ε Unit) = .ok () ↔ cond := by
  by_cases h : cond
  · rw [check_of h]
    exact iff_of_true rfl h
  · rw [check_of_not h]
    exact iff_of_false nofun h

/-- A guarded computation succeeds exactly when the guard holds and the rest
succeeds. -/
theorem check_bind_eq_ok {f : Unit → Except ε β} {b : β} :
    ((check cond err : Except ε Unit) >>= f) = .ok b ↔ cond ∧ f () = .ok b := by
  by_cases h : cond
  · rw [check_of h]
    exact ⟨fun hf => ⟨h, hf⟩, fun hf => hf.2⟩
  · rw [check_of_not h]
    exact ⟨nofun, fun hf => absurd hf.1 h⟩

theorem okOr_bind_eq_ok {value : Option α} {f : α → Except ε β} {b : β} :
    ((okOr value err : Except ε α) >>= f) = .ok b ↔ ∃ a, value = some a ∧ f a = .ok b := by
  cases value with
  | none => exact ⟨nofun, nofun⟩
  | some a =>
    constructor
    · exact fun hf => ⟨a, rfl, hf⟩
    · rintro ⟨_, hsome, hf⟩
      cases hsome
      exact hf

/-- From the success of a sequence get the success of both halves. -/
theorem bind_eq_ok {x : Except ε α} {f : α → Except ε β} {b : β} :
    (x >>= f) = .ok b ↔ ∃ a, x = .ok a ∧ f a = .ok b := by
  cases x with
  | error e => exact ⟨nofun, nofun⟩
  | ok a =>
    constructor
    · exact fun hf => ⟨a, rfl, hf⟩
    · rintro ⟨_, hok, hf⟩
      cases hok
      exact hf

theorem bind_eq_error {x : Except ε α} {f : α → Except ε β} {e : ε} :
    (x >>= f) = .error e ↔ x = .error e ∨ ∃ a, x = .ok a ∧ f a = .error e := by
  cases x with
  | error e' => simp [Bind.bind, Except.bind]
  | ok a => simp [Bind.bind, Except.bind]

theorem check_eq_error {e : ε} (h : (check cond err : Except ε Unit) = .error e) : err = e := by
  by_cases hcond : cond
  · rw [check, if_pos hcond] at h
    cases h
  · rw [check, if_neg hcond] at h
    exact Except.error.inj h

theorem okOr_eq_error {value : Option α} {e : ε} (h : (okOr value err : Except ε α) = .error e) :
    err = e := by
  cases value with
  | none => exact Except.error.inj h
  | some a => cases h

theorem mapError_eq_ok {ε' : Type} {x : Except ε α} {f : ε → ε'} {a : α} :
    x.mapError f = .ok a ↔ x = .ok a := by
  cases x with
  | error e => exact ⟨nofun, nofun⟩
  | ok b => exact ⟨fun h => congrArg _ (Except.ok.inj h), fun h => congrArg _ (Except.ok.inj h)⟩

/-- Every error that a computation can answer satisfies a condition. -/
def ErrorsIn (P : ε → Prop) (x : Except ε α) : Prop := ∀ e, x = .error e → P e

namespace ErrorsIn

variable {P : ε → Prop}

theorem ok (a : α) : ErrorsIn P (.ok a : Except ε α) := nofun

theorem error {e : ε} (h : P e) : ErrorsIn P (.error e : Except ε α) := by
  rintro _ ⟨⟩
  exact h

theorem bind {x : Except ε α} {f : α → Except ε β} (hx : ErrorsIn P x)
    (hf : ∀ a, x = .ok a → ErrorsIn P (f a)) : ErrorsIn P (x >>= f) := by
  cases x with
  | error e => exact error (hx e rfl)
  | ok a => exact hf a rfl

theorem check (h : P err) : ErrorsIn P (check cond err : Except ε Unit) := by
  by_cases hcond : cond
  · rw [check_of hcond]
    exact ok ()
  · rw [check_of_not hcond]
    exact error h

theorem okOr {value : Option α} (h : P err) : ErrorsIn P (okOr value err : Except ε α) := by
  cases value with
  | none => exact error h
  | some a => exact ok a

theorem mapError {ε' : Type} {x : Except ε' α} {f : ε' → ε} (h : ∀ e, P (f e)) :
    ErrorsIn P (x.mapError f) := by
  cases x with
  | error e => exact error (h e)
  | ok a => exact ok a

end ErrorsIn

end Except

/-! ## What a read has read -/

section Reads

variable {ε : Type} {overflow short : ε} {input : Bytes} {cursor next : Nat}

/-- The number that two or four or eight bytes denote, written again. -/
theorem toBE_of_length {bytes : Bytes} {width : Nat} (h : bytes.length = width) :
    toBE width (ofBE bytes) = bytes := by
  rw [← h, toBE_ofBE]

theorem readU16At_eq_ok {x : UInt16} (h : readU16At overflow short input cursor = .ok (x, next)) :
    next = cursor + 2 ∧ next ≤ input.length ∧ input.drop cursor = be16 x ++ input.drop next := by
  obtain ⟨⟨bytes, stop⟩, htake, h⟩ := bind_eq_ok.mp h
  cases h
  obtain ⟨hnext, hfit, hlength, hdrop⟩ := takeAt_eq_ok htake
  have hlt := ofBE_lt bytes
  rw [hlength] at hlt
  refine ⟨hnext, hfit, ?_⟩
  rw [hdrop, be16, UInt16.toNat_ofNat_of_lt' (by simpa using hlt), toBE_of_length hlength]

theorem readU32At_eq_ok {x : UInt32} (h : readU32At overflow short input cursor = .ok (x, next)) :
    next = cursor + 4 ∧ next ≤ input.length ∧ input.drop cursor = be32 x ++ input.drop next := by
  obtain ⟨⟨bytes, stop⟩, htake, h⟩ := bind_eq_ok.mp h
  cases h
  obtain ⟨hnext, hfit, hlength, hdrop⟩ := takeAt_eq_ok htake
  have hlt := ofBE_lt bytes
  rw [hlength] at hlt
  refine ⟨hnext, hfit, ?_⟩
  rw [hdrop, be32, UInt32.toNat_ofNat_of_lt' (by simpa using hlt), toBE_of_length hlength]

theorem readU64At_eq_ok {x : UInt64} (h : readU64At overflow short input cursor = .ok (x, next)) :
    next = cursor + 8 ∧ next ≤ input.length ∧ input.drop cursor = be64 x ++ input.drop next := by
  obtain ⟨⟨bytes, stop⟩, htake, h⟩ := bind_eq_ok.mp h
  cases h
  obtain ⟨hnext, hfit, hlength, hdrop⟩ := takeAt_eq_ok htake
  have hlt := ofBE_lt bytes
  rw [hlength] at hlt
  refine ⟨hnext, hfit, ?_⟩
  rw [hdrop, be64, UInt64.toNat_ofNat_of_lt' (by simpa using hlt), toBE_of_length hlength]

/-- A field that is read before `stop` is a field of the input cut off there. -/
theorem drop_take_of_drop {field : Bytes} (stop : Nat)
    (h : input.drop cursor = field ++ input.drop next) (hnext : next = cursor + field.length)
    (hstop : next ≤ stop) :
    (input.take stop).drop cursor = field ++ (input.take stop).drop next := by
  have hrest : stop - cursor = field.length + (stop - next) := by omega
  rw [List.drop_take, List.drop_take, h, hrest, List.take_length_add_append]

end Reads

/-! ## Tables and blobs -/

section Tables

variable {ε : Type} {overflow short : ε} {input rest : Bytes} {cursor : Nat}

theorem readTable_of_drop {accumulate : Nat → Nat → Except ε Nat} {lengths : List UInt32}
    {sum total : Nat} (hword : input.length < wordSize) (hcur : cursor ≤ input.length)
    (h : input.drop cursor = lengths.flatMap be32 ++ rest)
    (haccum : (lengths.map UInt32.toNat).foldlM accumulate sum = .ok total) :
    readTable overflow short accumulate input lengths.length sum cursor =
      .ok (lengths.map UInt32.toNat, total, cursor + 4 * lengths.length) := by
  induction lengths generalizing sum cursor with
  | nil =>
    cases haccum
    rfl
  | cons length lengths ih =>
    rw [List.flatMap_cons, List.append_assoc] at h
    rw [List.map_cons, List.foldlM_cons] at haccum
    obtain ⟨next, hnext, haccum⟩ := bind_eq_ok.mp haccum
    have hfit := length_of_drop h (by rw [length_be32]; omega)
    rw [length_be32] at hfit
    rw [List.length_cons, readTable]
    refine bind_eq_ok.mpr ⟨_, readU32At_of_drop hword hcur h, ?_⟩
    refine bind_eq_ok.mpr ⟨next, hnext, ?_⟩
    refine bind_eq_ok.mpr ⟨_, ih hfit (drop_add_of_drop h (length_be32 length)) haccum, ?_⟩
    rw [List.map_cons, Nat.add_assoc, Nat.mul_add, Nat.add_comm 4]
    rfl

theorem takeEach_of_drop {limit : Nat} {blobs : List Bytes} (hword : input.length < wordSize)
    (hcur : cursor ≤ input.length) (h : input.drop cursor = blobs.flatten ++ rest)
    (hlimit : cursor + blobs.flatten.length ≤ limit) :
    takeEach overflow short input limit (blobs.map List.length) cursor =
      .ok (blobs, cursor + blobs.flatten.length) := by
  induction blobs generalizing cursor with
  | nil => rfl
  | cons blob blobs ih =>
    rw [List.flatten_cons, List.append_assoc] at h
    rw [List.flatten_cons, List.length_append] at hlimit ⊢
    have hfit : cursor + blob.length ≤ input.length := by
      have := congrArg List.length h
      rw [List.length_drop, List.length_append] at this
      omega
    rw [List.map_cons, takeEach]
    refine bind_eq_ok.mpr ⟨_, takeUntilAt_of_drop hword hcur h rfl (by omega), ?_⟩
    refine bind_eq_ok.mpr ⟨_, ih hfit (drop_add_of_drop h rfl) (by omega), ?_⟩
    rw [Nat.add_assoc]
    rfl

/-- What a table that has been read holds. -/
theorem readTable_eq_ok {accumulate : Nat → Nat → Except ε Nat} {count sum total next : Nat}
    {lengths : List Nat} (hcur : cursor ≤ input.length)
    (h : readTable overflow short accumulate input count sum cursor = .ok (lengths, total, next)) :
    ∃ words : List UInt32, lengths = words.map UInt32.toNat ∧ words.length = count ∧
      next = cursor + 4 * count ∧ next ≤ input.length ∧
      input.drop cursor = words.flatMap be32 ++ input.drop next ∧
      lengths.foldlM accumulate sum = .ok total := by
  induction count generalizing sum cursor lengths total next with
  | zero =>
    cases h
    exact ⟨[], rfl, rfl, rfl, hcur, rfl, rfl⟩
  | succ count ih =>
    rw [readTable] at h
    obtain ⟨⟨word, stop⟩, hword, h⟩ := bind_eq_ok.mp h
    obtain ⟨sum', hsum, h⟩ := bind_eq_ok.mp h
    obtain ⟨⟨rest, total', stop'⟩, hrest, h⟩ := bind_eq_ok.mp h
    cases h
    obtain ⟨rfl, hfit, hdrop⟩ := readU32At_eq_ok hword
    obtain ⟨words, rfl, rfl, rfl, hnext, htable, hfold⟩ := ih hfit hrest
    refine ⟨word :: words, rfl, rfl, by omega, hnext, ?_, ?_⟩
    · rw [hdrop, htable, List.flatMap_cons, List.append_assoc]
    · rw [List.foldlM_cons]
      exact bind_eq_ok.mpr ⟨sum', hsum, hfold⟩

/-- What blobs that have been read hold. -/
theorem takeEach_eq_ok {limit next : Nat} {lengths : List Nat} {blobs : List Bytes}
    (hcur : cursor ≤ input.length) (hlimit : cursor ≤ limit)
    (h : takeEach overflow short input limit lengths cursor = .ok (blobs, next)) :
    lengths = blobs.map List.length ∧ next = cursor + blobs.flatten.length ∧ next ≤ limit ∧
      next ≤ input.length ∧ input.drop cursor = blobs.flatten ++ input.drop next := by
  induction lengths generalizing cursor blobs next with
  | nil =>
    cases h
    exact ⟨rfl, rfl, hlimit, hcur, rfl⟩
  | cons length lengths ih =>
    rw [takeEach] at h
    obtain ⟨⟨blob, stop⟩, hblob, h⟩ := bind_eq_ok.mp h
    obtain ⟨⟨rest, stop'⟩, hrest, h⟩ := bind_eq_ok.mp h
    cases h
    obtain ⟨rfl, hstop, hfit, rfl, hdrop⟩ := takeUntilAt_eq_ok hblob
    obtain ⟨rfl, rfl, hnext, hend, hblobs⟩ := ih hfit hstop hrest
    refine ⟨rfl, ?_, hnext, hend, ?_⟩
    · rw [List.flatten_cons, List.length_append, Nat.add_assoc]
    · rw [hdrop, hblobs, List.flatten_cons, List.append_assoc]

end Tables

end ByteCodec
