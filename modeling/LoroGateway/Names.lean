import Mathlib
import LoroGateway.Lib.Bytes

/-!
# Durable names

`src/names.rs`.  A room has one manifest stream and, for each generation, one
checkpoint stream and one delta stream.  All their names carry the SHA-256 hash
of the room id in hexadecimal, and so do the producer ids.

SHA-256 and CRC32 come from two crates.  `Hashing` is what the gateway uses of
them: two fixed functions of the bytes.
-/

namespace LoroGateway

open ByteCodec

/-- The two checksums of the gateway. -/
class Hashing where
  sha256 : Bytes → ByteArr 32
  crc32 : Bytes → UInt32

/-- The UTF-8 bytes of a string. -/
def utf8 (s : String) : Bytes := s.toByteArray.data.toList

/-- A literal byte string. -/
def ascii (s : String) : Bytes := utf8 s

@[ext]
structure GenerationId where
  value : UInt64
  deriving DecidableEq, Repr

namespace GenerationId

def zero : GenerationId := ⟨0⟩

def checkedNext (generation : GenerationId) : Option GenerationId :=
  (checkedAddU64 generation.value 1).map GenerationId.mk

theorem checkedNext_eq_some {generation next : GenerationId} :
    generation.checkedNext = some next ↔ next.value.toNat = generation.value.toNat + 1 := by
  rw [checkedNext, Option.map_eq_some_iff]
  constructor
  · rintro ⟨value, hvalue, rfl⟩
    exact checkedAddU64_eq_some.mp hvalue
  · exact fun h => ⟨next.value, checkedAddU64_eq_some.mpr h, rfl⟩

end GenerationId

structure StreamName where
  logical : String
  physical : String
  deriving DecidableEq, Repr

/-- One hexadecimal digit. -/
def hexDigit (n : Nat) : Char := "0123456789abcdef".toList.getD n '0'

def hex (bytes : Bytes) : String :=
  String.ofList (bytes.flatMap fun byte => [hexDigit (byte.toNat / 16), hexDigit (byte.toNat % 16)])

theorem length_hex (bytes : Bytes) : (hex bytes).toList.length = 2 * bytes.length := by
  rw [hex, String.toList_ofList, List.length_flatMap]
  simp [Nat.mul_comm]

theorem hex_append (left right : Bytes) :
    (hex (left ++ right)).toList = (hex left).toList ++ (hex right).toList := by
  simp only [hex, String.toList_ofList, List.flatMap_append]

theorem hexDigit_inj : ∀ i < 16, ∀ j < 16, hexDigit i = hexDigit j → i = j := by decide

theorem hex_injective : Function.Injective hex := by
  intro left right h
  have hlists := congrArg String.toList h
  simp only [hex, String.toList_ofList] at hlists
  clear h
  induction left generalizing right with
  | nil =>
    cases right with
    | nil => rfl
    | cons byte right => cases hlists
  | cons byte left ih =>
    cases right with
    | nil => cases hlists
    | cons byte' right =>
      simp only [List.flatMap_cons, List.cons_append, List.nil_append, List.cons.injEq] at hlists
      obtain ⟨hhigh, hlow, hrest⟩ := hlists
      have hlt := byte.toNat_lt
      have hlt' := byte'.toNat_lt
      have hhigh := hexDigit_inj _ (by omega) _ (by omega) hhigh
      have hlow := hexDigit_inj _ (by omega) _ (by omega) hlow
      rw [UInt8.toNat_inj.mp (by omega : byte.toNat = byte'.toNat), ih hrest]

section Names

variable [Hashing]

def documentHash (roomId : String) : String := hex (Hashing.sha256 (utf8 roomId)).val

def manifestStream (roomId : String) : StreamName where
  logical := "room/" ++ documentHash roomId ++ "/manifest"
  physical := "r-" ++ documentHash roomId ++ "-m"

def deltaStreamForGeneration (roomId : String) (generation : GenerationId) : StreamName where
  logical := "room/" ++ documentHash roomId ++ "/delta/" ++ generation.value.toNat.repr
  physical := "r-" ++ documentHash roomId ++ "-d" ++ generation.value.toNat.repr

def deltaStream (roomId : String) : StreamName :=
  deltaStreamForGeneration roomId GenerationId.zero

def checkpointStream (roomId : String) (generation : GenerationId) : StreamName where
  logical := "room/" ++ documentHash roomId ++ "/checkpoint/" ++ generation.value.toNat.repr
  physical := "r-" ++ documentHash roomId ++ "-c" ++ generation.value.toNat.repr

/-- The bytes that a producer id is the hash of. -/
def producerInput (bootId : ByteArr 16) (roomId : String) (generation : GenerationId) : Bytes :=
  ascii "quorum-loro-producer-v1" ++ [0] ++ bootId.val ++ utf8 roomId ++ be64 generation.value

def producerIdForGeneration (bootId : ByteArr 16) (roomId : String) (generation : GenerationId) :
    String :=
  "qlg-" ++ hex (Hashing.sha256 (producerInput bootId roomId generation)).val

def producerId (bootId : ByteArr 16) (roomId : String) : String :=
  producerIdForGeneration bootId roomId GenerationId.zero

def manifestProducerId (roomId : String) : String := "qlg-manifest-" ++ documentHash roomId

def checkpointProducerId (roomId : String) (generation : GenerationId) : String :=
  "qlg-checkpoint-" ++ documentHash roomId ++ "-" ++ generation.value.toNat.repr

end Names

/-! ## Streams of one room do not share a name -/

section Distinct

variable [Hashing] {roomId : String} {g g' : GenerationId}

theorem deltaStream_inj (h : (deltaStreamForGeneration roomId g).physical =
    (deltaStreamForGeneration roomId g').physical) : g = g' := by
  simp only [deltaStreamForGeneration, String.append_right_inj] at h
  exact GenerationId.ext (UInt64.toNat_inj.mp (Nat.repr_inj.mp h))

/-- Two producer ids are equal only when SHA-256 maps two inputs to one digest. -/
theorem producerId_generation {bootId bootId' : ByteArr 16}
    (hinj : Set.InjOn Hashing.sha256
      {input | ∃ bootId generation, input = producerInput bootId roomId generation})
    (h : producerIdForGeneration bootId roomId g = producerIdForGeneration bootId' roomId g') :
    g = g' := by
  have hhex := String.append_right_inj "qlg-" |>.mp h
  have hdigest := Subtype.ext (hex_injective hhex)
  have hinput : producerInput bootId roomId g = producerInput bootId' roomId g' :=
    hinj ⟨bootId, g, rfl⟩ ⟨bootId', g', rfl⟩ hdigest
  have hvalue := (List.append_inj' hinput (by rw [length_be64, length_be64])).2
  refine GenerationId.ext ?_
  rw [← ofBE_be64 g.value, hvalue, ofBE_be64]

theorem checkpointStream_inj
    (h : (checkpointStream roomId g).physical = (checkpointStream roomId g').physical) : g = g' := by
  simp only [checkpointStream, String.append_right_inj] at h
  exact GenerationId.ext (UInt64.toNat_inj.mp (Nat.repr_inj.mp h))

theorem deltaStream_ne_checkpointStream :
    (deltaStreamForGeneration roomId g).physical ≠ (checkpointStream roomId g').physical := by
  intro h
  simp only [deltaStreamForGeneration, checkpointStream, String.append_assoc,
    String.append_right_inj] at h
  simpa using congrArg String.toList h

theorem deltaStream_ne_manifestStream :
    (deltaStreamForGeneration roomId g).physical ≠ (manifestStream roomId).physical := by
  intro h
  simp only [deltaStreamForGeneration, manifestStream, String.append_assoc,
    String.append_right_inj] at h
  simpa using congrArg String.toList h

theorem checkpointStream_ne_manifestStream :
    (checkpointStream roomId g).physical ≠ (manifestStream roomId).physical := by
  intro h
  simp only [checkpointStream, manifestStream, String.append_assoc, String.append_right_inj] at h
  simpa using congrArg String.toList h

end Distinct

end LoroGateway
