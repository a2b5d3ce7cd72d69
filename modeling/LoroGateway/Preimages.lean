import LoroGateway.Frame
import LoroGateway.Lib.Delimited
import LoroGateway.Manifest
import LoroGateway.Sample

/-!
# What the digests are digests of

The gateway hashes five kinds of byte strings: the updates of a frame, the
content of a checkpoint, the bytes of a checkpoint record, the fields of a
manifest record, and what a delta producer id is made of.  `Preimage` is what
one of the five functions is given, and `Preimage.bytes` is what SHA-256 is
given.

* `DigestKind.tag` starts the bytes, and no tag is the start of another;
* `Preimage.body` follows the tag and shows where its parts end;
* `Preimage.bytes_injective` puts the two together.
-/

namespace LoroGateway

open ByteCodec

/-- The five digest functions. -/
inductive DigestKind
  | updates
  | checkpoint
  | checkpointRecord
  | manifest
  | producer
  deriving DecidableEq

/-- The first bytes that a digest function hashes. -/
def DigestKind.tag : DigestKind → Bytes
  | .updates => ascii "quorum-loro-updates-v1" ++ [0]
  | .checkpoint => ascii "quorum-loro-checkpoint-v1" ++ [0]
  | .checkpointRecord => ascii "quorum-loro-checkpoint-record-v1" ++ [0]
  | .manifest => ascii "quorum-loro-manifest-v1" ++ [0]
  | .producer => ascii "quorum-loro-producer-v1" ++ [0]

/-- The first position at which two tags differ.  Only the two checkpoint tags
agree in the thirteenth byte. -/
def DigestKind.splitAt : DigestKind → DigestKind → Nat
  | .checkpoint, .checkpointRecord => 23
  | .checkpointRecord, .checkpoint => 23
  | _, _ => 12

theorem DigestKind.tag_differ {k k' : DigestKind} (h : k ≠ k') :
    k.splitAt k' < k.tag.length ∧ k.splitAt k' < k'.tag.length ∧
      k.tag[k.splitAt k']? ≠ k'.tag[k.splitAt k']? := by
  cases k <;> cases k' <;> first | exact absurd rfl h | decide

theorem DigestKind.selfDelimiting_tag : SelfDelimiting (fun _ => True) DigestKind.tag := by
  intro k k' s t _ _ heq
  by_cases h : k = k'
  · subst h
    exact ⟨rfl, List.append_cancel_left heq⟩
  · have hdiffer := DigestKind.tag_differ h
    exact absurd heq (append_ne_append _ hdiffer.1 hdiffer.2.1 hdiffer.2.2 s t)

/-- The arguments of one digest function. -/
inductive Preimage
  | updates (updates : List Bytes)
  | checkpoint (snapshot : Bytes) (pendingUpdates : List Bytes)
  | checkpointRecord (bytes : Bytes)
  | manifest (roomHash : ByteArr 32) (revision : UInt64) (previousRecordDigest : ByteArr 32)
      (checkpointGeneration checkpointStreamEndOffset : UInt64)
      (checkpointRecordDigest : ByteArr 32) (activeDeltaGeneration : UInt64)
  | producer (bootId : ByteArr 16) (roomId : String) (generation : GenerationId)

namespace Preimage

/-- What a buffer of a 64-bit machine can be. -/
def SizedBuffer (bytes : Bytes) : Prop := bytes.length < wordSize

def SizedBuffers (buffers : List Bytes) : Prop :=
  buffers.length < wordSize ∧ ∀ bytes ∈ buffers, SizedBuffer bytes

/-- Arguments that a 64-bit machine can hold. -/
def Sized : Preimage → Prop
  | .updates blobs => SizedBuffers blobs
  | .checkpoint snapshot pendingUpdates => SizedBuffer snapshot ∧ SizedBuffers pendingUpdates
  | .checkpointRecord stored => SizedBuffer stored
  | .manifest .. => True
  | .producer .. => True

/-- The bytes that are hashed. -/
def bytes : Preimage → Bytes
  | .updates blobs => Frame.updateDigestInput blobs
  | .checkpoint snapshot pendingUpdates => Checkpoint.digestInput snapshot pendingUpdates
  | .checkpointRecord stored => Manifest.checkpointRecordDigestInput stored
  | .manifest roomHash revision previousRecordDigest checkpointGeneration
      checkpointStreamEndOffset checkpointRecordDigest activeDeltaGeneration =>
    Manifest.manifestDigestInput roomHash revision previousRecordDigest checkpointGeneration
      checkpointStreamEndOffset checkpointRecordDigest activeDeltaGeneration
  | .producer bootId roomId generation => producerInput bootId roomId generation

/-- What the gateway computes from the arguments: a digest, or the id of a producer. -/
def digest [Hashing] : Preimage → ByteArr 32 ⊕ String
  | .updates blobs => .inl (Frame.updateDigest blobs)
  | .checkpoint snapshot pendingUpdates => .inl (Checkpoint.checkpointDigest snapshot pendingUpdates)
  | .checkpointRecord stored => .inl (Manifest.checkpointRecordDigest stored)
  | .manifest roomHash revision previousRecordDigest checkpointGeneration
      checkpointStreamEndOffset checkpointRecordDigest activeDeltaGeneration =>
    .inl (Manifest.manifestDigest roomHash revision previousRecordDigest checkpointGeneration
      checkpointStreamEndOffset checkpointRecordDigest activeDeltaGeneration)
  | .producer bootId roomId generation =>
    .inr (producerIdForGeneration bootId roomId generation)

def kind : Preimage → DigestKind
  | .updates .. => .updates
  | .checkpoint .. => .checkpoint
  | .checkpointRecord .. => .checkpointRecord
  | .manifest .. => .manifest
  | .producer .. => .producer

/-- The bytes behind the tag. -/
def body : Preimage → Bytes
  | .updates blobs => counted prefixed blobs
  | .checkpoint snapshot pendingUpdates => prefixed snapshot ++ counted prefixed pendingUpdates
  | .checkpointRecord stored => prefixed stored
  | .manifest roomHash revision previousRecordDigest checkpointGeneration
      checkpointStreamEndOffset checkpointRecordDigest activeDeltaGeneration =>
    roomHash.val ++ (be64 revision ++ (previousRecordDigest.val ++ (be64 checkpointGeneration ++
      (be64 checkpointStreamEndOffset ++ (checkpointRecordDigest.val ++
        be64 activeDeltaGeneration)))))
  | .producer bootId roomId generation => bootId.val ++ (utf8 roomId ++ be64 generation.value)

theorem bytes_eq (p : Preimage) : p.bytes = p.kind.tag ++ p.body := by
  cases p with
  | updates blobs =>
    show Frame.updateDigestInput blobs = _
    simp only [Frame.updateDigestInput, kind, DigestKind.tag, body, counted, List.append_assoc]
    rfl
  | checkpoint snapshot pendingUpdates =>
    show Checkpoint.digestInput snapshot pendingUpdates = _
    simp only [Checkpoint.digestInput, kind, DigestKind.tag, body, counted, prefixed,
      List.append_assoc]
    rfl
  | checkpointRecord =>
    simp only [bytes, Manifest.checkpointRecordDigestInput, kind, DigestKind.tag, body, prefixed,
      List.append_assoc]
  | manifest =>
    simp only [bytes, Manifest.manifestDigestInput, kind, DigestKind.tag, body, List.append_assoc]
  | producer => simp only [bytes, producerInput, kind, DigestKind.tag, body, List.append_assoc]

theorem selfDelimiting_buffers : SelfDelimiting SizedBuffers (counted prefixed) :=
  selfDelimiting_prefixed.counted

theorem utf8_injective : Function.Injective utf8 := by
  intro s t h
  exact String.toByteArray_inj.1 (ByteArray.ext (Array.toList_inj.1 h))

theorem body_injective {p q : Preimage} (hp : p.Sized) (hq : q.Sized) (hkind : p.kind = q.kind)
    (h : p.body = q.body) : p = q := by
  cases p with
  | updates blobs =>
    cases q with
    | updates blobs' => rw [selfDelimiting_buffers.injOn hp hq h]
    | _ => cases hkind
  | checkpoint snapshot pendingUpdates =>
    cases q with
    | checkpoint snapshot' pendingUpdates' =>
      have hpair : (snapshot, pendingUpdates) = (snapshot', pendingUpdates') :=
        (selfDelimiting_prefixed.seq selfDelimiting_buffers).injOn hp hq h
      rw [(Prod.mk.inj hpair).1, (Prod.mk.inj hpair).2]
    | _ => cases hkind
  | checkpointRecord stored =>
    cases q with
    | checkpointRecord stored' => rw [selfDelimiting_prefixed.injOn hp hq h]
    | _ => cases hkind
  | manifest =>
    cases q with
    | manifest =>
      simp only [body] at h
      obtain ⟨hroom, h⟩ := selfDelimiting_byteArr 32 _ _ _ _ trivial trivial h
      obtain ⟨hrevision, h⟩ := selfDelimiting_be64 _ _ _ _ trivial trivial h
      obtain ⟨hprevious, h⟩ := selfDelimiting_byteArr 32 _ _ _ _ trivial trivial h
      obtain ⟨hcheckpoint, h⟩ := selfDelimiting_be64 _ _ _ _ trivial trivial h
      obtain ⟨hend, h⟩ := selfDelimiting_be64 _ _ _ _ trivial trivial h
      obtain ⟨hdigest, h⟩ := selfDelimiting_byteArr 32 _ _ _ _ trivial trivial h
      rw [hroom, hrevision, hprevious, hcheckpoint, hend, hdigest, be64_injective h]
    | _ => cases hkind
  | producer bootId roomId generation =>
    cases q with
    | producer bootId' roomId' generation' =>
      simp only [body] at h
      obtain ⟨hboot, h⟩ := selfDelimiting_byteArr 16 _ _ _ _ trivial trivial h
      -- the room id has no length, and the generation ends the bytes
      obtain ⟨hroom, hgeneration⟩ := List.append_inj' h (by rw [length_be64, length_be64])
      rw [hboot, utf8_injective hroom, GenerationId.ext (be64_injective hgeneration)]
    | _ => cases hkind

/-- The bytes that are hashed show what was hashed, and by which function. -/
theorem bytes_injective {p q : Preimage} (hp : p.Sized) (hq : q.Sized) (h : p.bytes = q.bytes) :
    p = q := by
  rw [bytes_eq, bytes_eq] at h
  have hparts := DigestKind.selfDelimiting_tag _ _ _ _ trivial trivial h
  exact body_injective hp hq hparts.1 hparts.2

section Digests

variable [Hashing]

/-- A digest is the hash of the bytes, and so is what follows `qlg-` in a producer id. -/
theorem digest_eq (p : Preimage) :
    p.digest = .inl (Hashing.sha256 p.bytes) ∨
      p.digest = .inr ("qlg-" ++ hex (Hashing.sha256 p.bytes).val) := by
  cases p with
  | producer => exact .inr rfl
  | _ => exact .inl rfl

theorem sha256_eq_of_digest {p q : Preimage} (h : p.digest = q.digest) :
    Hashing.sha256 p.bytes = Hashing.sha256 q.bytes := by
  rcases digest_eq p with hp | hp <;> rcases digest_eq q with hq | hq <;> rw [hp, hq] at h
  · exact Sum.inl.inj h
  · cases h
  · cases h
  · have hhex := (String.append_right_inj "qlg-").1 (Sum.inr.inj h)
    exact Subtype.ext (hex_injective hhex)

end Digests

end Preimage

/-- Different arguments are hashed as different bytes, also by different functions.
Where SHA-256 does not collide on the two, the digests differ. -/
theorem digests_unambiguous [Hashing] {p q : Preimage} (hp : p.Sized) (hq : q.Sized) :
    (p.bytes = q.bytes → p = q) ∧
      (Set.InjOn Hashing.sha256 {p.bytes, q.bytes} → p.digest = q.digest → p = q) := by
  have hbytes := Preimage.bytes_injective hp hq
  refine ⟨hbytes, fun hfree hdigest => hbytes ?_⟩
  exact hfree (.inl rfl) (.inr rfl) (Preimage.sha256_eq_of_digest hdigest)

section

open Sample

/-- Where an empty update stands is part of what is hashed. -/
theorem digests_unambiguous_sample :
    (Preimage.updates [[], [1]]).bytes ≠ (Preimage.updates [[1], []]).bytes ∧
      (Preimage.updates [[], [1]]).digest ≠ (Preimage.updates [[1], []]).digest := by
  have hsized : ∀ blobs : List Bytes, blobs.length = 2 → (∀ bytes ∈ blobs, bytes.length ≤ 1) →
      (Preimage.updates blobs).Sized := by
    intro blobs hcount hlength
    refine ⟨by rw [hcount]; decide, fun bytes hmem => ?_⟩
    exact Nat.lt_of_le_of_lt (hlength bytes hmem) (by decide)
  have hunambiguous := digests_unambiguous (hsized [[], [1]] rfl (by decide))
    (hsized [[1], []] rfl (by decide))
  have hne : Preimage.updates [[], [1]] ≠ Preimage.updates [[1], []] := by simp
  refine ⟨mt hunambiguous.1 hne, mt (hunambiguous.2 (Set.injOn_pair.2 ?_)) hne⟩
  intro h
  exact absurd h (by decide +kernel)

end

end LoroGateway
