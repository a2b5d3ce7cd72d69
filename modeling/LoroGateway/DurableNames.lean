import LoroGateway.Preimages

/-!
# Durable names do not collide

A room has a manifest stream and, for each generation, a checkpoint stream and
a delta stream.  Its records are written by one producer for the manifest, one
for each checkpoint, and one for each boot and delta generation.  All names
carry a hash, so the results are about inputs on which SHA-256 has no collision.

* `StreamKind.physicalSuffix` and `StreamKind.logicalSuffix` are what follows
  the hash of the room in a stream name, and tell the streams of a room apart;
* `hex_alphabet` and `repr_alphabet` say which characters names are made of;
* `producerOf_inj` tells the producers apart, also where no hash is shared.
-/

namespace LoroGateway

open ByteCodec

/-- The streams of a room. -/
inductive StreamKind
  | manifest
  | checkpoint (generation : GenerationId)
  | delta (generation : GenerationId)
  deriving DecidableEq

/-- The producers of the records of a room. -/
inductive ProducerKind
  | manifest
  | checkpoint (generation : GenerationId)
  | delta (bootId : ByteArr 16) (generation : GenerationId)

section Names

variable [Hashing]

def streamOf (roomId : String) : StreamKind → StreamName
  | .manifest => manifestStream roomId
  | .checkpoint generation => checkpointStream roomId generation
  | .delta generation => deltaStreamForGeneration roomId generation

def producerOf (roomId : String) : ProducerKind → String
  | .manifest => manifestProducerId roomId
  | .checkpoint generation => checkpointProducerId roomId generation
  | .delta bootId generation => producerIdForGeneration bootId roomId generation

/-- What SHA-256 is given for a producer. -/
def ProducerKind.hashed (roomId : String) : ProducerKind → Bytes
  | .manifest => utf8 roomId
  | .checkpoint _ => utf8 roomId
  | .delta bootId generation => producerInput bootId roomId generation

end Names

/-! ## Numbers and hexadecimal digits -/

/-- The characters of physical names. -/
def NameChar (c : Char) : Prop := c = '-' ∨ ('a' ≤ c ∧ c ≤ 'z') ∨ ('0' ≤ c ∧ c ≤ '9')

instance (c : Char) : Decidable (NameChar c) := inferInstanceAs (Decidable (_ ∨ _ ∨ _))

theorem hexDigit_mem (n : Nat) : hexDigit n ∈ "0123456789abcdef".toList := by
  unfold hexDigit
  by_cases h : n < "0123456789abcdef".toList.length
  · rw [List.getD_eq_getElem _ _ h]
    exact List.getElem_mem h
  · rw [List.getD_eq_default _ _ (Nat.le_of_not_lt h)]
    decide

theorem hex_alphabet {bytes : Bytes} {c : Char} (h : c ∈ (hex bytes).toList) :
    c ∈ "0123456789abcdef".toList := by
  unfold hex at h
  rw [String.toList_ofList, List.mem_flatMap] at h
  obtain ⟨byte, _, hmem⟩ := h
  simp only [List.mem_cons, List.not_mem_nil, or_false] at hmem
  rcases hmem with rfl | rfl
  · exact hexDigit_mem _
  · exact hexDigit_mem _

theorem nameChar_hex {bytes : Bytes} {c : Char} (h : c ∈ (hex bytes).toList) : NameChar c := by
  have hall : ∀ c ∈ "0123456789abcdef".toList, NameChar c := by simp [NameChar]
  exact hall c (hex_alphabet h)

theorem nameChar_repr {n : Nat} {c : Char} (h : c ∈ n.repr.toList) : NameChar c := by
  rw [Nat.toList_repr] at h
  have hdigit := Nat.isDigit_of_mem_toDigits (by decide) (by decide) h
  rw [Char.isDigit, Bool.and_eq_true, decide_eq_true_iff, decide_eq_true_iff] at hdigit
  exact .inr (.inr hdigit)

/-- A character of a name takes one byte. -/
theorem utf8Size_nameChar {c : Char} (h : NameChar c) : c.utf8Size = 1 := by
  rw [Char.utf8Size_eq_one_iff]
  have hle : c ≤ Char.ofNat 127 := by
    rcases h with rfl | h | h
    · decide
    · exact h.2.trans (by decide)
    · exact h.2.trans (by decide)
  exact hle

theorem length_utf8 {s : String} (h : ∀ c ∈ s.toList, NameChar c) :
    (utf8 s).length = s.toList.length := by
  have hbytes : utf8 s = s.toList.flatMap String.utf8EncodeChar := by
    unfold utf8
    rw [← String.ofList_toList (s := s), String.toByteArray_ofList, String.toList_ofList,
      List.utf8Encode, List.data_toByteArray]
  rw [hbytes, List.length_flatMap]
  have hone : ∀ c ∈ s.toList, (String.utf8EncodeChar c).length = 1 := by
    intro c hmem
    rw [String.length_utf8EncodeChar]
    exact utf8Size_nameChar (h c hmem)
  rw [List.map_congr_left hone, List.map_const', List.sum_replicate, smul_eq_mul, Nat.mul_one]

/-! ## Streams -/

/-- What follows the hash of the room in a physical name. -/
def StreamKind.physicalSuffix : StreamKind → String
  | .manifest => "-m"
  | .checkpoint generation => "-c" ++ generation.value.toNat.repr
  | .delta generation => "-d" ++ generation.value.toNat.repr

/-- What follows the hash of the room in a logical name. -/
def StreamKind.logicalSuffix : StreamKind → String
  | .manifest => "/manifest"
  | .checkpoint generation => "/checkpoint/" ++ generation.value.toNat.repr
  | .delta generation => "/delta/" ++ generation.value.toNat.repr

theorem StreamKind.physicalSuffix_inj {k k' : StreamKind}
    (h : k.physicalSuffix = k'.physicalSuffix) : k = k' := by
  have hchars := congrArg String.toList h
  cases k <;> cases k' <;> simp [physicalSuffix] at h hchars ⊢
  · exact GenerationId.ext (UInt64.toNat_inj.1 h)
  · exact GenerationId.ext (UInt64.toNat_inj.1 h)

theorem StreamKind.logicalSuffix_inj {k k' : StreamKind}
    (h : k.logicalSuffix = k'.logicalSuffix) : k = k' := by
  have hchars := congrArg String.toList h
  cases k <;> cases k' <;> simp [logicalSuffix] at h hchars ⊢
  · exact GenerationId.ext (UInt64.toNat_inj.1 h)
  · exact GenerationId.ext (UInt64.toNat_inj.1 h)

section Streams

variable [Hashing] {roomId roomId' : String}

theorem physical_streamOf (roomId : String) (k : StreamKind) :
    (streamOf roomId k).physical = "r-" ++ documentHash roomId ++ k.physicalSuffix := by
  cases k with
  | manifest => rfl
  | checkpoint generation => exact String.append_assoc
  | delta generation => exact String.append_assoc

theorem logical_streamOf (roomId : String) (k : StreamKind) :
    (streamOf roomId k).logical = "room/" ++ documentHash roomId ++ k.logicalSuffix := by
  cases k with
  | manifest => rfl
  | checkpoint generation => exact String.append_assoc
  | delta generation => exact String.append_assoc

theorem length_documentHash (roomId : String) : (documentHash roomId).toList.length = 64 := by
  unfold documentHash
  rw [length_hex, (Hashing.sha256 (utf8 roomId)).property]

theorem documentHash_inj (hfree : Set.InjOn Hashing.sha256 {utf8 roomId, utf8 roomId'})
    (h : documentHash roomId = documentHash roomId') : roomId = roomId' :=
  Preimage.utf8_injective (hfree (.inl rfl) (.inr rfl) (Subtype.ext (hex_injective h)))

/-- The hash of a room has one length, so what follows it can be told. -/
theorem documentHash_append {front s s' : String}
    (h : front ++ documentHash roomId ++ s = front ++ documentHash roomId' ++ s') :
    documentHash roomId = documentHash roomId' ∧ s = s' := by
  rw [String.append_assoc, String.append_assoc, String.append_right_inj] at h
  have hchars := congrArg String.toList h
  rw [String.toList_append, String.toList_append] at hchars
  have hparts := List.append_inj hchars (by rw [length_documentHash, length_documentHash])
  exact ⟨String.toList_inj.1 hparts.1, String.toList_inj.1 hparts.2⟩

theorem physical_inj {k k' : StreamKind}
    (hfree : Set.InjOn Hashing.sha256 {utf8 roomId, utf8 roomId'})
    (h : (streamOf roomId k).physical = (streamOf roomId' k').physical) :
    roomId = roomId' ∧ k = k' := by
  rw [physical_streamOf, physical_streamOf] at h
  have hparts := documentHash_append h
  exact ⟨documentHash_inj hfree hparts.1, StreamKind.physicalSuffix_inj hparts.2⟩

theorem logical_inj {k k' : StreamKind}
    (hfree : Set.InjOn Hashing.sha256 {utf8 roomId, utf8 roomId'})
    (h : (streamOf roomId k).logical = (streamOf roomId' k').logical) :
    roomId = roomId' ∧ k = k' := by
  rw [logical_streamOf, logical_streamOf] at h
  have hparts := documentHash_append h
  exact ⟨documentHash_inj hfree hparts.1, StreamKind.logicalSuffix_inj hparts.2⟩

theorem nameChar_physical {k : StreamKind} {c : Char}
    (h : c ∈ (streamOf roomId k).physical.toList) : NameChar c := by
  rw [physical_streamOf, String.toList_append, String.toList_append, List.mem_append,
    List.mem_append] at h
  have hfront : ∀ front ∈ ["r-", "-m", "-c", "-d"], ∀ c ∈ front.toList, NameChar c := by simp [NameChar]
  rcases h with (h | h) | h
  · exact hfront "r-" (by simp) c h
  · exact nameChar_hex h
  · cases k with
    | manifest => exact hfront "-m" (by simp) c h
    | checkpoint generation =>
      rw [StreamKind.physicalSuffix, String.toList_append, List.mem_append] at h
      exact h.elim (hfront "-c" (by simp) c) nameChar_repr
    | delta generation =>
      rw [StreamKind.physicalSuffix, String.toList_append, List.mem_append] at h
      exact h.elim (hfront "-d" (by simp) c) nameChar_repr

omit [Hashing] in
theorem length_repr (g : GenerationId) : g.value.toNat.repr.toList.length ≤ 20 := by
  rw [String.length_toList, Nat.length_repr_le_iff (by decide)]
  exact g.value.toNat_lt.trans (by decide)

theorem length_physical (roomId : String) (k : StreamKind) :
    (utf8 (streamOf roomId k).physical).length ≤ 88 := by
  rw [length_utf8 fun c h => nameChar_physical h, physical_streamOf, String.toList_append,
    String.toList_append, List.length_append, List.length_append, length_documentHash]
  have hsuffix : k.physicalSuffix.toList.length ≤ 22 := by
    cases k with
    | manifest => decide
    | checkpoint generation =>
      rw [StreamKind.physicalSuffix, String.toList_append, List.length_append]
      exact Nat.add_le_add (Nat.le_refl 2) (length_repr generation)
    | delta generation =>
      rw [StreamKind.physicalSuffix, String.toList_append, List.length_append]
      exact Nat.add_le_add (Nat.le_refl 2) (length_repr generation)
  have hfront : "r-".toList.length = 2 := by decide
  omega

end Streams

/-! ## Producers -/

section Producers

variable [Hashing] {roomId roomId' : String}

omit [Hashing] in
/-- A character that is no hexadecimal digit tells a name from a hash. -/
theorem ne_hex_of_mem {s : String} {bytes : Bytes} {c : Char} (h : c ∈ s.toList)
    (hc : c ∉ "0123456789abcdef".toList) : s ≠ hex bytes := by
  intro heq
  exact hc (hex_alphabet (heq ▸ h))

theorem manifestProducerId_ne_hex (roomId : String) (bytes : Bytes) :
    manifestProducerId roomId ≠ "qlg-" ++ hex bytes := by
  have hid : manifestProducerId roomId = "qlg-" ++ ("manifest-" ++ documentHash roomId) := by
    rw [← String.append_assoc]
    rfl
  rw [hid, Ne, String.append_right_inj]
  apply ne_hex_of_mem (c := 'm')
  · rw [String.toList_append, List.mem_append]
    exact .inl (by decide)
  · decide

theorem checkpointProducerId_ne_hex (roomId : String) (g : GenerationId) (bytes : Bytes) :
    checkpointProducerId roomId g ≠ "qlg-" ++ hex bytes := by
  have hid : checkpointProducerId roomId g =
      "qlg-" ++ ("checkpoint-" ++ (documentHash roomId ++ ("-" ++ g.value.toNat.repr))) := by
    rw [← String.append_assoc, ← String.append_assoc, ← String.append_assoc]
    rfl
  rw [hid, Ne, String.append_right_inj]
  apply ne_hex_of_mem (c := 'h')
  · rw [String.toList_append, List.mem_append]
    exact .inl (by decide)
  · decide

theorem manifestProducerId_ne_checkpointProducerId (roomId roomId' : String) (g : GenerationId) :
    manifestProducerId roomId ≠ checkpointProducerId roomId' g := by
  intro h
  have hchars := congrArg (fun s => s.toList[4]?) h
  simp [manifestProducerId, checkpointProducerId] at hchars

theorem checkpointProducerId_inj {g g' : GenerationId}
    (hfree : Set.InjOn Hashing.sha256 {utf8 roomId, utf8 roomId'})
    (h : checkpointProducerId roomId g = checkpointProducerId roomId' g') :
    roomId = roomId' ∧ g = g' := by
  have hassoc : "qlg-checkpoint-" ++ documentHash roomId ++ ("-" ++ g.value.toNat.repr) =
      "qlg-checkpoint-" ++ documentHash roomId' ++ ("-" ++ g'.value.toNat.repr) := by
    rw [← String.append_assoc, ← String.append_assoc]
    exact h
  have hparts := documentHash_append hassoc
  have hgeneration := (String.append_right_inj "-").1 hparts.2
  exact ⟨documentHash_inj hfree hparts.1,
    GenerationId.ext (UInt64.toNat_inj.1 (Nat.repr_inj.1 hgeneration))⟩

theorem producerIdForGeneration_inj {bootId bootId' : ByteArr 16} {g g' : GenerationId}
    (hfree : Set.InjOn Hashing.sha256
      {producerInput bootId roomId g, producerInput bootId' roomId' g'})
    (h : producerIdForGeneration bootId roomId g = producerIdForGeneration bootId' roomId' g') :
    roomId = roomId' ∧ bootId = bootId' ∧ g = g' := by
  have hsame : (Preimage.producer bootId roomId g).digest =
      (Preimage.producer bootId' roomId' g').digest := congrArg Sum.inr h
  have hbytes := hfree (.inl rfl) (.inr rfl) (Preimage.sha256_eq_of_digest hsame)
  have heq := Preimage.bytes_injective (p := .producer bootId roomId g)
    (q := .producer bootId' roomId' g') trivial trivial hbytes
  injection heq with hboot hroom hgeneration
  exact ⟨hroom, hboot, hgeneration⟩

theorem producerOf_inj {k k' : ProducerKind}
    (hfree : Set.InjOn Hashing.sha256 {k.hashed roomId, k'.hashed roomId'})
    (h : producerOf roomId k = producerOf roomId' k') : roomId = roomId' ∧ k = k' := by
  cases k with
  | manifest =>
    cases k' with
    | manifest =>
      have hhash := (String.append_right_inj "qlg-manifest-").1 h
      exact ⟨documentHash_inj hfree hhash, rfl⟩
    | checkpoint g => exact absurd h (manifestProducerId_ne_checkpointProducerId _ _ _)
    | delta bootId g => exact absurd h (manifestProducerId_ne_hex _ _)
  | checkpoint g =>
    cases k' with
    | manifest => exact absurd h.symm (manifestProducerId_ne_checkpointProducerId _ _ _)
    | checkpoint g' =>
      have hparts := checkpointProducerId_inj hfree h
      exact ⟨hparts.1, by rw [hparts.2]⟩
    | delta bootId g' => exact absurd h (checkpointProducerId_ne_hex _ _ _)
  | delta bootId g =>
    cases k' with
    | manifest => exact absurd h.symm (manifestProducerId_ne_hex _ _)
    | checkpoint g' => exact absurd h.symm (checkpointProducerId_ne_hex _ _ _)
    | delta bootId' g' =>
      have hparts := producerIdForGeneration_inj hfree h
      exact ⟨hparts.1, by rw [hparts.2.1, hparts.2.2]⟩

/-- Where SHA-256 does not collide on what the names of two rooms hash, a name
belongs to one room, one kind and one generation, and one boot where a boot
takes part in it.  Physical names are short and plain. -/
theorem durable_names_distinct {stream stream' : StreamKind} {producer producer' : ProducerKind}
    (hstreams : Set.InjOn Hashing.sha256 {utf8 roomId, utf8 roomId'})
    (hproducers : Set.InjOn Hashing.sha256 {producer.hashed roomId, producer'.hashed roomId'}) :
    ((streamOf roomId stream).physical = (streamOf roomId' stream').physical →
      roomId = roomId' ∧ stream = stream') ∧
    ((streamOf roomId stream).logical = (streamOf roomId' stream').logical →
      roomId = roomId' ∧ stream = stream') ∧
    ((utf8 (streamOf roomId stream).physical).length ≤ 117 ∧
      ∀ c ∈ (streamOf roomId stream).physical.toList, NameChar c) ∧
    (producerOf roomId producer = producerOf roomId' producer' →
      roomId = roomId' ∧ producer = producer') := by
  have hlength := length_physical roomId stream
  refine ⟨physical_inj hstreams, logical_inj hstreams, ⟨by omega, ?_⟩, producerOf_inj hproducers⟩
  intro c hmem
  exact nameChar_physical hmem

end Producers

section

open Sample

/-- The checkpoint of one room and the delta of another, and their producers. -/
theorem durable_names_distinct_sample :
    (streamOf "a" (.checkpoint ⟨7⟩)).physical ≠ (streamOf "b" (.delta ⟨7⟩)).physical ∧
      producerOf "a" (.checkpoint ⟨7⟩) ≠ producerOf "b" (.delta (ByteArr.zero 16) ⟨7⟩) := by
  have hfree : ∀ x y : Bytes, sampleHashing.sha256 x ≠ sampleHashing.sha256 y →
      Set.InjOn Hashing.sha256 {x, y} := fun x y h => Set.injOn_pair.2 fun heq => absurd heq h
  have hdistinct : ((streamOf "a" (.checkpoint ⟨7⟩)).physical = (streamOf "b" (.delta ⟨7⟩)).physical →
      _) ∧ _ ∧ _ ∧ (producerOf "a" (.checkpoint ⟨7⟩) = producerOf "b" (.delta (ByteArr.zero 16) ⟨7⟩) →
      _) :=
    durable_names_distinct (hfree _ _ (by decide +kernel)) (hfree _ _ (by decide +kernel))
  exact ⟨fun h => absurd (hdistinct.1 h).1 (by decide),
    fun h => absurd (hdistinct.2.2.2 h).1 (by decide)⟩

end

end LoroGateway
