import LoroGateway.Loro
import LoroGateway.Names

/-!
# Libraries that are small enough to run

The gateway is modelled for any two checksums and any document library.  Here
are some that evaluate inside a proof.

* `sampleHashing` keeps the last 32 bytes of a message, and counts the bytes for
  the short checksum.
* `OpDoc` is a document of eight operations.  The operation with an odd number
  depends on the one before it.  A blob is a tag, zero for a snapshot and one for
  updates, followed by one byte for each operation.

`OpDoc.semantics` and `OpDoc.total` show that the assumptions on a document
library can be met.
-/

namespace LoroGateway

open ByteCodec Causal

namespace Sample

scoped instance sampleHashing : Hashing where
  sha256 bytes := ⟨(List.replicate 32 0 ++ bytes).drop bytes.length, by
    simp only [List.length_drop, List.length_append, List.length_replicate]
    omega⟩
  crc32 bytes := UInt32.ofNat bytes.length

end Sample

/-- A document, as the list of the operations that it has received. -/
structure OpDoc where
  received : List (Fin 8)
  deriving DecidableEq

namespace OpDoc

/-- The operation that a byte names. -/
def opOf (byte : UInt8) : Fin 8 := Fin.ofNat 8 byte.toNat

def byteOf (o : Fin 8) : UInt8 := UInt8.ofNat o.val

theorem opOf_byteOf (o : Fin 8) : opOf (byteOf o) = o := by
  revert o
  decide

/-- What an operation depends on. -/
def deps (o : Fin 8) : List (Fin 8) := (List.finRange 8).filter fun d => o.val % 2 = 1 ∧ d.val + 1 = o.val

/-- Has the operation been received, with all it depends on? -/
def isApplied (received : List (Fin 8)) (o : Fin 8) : Bool :=
  received.contains o && (deps o).all received.contains

/-- The applied operations, in order. -/
def appliedOps (doc : OpDoc) : List (Fin 8) := (List.finRange 8).filter (isApplied doc.received)

/-- Is the blob a tag with operations? -/
def wellTagged : Bytes → Bool
  | tag :: _ => tag ≤ 1
  | [] => false

def opsOf (blob : Bytes) : List (Fin 8) := blob.tail.map opOf

def receive (doc : OpDoc) (blobs : List Bytes) : OpDoc := ⟨doc.received ++ blobs.flatMap opsOf⟩

/-- Is some operation of the blobs waiting? -/
def waits (doc : OpDoc) (blobs : List Bytes) : Bool :=
  !(blobs.flatMap opsOf).all (isApplied doc.received)

def importBatch (doc : OpDoc) (blobs : List Bytes) : Except String (OpDoc × Bool) :=
  if blobs.all wellTagged then .ok (doc.receive blobs, (doc.receive blobs).waits blobs)
  else .error "unknown encoding"

instance : Loro OpDoc where
  Version := List (Fin 8)
  Value := List (Fin 8)
  decEqVersion := inferInstance
  decEqValue := inferInstance
  new := ⟨[]⟩
  fromSnapshot bytes :=
    if bytes.head? = some 0 then .ok ⟨opsOf bytes⟩ else .error "not a snapshot"
  importBlob doc blob := doc.importBatch [blob]
  importBatch := importBatch
  exportSnapshot doc := .ok (0 :: doc.appliedOps.map byteOf)
  exportUpdates doc version :=
    .ok (1 :: (doc.appliedOps.filter fun o => !version.contains o).map byteOf)
  decodeImportBlobMeta blob :=
    match blob with
    | 0 :: _ => .ok .snapshot
    | 1 :: _ => .ok .updates
    | _ => .error "unknown encoding"
  oplogVV := appliedOps
  getDeepValue := appliedOps
  lenOps doc := doc.appliedOps.length
  encodeVersion version := version.map byteOf
  decodeVersion bytes := .ok (bytes.map opOf)

/-- The operations of a document. -/
def observers : Loro.Observers OpDoc (Fin 8) where
  deps o := {d | d ∈ deps o}
  applied doc := {o | isApplied doc.received o = true}
  pending doc := {o | o ∈ doc.received ∧ isApplied doc.received o = false}
  blobOps blob := {o | o ∈ opsOf blob}
  versionOps := fun (version : List (Fin 8)) => {o | o ∈ version}

theorem isApplied_iff {received : List (Fin 8)} {o : Fin 8} :
    isApplied received o = true ↔ o ∈ received ∧ ∀ d ∈ deps o, d ∈ received := by
  simp [isApplied]

/-- An operation that others depend on depends on nothing. -/
theorem deps_deps : ∀ o d : Fin 8, d ∈ deps o → deps d = [] := by decide

theorem known_eq (doc : OpDoc) : observers.known doc = {o | o ∈ doc.received} := by
  ext o
  change isApplied doc.received o = true ∨ (o ∈ doc.received ∧ isApplied doc.received o = false) ↔ _
  rw [Set.mem_ofPred_eq]
  constructor
  · rintro (h | h)
    · exact (isApplied_iff.mp h).1
    · exact h.1
  · intro h
    cases happlied : isApplied doc.received o with
    | true => exact .inl rfl
    | false => exact .inr ⟨h, rfl⟩

theorem mem_appliedOps {doc : OpDoc} {o : Fin 8} :
    o ∈ doc.appliedOps ↔ isApplied doc.received o = true := by
  simp [appliedOps]

theorem opsOf_encode (tag : UInt8) (ops : List (Fin 8)) : opsOf (tag :: ops.map byteOf) = ops := by
  have hid : opOf ∘ byteOf = id := funext opOf_byteOf
  rw [opsOf, List.tail_cons, List.map_map, hid, List.map_id]

theorem importBatch_eq_ok {doc doc' : OpDoc} {blobs : List Bytes} {flag : Bool}
    (h : doc.importBatch blobs = .ok (doc', flag)) :
    doc' = doc.receive blobs ∧ flag = doc'.waits blobs := by
  rw [importBatch] at h
  split_ifs at h
  cases h
  exact ⟨rfl, rfl⟩

theorem receive_known (doc : OpDoc) (blobs : List Bytes) :
    observers.known (doc.receive blobs) = observers.known doc ∪ observers.ops blobs := by
  rw [known_eq, known_eq]
  ext o
  simp [receive, Loro.Observers.ops, observers]

/-- The document library meets what the gateway assumes of it. -/
theorem semantics : Loro.Semantics observers where
  applied_eq doc := by
    rw [known_eq]
    ext o
    constructor
    · intro h
      obtain ⟨hmem, hdeps⟩ := isApplied_iff.mp h
      refine ⟨hmem, fun d hd => ⟨hdeps d hd, fun d' hd' => ?_⟩⟩
      have hempty := deps_deps o d hd
      exact absurd (hempty ▸ hd' : d' ∈ ([] : List (Fin 8))) List.not_mem_nil
    · rintro ⟨hmem, hready⟩
      refine isApplied_iff.mpr ⟨hmem, fun d hd => ?_⟩
      obtain ⟨hknown, _⟩ := hready d hd
      exact hknown
  disjoint doc := by
    refine Set.disjoint_left.mpr ?_
    rintro o (happlied : _ = true) ⟨_, hnot⟩
    exact absurd happlied (by rw [hnot]; decide)
  known_new := by
    rw [known_eq]
    ext o
    simp [Loro.new]
  importBlob_known h := by
    rw [(importBatch_eq_ok h).1, receive_known, Loro.Observers.ops_singleton]
  importBlob_flag := by
    intro doc blob doc' flag h
    rw [(importBatch_eq_ok h).2]
    simp [waits, Set.subset_def, observers]
  importBatch_known h := by
    rw [(importBatch_eq_ok h).1, receive_known]
  snapshot_ops := by
    rintro doc bytes ⟨⟩
    ext o
    change o ∈ opsOf (0 :: doc.appliedOps.map byteOf) ↔ _
    rw [opsOf_encode]
    exact mem_appliedOps
  restore_known := by
    intro doc bytes h
    have h : (if bytes.head? = some 0 then Except.ok (OpDoc.mk (opsOf bytes))
      else Except.error "not a snapshot") = .ok doc := h
    split_ifs at h
    cases h
    rw [known_eq]
    rfl
  updates_ops := by
    rintro doc version bytes ⟨⟩
    change {o | o ∈ opsOf (1 :: (List.filter _ doc.appliedOps).map byteOf)} ⊆ _ ∧ _
    refine ⟨fun o ho => ?_, fun o ho => ?_⟩
    · rw [Set.mem_ofPred_eq, opsOf_encode, List.mem_filter] at ho
      exact mem_appliedOps.mp ho.1
    · by_cases hversion : o ∈ observers.versionOps version
      · exact .inr hversion
      · refine .inl ?_
        change o ∈ opsOf (1 :: (List.filter _ doc.appliedOps).map byteOf)
        rw [opsOf_encode, List.mem_filter]
        refine ⟨mem_appliedOps.mpr ho, ?_⟩
        rw [Bool.not_eq_true', List.contains_eq_mem, decide_eq_false_iff_not]
        exact hversion

/-- Its exports succeed. -/
theorem exports : Loro.Exports observers where
  snapshot_total _ := ⟨_, rfl⟩
  updates_total _ _ := ⟨_, rfl⟩
  applied_of_lenOps doc h := by
    have hnil : doc.appliedOps = [] := List.eq_nil_of_length_eq_zero h
    ext o
    have hmem := @mem_appliedOps doc o
    rw [hnil] at hmem
    simp only [observers, Set.mem_ofPred_eq, ← hmem, List.not_mem_nil, Set.mem_empty_iff_false]

/-- Its calls succeed on well formed blobs. -/
theorem total : Loro.Total observers where
  snapshot_total doc := ⟨_, rfl, List.cons_ne_nil _ _⟩
  restore_total := by
    rintro doc bytes ⟨⟩
    exact ⟨_, rfl⟩
  importBlob_total := by
    intro doc doc' blob r h
    change doc.importBatch [blob] = .ok r at h
    rw [importBatch] at h
    split_ifs at h with htag
    exact ⟨_, if_pos htag⟩
  importBatch_total := by
    intro doc blobs
    change (∃ r, doc.importBatch blobs = .ok r) ↔ ∀ blob ∈ blobs, ∃ r, doc.importBatch [blob] = .ok r
    have hiff : ∀ bs : List Bytes, (∃ r, doc.importBatch bs = .ok r) ↔ bs.all wellTagged = true := by
      intro bs
      rw [importBatch]
      constructor
      · rintro ⟨r, h⟩
        split_ifs at h with htag
        exact htag
      · exact fun htag => ⟨_, if_pos htag⟩
    rw [hiff, List.all_eq_true]
    refine forall₂_congr fun blob _ => ?_
    rw [hiff, List.all_cons, List.all_nil, Bool.and_true]
  same_state := by
    intro doc doc' h
    have hops : doc.appliedOps = doc'.appliedOps := by
      refine List.filter_congr fun o _ => ?_
      have hmem : isApplied doc.received o = true ↔ isApplied doc'.received o = true :=
        Set.ext_iff.mp h o
      exact Bool.eq_iff_iff.mpr hmem
    exact ⟨hops, hops⟩

end OpDoc

end LoroGateway
