import LoroGateway.Lib.Bytes
import LoroGateway.Lib.Causal

/-!
# The document library

The gateway keeps the content of a room in a `LoroDoc` of the crate `loro`.
`Loro` is what the gateway calls of it.  An import that fails leaves a document
that the gateway throws away, so a failed import answers no document.

`Semantics` says what the calls mean, in terms of operations: a document is a
set of applied operations, closed under dependencies, and a set of operations
that wait for a dependency.  An import adds the operations of the blob and
applies those whose dependencies are there.  A snapshot keeps the applied
operations and drops the waiting ones.
-/

namespace LoroGateway

open ByteCodec Causal

inductive EncodedBlobMode
  | snapshot
  | updates
  | shallowSnapshot
  | outdatedSnapshot
  | outdatedRle
  deriving DecidableEq, Repr

/-- The calls of the document library.  The flag of an import is
`ImportStatus::pending.is_some()`. -/
class Loro (Doc : Type) where
  Version : Type
  Value : Type
  decEqVersion : DecidableEq Version
  decEqValue : DecidableEq Value
  new : Doc
  fromSnapshot : Bytes → Except String Doc
  importBlob : Doc → Bytes → Except String (Doc × Bool)
  importBatch : Doc → List Bytes → Except String (Doc × Bool)
  exportSnapshot : Doc → Except String Bytes
  exportUpdates : Doc → Version → Except String Bytes
  decodeImportBlobMeta : Bytes → Except String EncodedBlobMode
  oplogVV : Doc → Version
  getDeepValue : Doc → Value
  lenOps : Doc → Nat
  encodeVersion : Version → Bytes
  decodeVersion : Bytes → Except String Version

attribute [reducible, instance] Loro.decEqVersion Loro.decEqValue

namespace Loro

variable {Doc : Type} [Loro Doc]

/-- What the document library keeps, in terms of operations. -/
structure Observers (Doc Op : Type) [Loro Doc] where
  deps : Op → Set Op
  applied : Doc → Set Op
  pending : Doc → Set Op
  blobOps : Bytes → Set Op
  versionOps : Version Doc → Set Op

namespace Observers

variable {Op : Type} (S : Observers Doc Op)

/-- All operations that a document has received. -/
def known (doc : Doc) : Set Op := S.applied doc ∪ S.pending doc

/-- The operations of a list of blobs. -/
def ops (blobs : List Bytes) : Set Op := {o | ∃ blob ∈ blobs, o ∈ S.blobOps blob}

@[simp] theorem ops_nil : S.ops [] = ∅ := by
  ext o
  simp [ops]

theorem ops_append (left right : List Bytes) : S.ops (left ++ right) = S.ops left ∪ S.ops right := by
  ext o
  simp only [ops, List.mem_append, Set.mem_ofPred_eq, Set.mem_union, or_and_right, exists_or]

theorem ops_singleton (blob : Bytes) : S.ops [blob] = S.blobOps blob := by
  ext o
  simp [ops]

theorem ops_mono {left right : List Bytes} (h : left ⊆ right) : S.ops left ⊆ S.ops right := by
  rintro o ⟨blob, hmem, ho⟩
  exact ⟨blob, h hmem, ho⟩

theorem blobOps_subset_ops {blobs : List Bytes} {blob : Bytes} (h : blob ∈ blobs) :
    S.blobOps blob ⊆ S.ops blobs :=
  fun _ ho => ⟨blob, h, ho⟩

end Observers

/-- The meaning of the calls that succeed. -/
structure Semantics {Op : Type} (S : Observers Doc Op) : Prop where
  applied_eq : ∀ doc, S.applied doc = settled S.deps (S.known doc)
  disjoint : ∀ doc, Disjoint (S.applied doc) (S.pending doc)
  known_new : S.known (new : Doc) = ∅
  importBlob_known : ∀ {doc blob doc' flag}, importBlob doc blob = .ok (doc', flag) →
    S.known doc' = S.known doc ∪ S.blobOps blob
  importBlob_flag : ∀ {doc : Doc} {blob doc' flag}, importBlob doc blob = .ok (doc', flag) →
    (flag = true ↔ ¬ S.blobOps blob ⊆ S.applied doc')
  importBatch_known : ∀ {doc blobs doc' flag}, importBatch doc blobs = .ok (doc', flag) →
    S.known doc' = S.known doc ∪ S.ops blobs
  snapshot_ops : ∀ {doc bytes}, exportSnapshot doc = .ok bytes → S.blobOps bytes = S.applied doc
  restore_known : ∀ {doc bytes}, fromSnapshot bytes = .ok doc → S.known doc = S.blobOps bytes
  updates_ops : ∀ {doc version bytes}, exportUpdates doc version = .ok bytes →
    S.blobOps bytes ⊆ S.applied doc ∧ S.applied doc ⊆ S.blobOps bytes ∪ S.versionOps version

/-- The calls that succeed.  An import fails for the bytes of a blob and not for
the document that it meets. -/
structure Total {Op : Type} (S : Observers Doc Op) : Prop where
  snapshot_total : ∀ doc : Doc, ∃ bytes, exportSnapshot doc = .ok bytes ∧ bytes ≠ []
  restore_total : ∀ {doc : Doc} {bytes}, exportSnapshot doc = .ok bytes →
    ∃ doc' : Doc, fromSnapshot bytes = .ok doc'
  importBlob_total : ∀ {doc doc' : Doc} {blob r}, importBlob doc blob = .ok r →
    ∃ r', importBlob doc' blob = .ok r'
  importBatch_total : ∀ {doc : Doc} {blobs},
    (∃ r, importBatch doc blobs = .ok r) ↔ ∀ blob ∈ blobs, ∃ r, importBlob doc blob = .ok r
  same_state : ∀ {doc doc' : Doc}, S.applied doc = S.applied doc' →
    getDeepValue doc = getDeepValue doc' ∧ oplogVV doc = oplogVV doc'

/-- An export does not fail, and a document that counts no operation has applied none. -/
structure Exports {Op : Type} (S : Observers Doc Op) : Prop where
  snapshot_total : ∀ doc : Doc, ∃ bytes, exportSnapshot doc = .ok bytes
  updates_total : ∀ (doc : Doc) (version : Version Doc), ∃ bytes,
    exportUpdates doc version = .ok bytes
  applied_of_lenOps : ∀ doc : Doc, lenOps doc = 0 → S.applied doc = ∅

namespace Semantics

variable {Op : Type} {S : Observers Doc Op}

theorem applied_subset_known {doc : Doc} : S.applied doc ⊆ S.known doc := Set.subset_union_left

theorem pending_subset_known {doc : Doc} : S.pending doc ⊆ S.known doc := Set.subset_union_right

variable (sem : Semantics S)

include sem

/-- What waits is what is known and not applied. -/
theorem pending_eq (doc : Doc) : S.pending doc = S.known doc \ S.applied doc := by
  rw [Observers.known, Set.union_sdiff_left, (sem.disjoint doc).symm.sdiff_eq_left]

/-- Two documents that know the same operations apply the same ones and let the
same ones wait. -/
theorem eq_of_known {doc doc' : Doc} (h : S.known doc = S.known doc') :
    S.applied doc = S.applied doc' ∧ S.pending doc = S.pending doc' := by
  have happlied : S.applied doc = S.applied doc' := by
    rw [sem.applied_eq, sem.applied_eq, h]
  refine ⟨happlied, ?_⟩
  rw [sem.pending_eq, sem.pending_eq, h, happlied]

/-- A snapshot brings back the applied operations. -/
theorem restored_known {doc doc' : Doc} {bytes : Bytes} (hexport : exportSnapshot doc = .ok bytes)
    (hrestore : fromSnapshot bytes = .ok doc') : S.known doc' = S.applied doc := by
  rw [sem.restore_known hrestore, sem.snapshot_ops hexport]

end Semantics

end Loro

end LoroGateway
