import LoroGateway.DocSpec
import LoroGateway.Sample

/-!
# Building a checkpoint

A snapshot forgets the operations that wait.  The builder probes each blob of the
history alone on a fresh copy of the snapshot, and keeps the blobs that the probe
leaves waiting.  A probe cannot see the other blobs, but an operation whose
dependencies are not applied in the document has none that another blob could have
brought in: the probe and the document agree on which blobs are wholly applied
(`pendingUpdatesOf_eq`).
-/

namespace LoroGateway

open ByteCodec Causal

variable {Doc : Type} [Loro Doc] {Op : Type} {S : Loro.Observers Doc Op}

open Classical in
/-- The blobs of a history that are not wholly applied in a document. -/
noncomputable def Loro.Observers.unapplied (S : Loro.Observers Doc Op) (doc : Doc)
    (history : List Bytes) : List Bytes :=
  history.filter fun blob => ¬ S.blobOps blob ⊆ S.applied doc

/-- The blobs that are not wholly applied bring all that waits. -/
theorem pending_subset_unapplied (sem : Loro.Semantics S) {doc : Doc} {history : List Bytes}
    (hpending : S.pending doc ⊆ S.ops history) :
    S.pending doc ⊆ S.ops (S.unapplied doc history) := by
  intro o ho
  obtain ⟨blob, hmem, hblob⟩ := hpending ho
  have hnot : ¬ S.blobOps blob ⊆ S.applied doc := fun happlied =>
    (sem.disjoint doc).le_bot ⟨happlied hblob, ho⟩
  exact ⟨blob, by simp [Loro.Observers.unapplied, hmem, hnot], hblob⟩

theorem unapplied_subset {doc : Doc} {history : List Bytes} :
    S.unapplied doc history ⊆ history := by
  unfold Loro.Observers.unapplied
  exact List.filter_subset_self _

section Build

variable (total : Loro.Total S) {doc : Doc} {snapshot : Bytes} {history : List Bytes}

include total

theorem probePending_total (hexport : Loro.exportSnapshot doc = .ok snapshot) {blob : Bytes}
    (hblob : Importable Doc blob) : ∃ pending, probePending Doc snapshot blob = .ok pending := by
  obtain ⟨probe, hrestore⟩ := total.restore_total hexport
  obtain ⟨probed, himport⟩ := hblob.importBlob total probe
  refine ⟨probed.2, ?_⟩
  rw [probePending, bind_of_ok (mapError_eq_ok.mpr hrestore),
    bind_of_ok (mapError_eq_ok.mpr himport)]
  rfl

/-- The builder keeps the blobs that are not wholly applied, in their order. -/
theorem pendingUpdatesOf_eq (sem : Loro.Semantics S)
    (hexport : Loro.exportSnapshot doc = .ok snapshot)
    (hhistory : ∀ blob ∈ history, Importable Doc blob) (hknown : S.ops history ⊆ S.known doc) :
    pendingUpdatesOf Doc snapshot history = .ok (S.unapplied doc history) := by
  unfold Loro.Observers.unapplied
  induction history with
  | nil => rfl
  | cons blob rest ih =>
    obtain ⟨hblob, hrest⟩ := List.forall_mem_cons.mp hhistory
    have hfirst : S.blobOps blob ⊆ S.known doc :=
      (S.blobOps_subset_ops List.mem_cons_self).trans hknown
    have hothers : S.ops rest ⊆ S.known doc :=
      (S.ops_mono (List.subset_cons_self _ _)).trans hknown
    obtain ⟨pending, hprobe⟩ := probePending_total total hexport hblob
    have hiff := probePending_eq_ok sem hexport hfirst hprobe
    rw [pendingUpdatesOf, bind_of_ok hprobe, bind_of_ok (ih hrest hothers)]
    cases pending with
    | true =>
      rw [List.filter_cons_of_pos (by simp [hiff.mp rfl])]
      rfl
    | false =>
      have happlied : S.blobOps blob ⊆ S.applied doc := by
        by_contra hnot
        exact Bool.noConfusion (hiff.mpr hnot)
      rw [List.filter_cons_of_neg (by simp [happlied])]
      rfl

/-- A snapshot and the blobs beside it are put together again. -/
theorem restoreAndImport_known (sem : Loro.Semantics S)
    (hexport : Loro.exportSnapshot doc = .ok snapshot)
    (hhistory : ∀ blob ∈ history, Importable Doc blob) :
    ∃ restored, restoreAndImport Doc snapshot history = .ok restored ∧
      S.known restored = S.applied doc ∪ S.ops history := by
  obtain ⟨restored, hrestore⟩ := total.restore_total hexport
  have hknown := sem.restored_known hexport hrestore
  rw [restoreAndImport, bind_of_ok (mapError_eq_ok.mpr hrestore)]
  split_ifs with hempty
  · exact ⟨restored, rfl, by simp [hempty, hknown]⟩
  · obtain ⟨imported, himport⟩ := total.importBatch_total.mpr fun blob hmem =>
      (hhistory blob hmem).importBlob total restored
    refine ⟨imported.1, ?_, ?_⟩
    · rw [bind_of_ok (mapError_eq_ok.mpr himport)]
      rfl
    · rw [sem.importBatch_known himport, hknown]

end Build

/-- A checkpoint loses nothing that waits: it keeps the blobs of the history that are
not wholly applied, in their order, and what is rebuilt from it cannot be told from the
live document, now or after any later updates. -/
theorem checkpoint_keeps_pending [Hashing] (sem : Loro.Semantics S) (total : Loro.Total S)
    (roomId : String) (generation source endOffset : UInt64) {doc : Doc} {history : List Bytes}
    (hhistory : ∀ blob ∈ history, Importable Doc blob)
    (hpending : S.pending doc ⊆ S.ops history) (hknown : S.ops history ⊆ S.known doc) :
    ∃ (checkpoint : CheckpointRecord) (restored : Doc),
      buildCheckpointRecord roomId generation source endOffset doc history = .ok checkpoint ∧
      checkpoint.pendingUpdates = S.unapplied doc history ∧
      restoreAndImport Doc checkpoint.snapshot checkpoint.pendingUpdates = .ok restored ∧
      S.applied restored = S.applied doc ∧ S.pending restored = S.pending doc ∧
      ∀ (later : List Bytes) (live : Doc), importAll doc later = .ok live →
        ∃ rebuilt, importAll restored later = .ok rebuilt ∧
          S.applied rebuilt = S.applied live ∧ S.pending rebuilt = S.pending live ∧
          Loro.getDeepValue rebuilt = Loro.getDeepValue live ∧
          Loro.oplogVV rebuilt = Loro.oplogVV live := by
  obtain ⟨snapshot, hexport, _⟩ := total.snapshot_total doc
  have hkept := pendingUpdatesOf_eq total sem hexport hhistory hknown
  have himportable : ∀ blob ∈ S.unapplied doc history, Importable Doc blob :=
    fun blob hmem => hhistory blob (unapplied_subset hmem)
  obtain ⟨restored, hrestored, hunion⟩ := restoreAndImport_known total sem hexport himportable
  have hsame : S.known restored = S.known doc := by
    rw [hunion]
    apply Set.Subset.antisymm
    · exact Set.union_subset Loro.Semantics.applied_subset_known
        ((S.ops_mono unapplied_subset).trans hknown)
    · exact Set.union_subset_union_right _ (pending_subset_unapplied sem hpending)
  obtain ⟨happlied, hwaiting⟩ := sem.eq_of_known hsame
  obtain ⟨hvalue, hversion⟩ := total.same_state happlied
  refine ⟨.new roomId generation source endOffset snapshot (S.unapplied doc history), restored,
    ?_, rfl, hrestored, happlied, hwaiting, ?_⟩
  · rw [buildCheckpointRecord, bind_of_ok (mapError_eq_ok.mpr hexport), bind_of_ok hkept,
      bind_of_ok hrestored, check_bind_of ⟨hvalue, hversion⟩]
    rfl
  · intro later live hlive
    have hrest : (∃ rebuilt, importAll restored later = .ok rebuilt) ↔ _ := importAll_total total
    have hlater : ∀ blob ∈ later, Importable Doc blob := (importAll_total total).mp ⟨live, hlive⟩
    obtain ⟨rebuilt, hrebuilt⟩ := hrest.mpr hlater
    have hknown : S.known rebuilt = S.known live := by
      rw [importAll_known sem hrebuilt, importAll_known sem hlive, hsame]
    obtain ⟨happlied, hwaiting⟩ := sem.eq_of_known hknown
    exact ⟨rebuilt, hrebuilt, happlied, hwaiting, total.same_state happlied⟩

open Sample

/-- A document that waits for an operation, with the two blobs that it got. -/
theorem checkpoint_keeps_pending_sample :
    ∃ checkpoint restored,
      buildCheckpointRecord "r" 0 0 0 (OpDoc.mk [0, 3]) [[1, 0], [1, 3]] = .ok checkpoint ∧
      restoreAndImport OpDoc checkpoint.snapshot checkpoint.pendingUpdates = .ok restored ∧
      OpDoc.observers.pending restored = OpDoc.observers.pending (OpDoc.mk [0, 3]) := by
  have hhistory : ∀ blob ∈ ([[1, 0], [1, 3]] : List Bytes), Importable OpDoc blob := by
    have himport : ∀ blob ∈ ([[1, 0], [1, 3]] : List Bytes),
        OpDoc.importBatch ⟨[]⟩ [blob] = .ok (OpDoc.receive ⟨[]⟩ [blob],
          (OpDoc.receive ⟨[]⟩ [blob]).waits [blob]) := by
      decide
    exact fun blob hmem => ⟨_, _, himport blob hmem⟩
  have hops : OpDoc.observers.ops [[1, 0], [1, 3]] = OpDoc.observers.known ⟨[0, 3]⟩ := by
    rw [OpDoc.known_eq]
    ext o
    simp [Loro.Observers.ops, OpDoc.observers, OpDoc.opsOf, OpDoc.opOf]
  obtain ⟨checkpoint, restored, hbuild, _, hrestore, _, hpending, _⟩ :=
    checkpoint_keeps_pending OpDoc.semantics OpDoc.total "r" 0 0 0 hhistory
      (hops ▸ Loro.Semantics.pending_subset_known) hops.le
  exact ⟨checkpoint, restored, hbuild, hrestore, hpending⟩

end LoroGateway
