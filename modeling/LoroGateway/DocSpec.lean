import LoroGateway.Actor

/-!
# What the gateway makes of a document

The functions that build a document, in terms of the operations that it knows.
A candidate is built from a snapshot and a history, a replay from a history
alone, and a checkpoint keeps those blobs of a history that are not wholly
applied.
-/

namespace LoroGateway

open ByteCodec Causal

variable {Doc : Type} [Loro Doc] {Op : Type} {S : Loro.Observers Doc Op} (sem : Loro.Semantics S)

/-- Some document has taken the blob. -/
def Importable (Doc : Type) [Loro Doc] (blob : Bytes) : Prop :=
  ∃ (doc : Doc) (r : Doc × Bool), Loro.importBlob doc blob = .ok r

section Total

variable (total : Loro.Total S)

include total

theorem Importable.importBlob {blob : Bytes} (h : Importable Doc blob) (doc : Doc) :
    ∃ r, Loro.importBlob doc blob = .ok r := by
  obtain ⟨_, _, himport⟩ := h
  exact total.importBlob_total himport

/-- A list of blobs is imported exactly when each of them can be. -/
theorem importAll_total {doc : Doc} {blobs : List Bytes} :
    (∃ doc', importAll doc blobs = .ok doc') ↔ ∀ blob ∈ blobs, Importable Doc blob := by
  rw [importAll]
  split_ifs with hempty
  · subst hempty
    exact ⟨fun _ => nofun, fun _ => ⟨doc, rfl⟩⟩
  · constructor
    · rintro ⟨doc', h⟩ blob hmem
      obtain ⟨r, himport, _⟩ := bind_eq_ok.mp h
      obtain ⟨r', hr'⟩ := total.importBatch_total.mp ⟨r, himport⟩ blob hmem
      exact ⟨doc, r', hr'⟩
    · intro h
      obtain ⟨r, himport⟩ := total.importBatch_total.mpr fun blob hmem =>
        (h blob hmem).importBlob total doc
      exact ⟨r.1, bind_eq_ok.mpr ⟨r, himport, rfl⟩⟩

theorem importRecovered_importable {doc doc' : Doc} {blobs : List Bytes}
    (h : importRecovered doc blobs = .ok doc') : ∀ blob ∈ blobs, Importable Doc blob := by
  rw [importRecovered] at h
  split_ifs at h with hempty
  · subst hempty
    exact List.forall_mem_nil _
  · obtain ⟨r, himport, _⟩ := bind_eq_ok.mp h
    rw [mapError_eq_ok] at himport
    intro blob hmem
    obtain ⟨r', hr'⟩ := total.importBatch_total.mp ⟨r, himport⟩ blob hmem
    exact ⟨doc, r', hr'⟩

end Total

include sem

theorem importAll_known {doc doc' : Doc} {blobs : List Bytes} (h : importAll doc blobs = .ok doc') :
    S.known doc' = S.known doc ∪ S.ops blobs := by
  rw [importAll] at h
  split_ifs at h with hempty
  · cases h
    rw [hempty, Loro.Observers.ops_nil, Set.union_empty]
  · obtain ⟨⟨doc'', flag⟩, himport, h⟩ := bind_eq_ok.mp h
    cases h
    exact sem.importBatch_known himport

theorem importRecovered_known {doc doc' : Doc} {blobs : List Bytes}
    (h : importRecovered doc blobs = .ok doc') : S.known doc' = S.known doc ∪ S.ops blobs := by
  rw [importRecovered] at h
  split_ifs at h with hempty
  · cases h
    rw [hempty, Loro.Observers.ops_nil, Set.union_empty]
  · obtain ⟨⟨doc'', flag⟩, himport, h⟩ := bind_eq_ok.mp h
    rw [mapError_eq_ok] at himport
    cases h
    exact sem.importBatch_known himport

/-- A candidate keeps what the document has applied, and knows the history and
the new updates. -/
theorem buildCandidate_known {doc candidate : Doc} {history updates : List Bytes}
    (h : buildCandidate doc history updates = .ok candidate) :
    S.known candidate = S.applied doc ∪ S.ops history ∪ S.ops updates := by
  rw [buildCandidate] at h
  obtain ⟨snapshot, hexport, h⟩ := bind_eq_ok.mp h
  obtain ⟨restored, hrestore, h⟩ := bind_eq_ok.mp h
  rw [importAll_known sem h, sem.restored_known hexport hrestore, Loro.Observers.ops_append,
    Set.union_assoc]

theorem replay_known {doc : Doc} {history : List Bytes} (h : replay Doc history = .ok doc) :
    S.known doc = S.ops history := by
  rw [importAll_known sem h, sem.known_new, Set.empty_union]

omit sem in
/-- A replay decodes the frames of a stream, and its history is their updates. -/
theorem replayStream_eq_ok [Hashing] {limits : FrameLimits} {bytes : Bytes} {history : List Bytes}
    {doc : Doc} (h : replayStream Doc limits bytes = .ok (history, doc)) :
    ∃ frames, decodeAllWithLimits bytes limits = .ok frames ∧
      collectHistory Doc [] frames = .ok history ∧ replay Doc history = .ok doc := by
  rw [replayStream] at h
  obtain ⟨frames, hframes, h⟩ := bind_eq_ok.mp h
  obtain ⟨collected, hcollected, h⟩ := bind_eq_ok.mp h
  obtain ⟨replayed, hreplayed, h⟩ := bind_eq_ok.mp h
  rw [mapError_eq_ok] at hframes hcollected hreplayed
  cases h
  exact ⟨frames, hframes, hcollected, hreplayed⟩

omit sem in
theorem collectHistory_eq_ok {frames : List DeltaFrame} {history collected : List Bytes}
    (h : collectHistory Doc history frames = .ok collected) :
    collected = history ++ frames.flatMap DeltaFrame.updates := by
  induction frames generalizing history with
  | nil =>
    cases h
    rw [List.flatMap_nil, List.append_nil]
  | cons frame frames ih =>
    obtain ⟨_, _, h⟩ := bind_eq_ok.mp h
    rw [ih h, List.flatMap_cons, List.append_assoc]

/-- What is applied in one document is applied in any that knows it. -/
theorem applied_subset_of_known {doc doc' : Doc} (h : S.applied doc ⊆ S.known doc') :
    S.applied doc ⊆ S.applied doc' := by
  have hsettled : settled S.deps (S.applied doc) = S.applied doc := by
    rw [sem.applied_eq doc, settled_settled]
  rw [← hsettled, sem.applied_eq doc']
  exact settled_mono h

/-- What waits in a document that was built on the applied operations of another
one came with the rest. -/
theorem pending_subset_of_known {doc doc' : Doc} {rest : Set Op}
    (h : S.known doc' = S.applied doc ∪ rest) : S.pending doc' ⊆ rest := by
  have happlied : S.applied doc ⊆ S.applied doc' :=
    applied_subset_of_known sem (h ▸ Set.subset_union_left)
  rw [sem.pending_eq]
  rintro o ⟨hknown, hnot⟩
  rw [h] at hknown
  exact hknown.resolve_left fun ho => hnot (happlied ho)

omit sem in
/-- A checkpoint that was built holds the snapshot of the document and the blobs
of the history that the snapshot leaves waiting. -/
theorem buildCheckpointRecord_eq_ok [Hashing] {roomId : String}
    {generation source endOffset : UInt64} {doc : Doc} {history : List Bytes}
    {checkpoint : CheckpointRecord}
    (h : buildCheckpointRecord roomId generation source endOffset doc history = .ok checkpoint) :
    Loro.exportSnapshot doc = .ok checkpoint.snapshot ∧
      pendingUpdatesOf Doc checkpoint.snapshot history = .ok checkpoint.pendingUpdates := by
  rw [buildCheckpointRecord] at h
  obtain ⟨snapshot, hexport, h⟩ := bind_eq_ok.mp h
  obtain ⟨kept, hkept, h⟩ := bind_eq_ok.mp h
  obtain ⟨_, _, h⟩ := bind_eq_ok.mp h
  obtain ⟨_, h⟩ := check_bind_eq_ok.mp h
  rw [mapError_eq_ok] at hexport
  cases h
  exact ⟨hexport, hkept⟩

omit sem in
theorem pendingUpdatesOf_subset {snapshot : Bytes} {history kept : List Bytes}
    (h : pendingUpdatesOf Doc snapshot history = .ok kept) : kept ⊆ history := by
  induction history generalizing kept with
  | nil =>
    cases h
    exact List.Subset.refl _
  | cons first rest ih =>
    obtain ⟨pending, _, h⟩ := bind_eq_ok.mp h
    obtain ⟨restKept, hrest, h⟩ := bind_eq_ok.mp h
    cases h
    cases pending with
    | true => exact List.cons_subset_cons _ (ih hrest)
    | false => exact List.subset_cons_of_subset _ (ih hrest)

/-- One probe: a blob that is known waits exactly when it is not wholly applied. -/
theorem probePending_eq_ok {doc : Doc} {snapshot blob : Bytes} {pending : Bool}
    (hexport : Loro.exportSnapshot doc = .ok snapshot) (hknown : S.blobOps blob ⊆ S.known doc)
    (h : probePending Doc snapshot blob = .ok pending) :
    pending = true ↔ ¬ S.blobOps blob ⊆ S.applied doc := by
  rw [probePending] at h
  obtain ⟨probe, hrestore, h⟩ := bind_eq_ok.mp h
  obtain ⟨⟨probed, flag⟩, himport, h⟩ := bind_eq_ok.mp h
  rw [mapError_eq_ok] at hrestore himport
  cases h
  rw [sem.importBlob_flag himport, sem.applied_eq probed, sem.importBlob_known himport,
    sem.restored_known hexport hrestore, sem.applied_eq doc, subset_settled_union_iff hknown]

/-- The blobs that a checkpoint keeps are those that are not wholly applied. -/
theorem mem_pendingUpdatesOf {doc : Doc} {snapshot : Bytes} {history kept : List Bytes}
    (hexport : Loro.exportSnapshot doc = .ok snapshot) (hknown : S.ops history ⊆ S.known doc)
    (h : pendingUpdatesOf Doc snapshot history = .ok kept) {blob : Bytes} :
    blob ∈ kept ↔ blob ∈ history ∧ ¬ S.blobOps blob ⊆ S.applied doc := by
  induction history generalizing kept with
  | nil =>
    cases h
    simp
  | cons first rest ih =>
    obtain ⟨pending, hprobe, h⟩ := bind_eq_ok.mp h
    obtain ⟨restKept, hrest, h⟩ := bind_eq_ok.mp h
    cases h
    have hfirst : S.blobOps first ⊆ S.known doc :=
      (S.blobOps_subset_ops List.mem_cons_self).trans hknown
    have hprobe := probePending_eq_ok sem hexport hfirst hprobe
    have hrest := ih ((S.ops_mono (List.subset_cons_self _ _)).trans hknown) hrest
    cases pending with
    | true =>
      rw [if_pos rfl, List.mem_cons, List.mem_cons, hrest, or_and_right]
      refine or_congr_left ⟨?_, And.left⟩
      rintro rfl
      exact ⟨rfl, hprobe.mp rfl⟩
    | false =>
      rw [if_neg (by decide), hrest, List.mem_cons, or_and_right]
      refine (or_iff_right ?_).symm
      rintro ⟨rfl, hnot⟩
      cases hprobe.mpr hnot

end LoroGateway
