import LoroGateway.Recovery
import LoroGateway.StoreInvariant

/-!
# What recovery answers

`Recovered` is what a recovery from the manifest read and what it made of it.
`RecoveryFault` says why a recovery can fail: the store failed, the bytes are
more than the limits allow, or the document library refused a blob.  That the
manifest names a missing or a foreign checkpoint is not among the reasons.
-/

namespace LoroGateway

open ByteCodec CrashLogic

variable [Hashing] {Doc : Type} [Loro Doc] {roomId : String} {limits : FrameLimits}

/-- A recovery from the records of a manifest, a checkpoint and the frames of the
active delta stream.  `before` holds of each world that was read. -/
structure Recovered (before : World → Prop) (roomId : String) (limits : FrameLimits)
    (records : List ManifestRecord) (checkpoint : CheckpointRecord) (frames : List DeltaFrame)
    (recovery : ManifestRecovery Doc) : Prop where
  manifest : ∃ w, before w ∧ StoreInvariant Doc roomId w records
  latest : ∃ latest w, records.getLast? = some latest ∧ before w ∧
    CheckpointOf Doc roomId ⟨latest.checkpointGeneration⟩ checkpoint ∧ checkpoint.encode =
      .ok (w.disk.read (checkpointStream roomId ⟨latest.checkpointGeneration⟩).physical)
  active : recovery.activeDeltaGeneration = activeGeneration records
  stream : recovery.activeDeltaStream =
    (deltaStreamForGeneration roomId (activeGeneration records)).physical
  delta : ∃ w, before w ∧
    decodeAllWithLimits (w.disk.read recovery.activeDeltaStream) limits = .ok frames ∧
    recovery.activeDeltaEndOffset.toNat = (w.disk.read recovery.activeDeltaStream).length
  doc : ∃ restored base : Doc, Loro.fromSnapshot checkpoint.snapshot = .ok restored ∧
    importRecovered restored checkpoint.pendingUpdates = .ok base ∧
    importRecovered base (frames.flatMap DeltaFrame.updates) = .ok recovery.doc
  history : recovery.history = checkpoint.pendingUpdates ++ frames.flatMap DeltaFrame.updates

/-- Why a recovery fails. -/
inductive RecoveryFault (Doc : Type) [Loro Doc] (before : World → Prop) (roomId : String)
    (limits : FrameLimits) : RecoveryError → Prop
  | store (source : StoreError) : RecoveryFault Doc before roomId limits (.store source)
  | manifest {w : World} {records : List ManifestRecord} {error : ManifestError} (hw : before w)
      (hstore : StoreInvariant Doc roomId w records)
      (hdecode : decodeManifestStream (manifestBytes records) .default = .error error) :
      RecoveryFault Doc before roomId limits (.manifest error)
  | restore {generation : GenerationId} {checkpoint : CheckpointRecord} {message : String}
      (hof : CheckpointOf Doc roomId generation checkpoint)
      (hrestore : (Loro.fromSnapshot checkpoint.snapshot : Except String Doc) = .error message) :
      RecoveryFault Doc before roomId limits (.loro message)
  | pending {generation : GenerationId} {checkpoint : CheckpointRecord} {restored : Doc}
      {error : RecoveryError} (hof : CheckpointOf Doc roomId generation checkpoint)
      (hrestore : Loro.fromSnapshot checkpoint.snapshot = .ok restored)
      (himport : importRecovered restored checkpoint.pendingUpdates = .error error) :
      RecoveryFault Doc before roomId limits error
  | frame {w : World} {generation : GenerationId} {error : FrameError} (hw : before w)
      (hdecode : decodeAllWithLimits
        (w.disk.read (deltaStreamForGeneration roomId generation).physical) limits = .error error) :
      RecoveryFault Doc before roomId limits (.frame error)
  | active {w : World} {generation : GenerationId} {frames : List DeltaFrame} {base : Doc}
      {error : RecoveryError} (hw : before w)
      (hdecode : decodeAllWithLimits
        (w.disk.read (deltaStreamForGeneration roomId generation).physical) limits = .ok frames)
      (himport : importRecovered base (frames.flatMap DeltaFrame.updates) = .error error) :
      RecoveryFault Doc before roomId limits error
  | length {w : World} {stream : String} (hw : before w)
      (hlong : u64OfUsize (w.disk.read stream).length = none) :
      RecoveryFault Doc before roomId limits .lengthOverflow

/-- The errors that say that the manifest names something that is not there. -/
def RecoveryError.Dangling : RecoveryError → Prop
  | missingCheckpoint _ | checkpointManifestMismatch | wrongCheckpointRoom
  | checkpointGenerationMismatch _ _ | checkpointSourceMismatch _ _
  | activeDeltaGenerationMismatch _ _ | generationOverflow => True
  | _ => False

omit [Hashing] in
theorem importRecovered_error {doc : Doc} {updates : List Bytes} {error : RecoveryError}
    (h : importRecovered doc updates = .error error) : ∃ message, error = .loro message := by
  have herrors : ErrorsIn (fun error => ∃ message, error = .loro message)
      (importRecovered doc updates) := by
    rw [importRecovered]
    split_ifs
    · exact .ok doc
    · exact .bind (.mapError fun message => ⟨message, rfl⟩) fun _ _ => .ok _
  exact herrors error h

theorem RecoveryFault.not_dangling {before : World → Prop} {error : RecoveryError}
    (h : RecoveryFault Doc before roomId limits error) : ¬ error.Dangling := by
  cases h with
  | pending _ _ himport =>
    obtain ⟨message, rfl⟩ := importRecovered_error himport
    exact id
  | active _ _ himport =>
    obtain ⟨message, rfl⟩ := importRecovered_error himport
    exact id
  | _ => exact id

/-- A linked record names the checkpoint that is stored. -/
theorem Linked.checkpoint {record : ManifestRecord} {w : World} {records : List ManifestRecord}
    (h : Linked Doc roomId record w) (hstore : StoreInvariant Doc roomId w records) :
    ∃ checkpoint, CheckpointOf Doc roomId ⟨record.checkpointGeneration⟩ checkpoint ∧
      checkpoint.encode =
        .ok (w.disk.read (checkpointStream roomId ⟨record.checkpointGeneration⟩).physical) ∧
      record.verifiesCheckpointBytes
        (w.disk.read (checkpointStream roomId ⟨record.checkpointGeneration⟩).physical) ∧
      validateCheckpointLink roomId record.checkpointGeneration record.activeDeltaGeneration
        checkpoint = .ok () := by
  obtain ⟨checkpoint, bytes, hof, hencode, hverifies, hbytes⟩ := h.stored
  rw [(hstore.checkpoints _).eq_of_isPrefix hencode hbytes]
  refine ⟨checkpoint, hof, hencode, hverifies, ?_⟩
  obtain ⟨doc, endOffset, history, hbuilt⟩ := hof
  obtain ⟨hroom, hgeneration, hsource, _⟩ := CheckpointRecord.generation_of_build hbuilt
  rw [validateCheckpointLink, check_bind_eq_ok, check_bind_eq_ok, check_bind_eq_ok]
  refine ⟨hroom, hgeneration, hsource.trans hgeneration.symm, ?_⟩
  refine okOr_bind_eq_ok.mpr ⟨record.activeDeltaGeneration, ?_, check_of rfl⟩
  rw [checkedAddU64_eq_some, hgeneration, h.generation, h.active]
  rfl

section Recover

variable {serve : Serve Request Answer World} {c : Contract World} (hc : Grounded serve c)
  {assertion : World → Prop} (hstable : c.Stable assertion) {w : World}
  (hstore : ∀ w, c.inv w → ∃ records, StoreInvariant Doc roomId w records)

include hc hstable hstore

/-- A recovery finds no manifest, or what the manifest names, or it has a fault. -/
theorem wp_recoverFromManifest
    {post : Except RecoveryError (Option (ManifestRecovery Doc)) → World → Prop}
    (hw : assertion w)
    (hensure : Keeps serve c assertion (.ensureStream (manifestStream roomId).physical))
    (herr : ∀ error w', assertion w' →
      RecoveryFault Doc (fun w => assertion w ∧ c.inv w) roomId limits error → post (.error error) w')
    (hnone : ∀ w', assertion w' → StoreInvariant Doc roomId w' [] → post (.ok none) w')
    (hsome : ∀ records checkpoint frames recovery w', assertion w' → c.inv w' →
      Recovered (fun w => (assertion w ∧ c.inv w) ∧ w.disk.Grows w'.disk) roomId limits records
        checkpoint frames recovery → post (.ok (some recovery)) w') :
    wp serve c (recoverFromManifest Doc roomId limits).run post w := by
  rw [recoverFromManifest]
  refine wp_mapErr_bind (wp_ensureStream hc hstable hw hensure ?_
    fun error w' hw' _ => herr _ w' hw' (.store error))
  intro w₀ hw₀ _ _
  refine wp_mapErr_bind (wp_readAll hc hstable hw₀ ?_
    fun error w' hw' _ => herr _ w' hw' (.store error))
  intro w₁ hw₁ hinv₁
  obtain ⟨records, hrecords⟩ := hstore w₁ hinv₁
  have hlog := hrecords.manifest.log
  dsimp only
  split_ifs with hempty
  · rw [hlog.content, manifestBytes_eq_nil hlog.valid] at hempty
    exact hnone w₁ hw₁ (hempty ▸ hrecords)
  rw [hlog.content] at hempty ⊢
  refine wp_lift_mapError_bind (fun decoded hdecoded => ?_)
    fun error herror => herr _ w₁ hw₁ (.manifest ⟨hw₁, hinv₁⟩ hrecords herror)
  obtain rfl := decodeManifestStream_eq_ok hlog.valid hlog.word hdecoded
  obtain ⟨latest, hlatest⟩ := hlog.accepted.resolve_left fun hnil => hempty (by rw [hnil]; rfl)
  have hlast := validateManifestChain_getLast? hlatest
  have hlinked := hrecords.manifest.linked latest (List.mem_of_getLast? hlast)
  rw [hlatest]
  refine wp_lift_mapError_bind (fun latest' hlatest' => ?_) fun _ h => by cases h
  cases hlatest'
  -- the worlds that were read lie before the later ones
  have hstable₁ := stable_and hstable
    (((Linked.stable latest : GrowthStable (Linked Doc roomId latest)).and
      (growthStable_after w₁.disk)).stable hc.grows)
  refine wp_mapErr_bind (wp_readAll hc hstable₁ ⟨hw₁, hlinked, Disk.Grows.refl _⟩ ?_
    fun error w' hw' _ => herr _ w' hw'.1 (.store error))
  rintro w₂ ⟨hw₂, hlinked₂, hgrow₁⟩ hinv₂
  obtain ⟨records₂, hrecords₂⟩ := hstore w₂ hinv₂
  obtain ⟨checkpoint, hof, hencode, hverifies, hlink⟩ := hlinked₂.checkpoint hrecords₂
  have hlength := CheckpointRecord.encode_length hencode
  refine wp_check_bind (fun _ => ?_) fun hnot =>
    absurd (fun hnil => by rw [hnil] at hlength; exact absurd hlength.1 (by decide)) hnot
  refine wp_check_bind (fun _ => ?_) fun hnot => absurd hverifies hnot
  rw [CheckpointRecord.decodeExact_encode hencode]
  refine wp_lift_mapError_bind (fun checkpoint' hcheckpoint' => ?_) fun _ h => by cases h
  cases hcheckpoint'
  rw [hlink]
  refine wp_lift_bind (fun _ _ => ?_) fun _ h => by cases h
  refine wp_lift_mapError_bind (fun restored hrestored => ?_)
    fun message hmessage => herr _ w₂ hw₂ (.restore hof hmessage)
  refine wp_lift_bind (fun base hbase => ?_)
    fun error herror => herr _ w₂ hw₂ (.pending hof hrestored herror)
  have hstable₂ := stable_and hstable ((growthStable_after w₂.disk).stable hc.grows)
  refine wp_mapErr_bind (wp_readAll hc hstable₂ ⟨hw₂, Disk.Grows.refl _⟩ ?_
    fun error w' hw' _ => herr _ w' hw'.1 (.store error))
  rintro w₃ ⟨hw₃, hgrow₂⟩ hinv₃
  refine wp_lift_mapError_bind (fun frames hframes => ?_)
    fun error herror => herr _ w₃ hw₃ (.frame ⟨hw₃, hinv₃⟩ herror)
  rw [importActive_append]
  refine wp_lift_bind (fun doc hdoc => ?_)
    fun error herror => herr _ w₃ hw₃ (.active ⟨hw₃, hinv₃⟩ hframes herror)
  refine wp_okOr_bind (fun endOffset hend => ?_)
    fun hlong => herr _ w₃ hw₃ (.length ⟨hw₃, hinv₃⟩ hlong)
  have hactive : activeGeneration decoded = ⟨latest.activeDeltaGeneration⟩ := by
    rw [activeGeneration, hlast]
  exact hsome decoded checkpoint frames _ w₃ hw₃ hinv₃
    { manifest := ⟨w₁, ⟨⟨hw₁, hinv₁⟩, hgrow₁.trans hgrow₂⟩, hrecords⟩
      latest := ⟨latest, w₂, hlast, ⟨⟨hw₂, hinv₂⟩, hgrow₂⟩, hof, hencode⟩
      active := hactive.symm
      stream := by rw [hactive]
      delta := ⟨w₃, ⟨⟨hw₃, hinv₃⟩, Disk.Grows.refl _⟩, hframes, u64OfUsize_eq_some.mp hend⟩
      doc := ⟨restored, base, hrestored, hbase, hdoc⟩
      history := rfl }

end Recover

end LoroGateway
