import LoroGateway.ManifestLog
import LoroGateway.CheckpointCodec
import LoroGateway.Publication

/-!
# What the writers of checkpoints and manifest records ensure

One specification for each function of `LoroGateway.Publication`.  Others may
act between any two calls, as long as streams only grow.  The caller says what
its contract is and shows that the calls of the function keep it; it gets back
what a successful result means.
-/

namespace LoroGateway

open ByteCodec CrashLogic

section Exact

variable {serve : Serve Request Answer World} {c : Contract World} (hc : Grounded serve c)
  {assertion : World → Prop} (hstable : c.Stable assertion) {stream : String} {producer : ProducerTuple} {body : Bytes}
  {w : World} {post : Except StoreError Unit → World → Prop}

include hc hstable

/-- A duplicate counts only when the bytes before the answered offset are the
body. -/
theorem wp_verifyDuplicateBytes {nextOffset : UInt64} (hw : assertion w)
    (herr : ∀ error w', assertion w' → post (.error error) w')
    (hok : ∀ w', assertion w' → EndsAt (w'.disk.read stream) nextOffset.toNat body →
      post (.ok ()) w') :
    wp serve c (ExactAppend.verifyDuplicateBytes stream nextOffset body).run post w := by
  rw [ExactAppend.verifyDuplicateBytes]
  refine wp_okOr_bind (fun expectedLen hexpected => ?_) fun _ => herr _ w hw
  refine wp_okOr_bind (fun start hstart => ?_) fun _ => herr _ w hw
  rw [u64OfUsize_eq_some] at hexpected
  rw [checkedSubU64_eq_some] at hstart
  refine wp_run_bind.mpr (wp_readRange hc hstable hw ?_ fun error w' hw' _ => herr _ w' hw')
  intro w' hw' _ hfit
  refine wp_check_bind (fun _ => ?_) fun _ => herr _ w' hw'
  rw [check]
  split_ifs with hstored
  · refine hok w' hw' ?_
    have hends := EndsAt.of_slice hfit hstored
    rwa [← hexpected, ← hstart] at hends
  · exact herr _ w' hw'

/-- One turn of the retry loop.  `again` is what the rest of the loop ensures. -/
theorem wp_attempts_turn {left : Nat}
    {post : Except StoreError ExactAppendOutcome → World → Prop}
    (hw : assertion w) (hkeeps : Keeps serve c assertion (.append stream producer body))
    (herr : ∀ error w', assertion w' → post (.error error) w')
    (hok : ∀ out w', assertion w' → EndsAt (w'.disk.read stream) out.nextOffset.toNat body →
      post (.ok out) w')
    (again : ∀ left', left = left' + 1 → ∀ w', assertion w' →
      wp serve c (ExactAppend.attempts stream producer body left') post w') :
    wp serve c (ExactAppend.attempts stream producer body left) post w := by
  rw [ExactAppend.attempts]
  refine wp_request hstable hw hkeeps fun w₁ x w₂ hw₁ _ hserve hw₂ _ => ?_
  -- what is left of the program after an ambiguous answer
  have hambiguous : ∀ (message : String) (rest : StoreM (Except StoreError ExactAppendOutcome)),
      (left = 0 → rest = pure (.error (.ambiguous message))) →
      (∀ left', left = left' + 1 → rest = ExactAppend.attempts stream producer body left') →
      wp serve c rest post w₂ := by
    intro message rest hzero hsucc
    cases left with
    | zero => exact hzero rfl ▸ herr _ w₂ hw₂
    | succ left => exact hsucc left rfl ▸ again left rfl w₂ hw₂
  cases served_append (hc.sub hserve) with
  | accepted haccepts hanswer =>
    rcases hanswer with rfl | ⟨message, rfl⟩ | ⟨message, rfl⟩
    · refine hok _ _ hw₂ ?_
      dsimp only [ExactAppendOutcome.nextOffset]
      rw [Disk.endOffset_toNat haccepts, Disk.read_accept_self w₁.disk]
      exact ⟨w₁.disk.read stream, [], (List.append_nil _).symm, List.length_append⟩
    · exact hambiguous message _ (fun h => h ▸ rfl) fun _ h => h ▸ rfl
    · exact herr _ _ hw₂
  | @duplicate _ _ n =>
    change wp serve c ((ExactAppend.verifyDuplicateBytes stream n body).run >>= _) post _
    refine wp_bind.mpr (wp_verifyDuplicateBytes hc hstable hw₂ ?_ ?_)
    · exact fun error w' hw' => herr error w' hw'
    · exact fun w' hw' hends => hok (.verifiedDuplicate _) w' hw' hends
  | @refused error =>
    cases error with
    | ambiguous message => exact hambiguous message _ (fun h => h ▸ rfl) fun _ h => h ▸ rfl
    | rejected kind message => exact herr _ _ hw₂
    | integrity message => exact herr _ _ hw₂

/-- An exact append that succeeds has its body in the stream, before the offset
that it answers. -/
theorem wp_appendExactWithRetry {retries : Nat}
    {post : Except StoreError ExactAppendOutcome → World → Prop}
    (hw : assertion w) (hkeeps : Keeps serve c assertion (.append stream producer body))
    (herr : ∀ error w', assertion w' → post (.error error) w')
    (hok : ∀ out w', assertion w' → EndsAt (w'.disk.read stream) out.nextOffset.toNat body →
      post (.ok out) w') :
    wp serve c (appendExactWithRetry stream producer body retries) post w := by
  rw [appendExactWithRetry]
  split_ifs
  · exact herr _ w hw
  · induction retries generalizing w with
    | zero => exact wp_attempts_turn hc hstable hw hkeeps herr hok nofun
    | succ retries ih =>
      refine wp_attempts_turn hc hstable hw hkeeps herr hok fun left hleft w' hw' => ?_
      obtain rfl := Nat.succ.inj hleft
      exact ih hw'

end Exact

section Checkpoint

variable [Hashing] {serve : Serve Request Answer World} {c : Contract World}
  (hc : Grounded serve c) {assertion : World → Prop} (hstable : c.Stable assertion) {roomId : String} {generation : GenerationId}
  {record : CheckpointRecord} {bytes : Bytes} {retries : Nat} {w : World}
  {post : Except CheckpointWriteError WriteOutcome → World → Prop}

include hc hstable

/-- A checkpoint that has been persisted starts its stream. -/
theorem wp_persistCheckpoint (hw : assertion w) (hencode : record.encode = .ok bytes)
    (hensure : Keeps serve c assertion (.ensureStream (checkpointStream roomId generation).physical))
    (happend : Keeps serve c assertion (.append (checkpointStream roomId generation).physical
      ⟨checkpointProducerId roomId generation, 0, 0⟩ bytes))
    (herr : ∀ error w', assertion w' → post (.error error) w')
    (hok : ∀ out w', assertion w' →
      bytes <+: w'.disk.read (checkpointStream roomId generation).physical → post (.ok out) w') :
    wp serve c (persistCheckpoint roomId generation record retries).run post w := by
  rw [persistCheckpoint, hencode]
  refine wp_check_bind (fun _ => ?_) fun _ => herr _ w hw
  refine wp_check_bind (fun _ => ?_) fun _ => herr _ w hw
  refine wp_lift_mapError_bind (fun bytes' hbytes' => ?_) fun _ _ => herr _ w hw
  cases hbytes'
  refine wp_mapErr_bind (wp_ensureStream hc hstable hw hensure ?_ ?_)
  · intro w₁ hw₁ _ _
    refine wp_mapErr_bind (wp_readAll hc hstable hw₁ ?_ ?_)
    · intro w₂ hw₂ _
      dsimp only
      split_ifs with hempty
      · refine wp_check_bind (fun hsame => ?_) fun _ => herr _ w₂ hw₂
        refine wp_okOr_bind (fun _ _ => ?_) fun _ => herr _ w₂ hw₂
        exact hok _ w₂ hw₂ (hsame ▸ List.prefix_rfl)
      · refine wp_mapErr_bind (wp_appendExactWithRetry hc hstable hw₂ happend ?_ ?_)
        · exact fun error w' hw' => herr _ w' hw'
        · intro out w' hw' hends
          refine wp_okOr_bind (fun expected hexpected => ?_) fun _ => herr _ w' hw'
          refine wp_check_bind (fun hoffset => ?_) fun _ => herr _ w' hw'
          rw [u64OfUsize_eq_some] at hexpected
          rw [hoffset, hexpected] at hends
          exact hok _ w' hw' hends.isPrefix
    · exact fun error w' hw' _ => herr _ w' hw'
  · exact fun error w' hw' _ => herr _ w' hw'

end Checkpoint

section Manifest

variable [Hashing] {roomId : String} {record : ManifestRecord} {records : List ManifestRecord}

/-- What the plan of an append means for a stream that holds records. -/
theorem planManifestAppend_eq_ok {d : Disk} (h : ManifestHeld roomId d records)
    {plan : Option (List ManifestRecord)}
    (hplan : planManifestAppend roomId record record.encoded
      (d.read (manifestStream roomId).physical) = .ok plan) :
    plan = some (records ++ [record]) ∨ plan = none ∧ records.getLast? = some record := by
  rw [h.content, planManifestAppend] at hplan
  split_ifs at hplan with hempty
  · rw [check_bind_eq_ok, check_bind_eq_ok] at hplan
    obtain ⟨_, _, hplan⟩ := hplan
    cases hplan
    rw [manifestBytes_eq_nil h.valid] at hempty
    rw [hempty]
    exact .inl rfl
  · obtain ⟨decoded, hdecoded, hplan⟩ := bind_eq_ok.mp hplan
    obtain ⟨latest, hlatest, hplan⟩ := bind_eq_ok.mp hplan
    rw [mapError_eq_ok] at hdecoded hlatest
    have hdecoded' := decodeManifestStream_eq_ok h.valid h.word hdecoded
    have hlast := validateManifestChain_getLast? hlatest
    rw [hdecoded'] at hlast
    split_ifs at hplan with hsame
    · cases hplan
      exact .inr ⟨rfl, hsame.1 ▸ hlast⟩
    · obtain ⟨_, _, hplan⟩ := okOr_bind_eq_ok.mp hplan
      rw [check_bind_eq_ok, check_bind_eq_ok] at hplan
      obtain ⟨_, _, hplan⟩ := hplan
      cases hplan
      rw [hdecoded']
      exact .inl rfl

variable {serve : Serve Request Answer World} {c : Contract World} (hc : Grounded serve c)
  {assertion : World → Prop} (hstable : c.Stable assertion) {retries : Nat} {w : World}
  {post : Except ManifestWriteError WriteOutcome → World → Prop}

include hc hstable

/-- A record that has been published was the last one when the stream was read,
or was appended to the records that the stream held.  The assertion `before`
covers the calls up to the append and `during` those from there on. -/
theorem wp_publishManifestRecord_cases {during : World → Prop} (hduring : c.Stable during)
    (hw : assertion w)
    (hheld : ∀ w, assertion w → c.inv w → ∃ records, ManifestHeld roomId w.disk records)
    (hensure : Keeps serve c assertion (.ensureStream (manifestStream roomId).physical))
    (hstart : ∀ w records, assertion w → ManifestHeld roomId w.disk records → record.Valid →
      Extends roomId records record → during w)
    (happend : record.Valid → Keeps serve c during
      (.append (manifestStream roomId).physical ⟨manifestProducerId roomId, 0, record.revision⟩
        record.encoded))
    (herr : ∀ error w', assertion w' ∨ during w' → post (.error error) w')
    (hlast : ∀ out w' records, assertion w' → ManifestHeld roomId w'.disk records →
      records.getLast? = some record → post (.ok out) w')
    (hok : ∀ out w', during w' → record.Valid →
      EndsAt (w'.disk.read (manifestStream roomId).physical) (188 * (record.revision.toNat + 1))
        record.encoded → post (.ok out) w') :
    wp serve c (publishManifestRecord roomId record retries).run post w := by
  rw [publishManifestRecord]
  refine wp_check_bind (fun _ => ?_) fun _ => herr _ w (.inl hw)
  refine wp_lift_mapError_bind (fun encoded hencoded => ?_) fun _ _ => herr _ w (.inl hw)
  have hvalid : record.Valid := ⟨encoded, hencoded⟩
  rw [← ManifestRecord.encoded_eq hencoded]
  refine wp_mapErr_bind (wp_ensureStream hc hstable hw hensure ?_ fun _ w' hw' _ =>
    herr _ w' (.inl hw'))
  intro w₁ hw₁ _ _
  refine wp_mapErr_bind (wp_readAll hc hstable hw₁ ?_ fun _ w' hw' _ => herr _ w' (.inl hw'))
  intro w₂ hw₂ hinv₂
  obtain ⟨records, hrecords⟩ := hheld w₂ hw₂ hinv₂
  refine wp_okOr_bind (fun existingLen hexisting => ?_) fun _ => herr _ w₂ (.inl hw₂)
  refine wp_lift_bind (fun plan hplan => ?_) fun _ _ => herr _ w₂ (.inl hw₂)
  rcases planManifestAppend_eq_ok hrecords hplan with rfl | ⟨rfl, hhead⟩
  · refine wp_lift_mapError_bind (fun latest hchain => ?_) fun _ _ => herr _ w₂ (.inl hw₂)
    obtain ⟨_, hnext, _⟩ := validateManifestChain_append.mp hchain
    have hw₂ := hstart w₂ records hw₂ hrecords hvalid hnext
    refine wp_mapErr_bind (wp_appendExactWithRetry hc hduring hw₂ (happend hvalid) ?_ ?_)
    · exact fun _ w' hw' => herr _ w' (.inr hw')
    · intro out w' hw' hends
      refine wp_okOr_bind (fun encodedLen hlen => ?_) fun _ => herr _ w' (.inr hw')
      refine wp_okOr_bind (fun expectedEnd hend => ?_) fun _ => herr _ w' (.inr hw')
      refine wp_check_bind (fun hoffset => ?_) fun _ => herr _ w' (.inr hw')
      rw [u64OfUsize_eq_some] at hexisting hlen
      rw [checkedAddU64_eq_some, hexisting, hlen, hrecords.content,
        length_manifestBytes hrecords.valid, hvalid.length_eq,
        ← hrecords.chain.extends_revision hnext] at hend
      rw [hoffset, hend] at hends
      exact hok _ w' hw' hvalid hends
  · exact hlast _ w₂ records hw₂ hrecords hhead

/-- A record that has been published is in the stream, at the place that its
revision gives it. -/
theorem wp_publishManifestRecord (hw : assertion w)
    (hlog : ∀ w, c.inv w → ∃ records, ManifestLog roomId w.disk records)
    (hensure : Keeps serve c assertion (.ensureStream (manifestStream roomId).physical))
    (happend : record.Valid → Keeps serve c (fun w => assertion w ∧ CheckedAgainst roomId record w)
      (.append (manifestStream roomId).physical ⟨manifestProducerId roomId, 0, record.revision⟩
        record.encoded))
    (herr : ∀ error w', assertion w' → post (.error error) w')
    (hok : ∀ out w', assertion w' → record.Valid →
      EndsAt (w'.disk.read (manifestStream roomId).physical) (188 * (record.revision.toNat + 1))
        record.encoded → post (.ok out) w') :
    wp serve c (publishManifestRecord roomId record retries).run post w := by
  have hduring := stable_and hstable ((CheckedAgainst.stable roomId record).stable hc.grows)
  refine wp_publishManifestRecord_cases hc hstable hduring hw ?_ hensure ?_ happend ?_ ?_ ?_
  · intro w _ hinv
    obtain ⟨records, h⟩ := hlog w hinv
    exact ⟨records, h.toManifestHeld⟩
  · intro w records hw hheld _ hnext
    exact ⟨hw, records, hheld.valid, hheld.chain, hheld.content ▸ List.prefix_rfl, hnext⟩
  · exact fun error w' hw' => herr error w' (hw'.elim id And.left)
  · intro out w' records hw' hheld hlast
    exact hok out w' hw' (hheld.valid _ (List.mem_of_getLast? hlast)) (hheld.endsAt_getLast hlast)
  · exact fun out w' hw' hvalid hends => hok out w' hw'.1 hvalid hends

end Manifest

end LoroGateway
