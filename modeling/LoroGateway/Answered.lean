import LoroGateway.PublicationSpec

/-!
# A store that answers

`answered` is a store that fails no call, loses no answer and delays no append.
The lemmas say what succeeds there: an append that carries the next sequence of
its producer, and the publication of a record that extends the manifest.
-/

namespace LoroGateway

open ByteCodec CrashLogic

/-- A store that answers every call. -/
def answered : Serve Request Answer World := fun w req x w' => (x, w') = w.serve .answered req

theorem served_of_answered {w : World} {req : Request} {x : Answer req} {w' : World}
    (h : answered w req x w') : served w req x w' := ⟨.answered, h⟩

theorem answered_total (w : World) (req : Request) : ∃ x w', answered w req x w' := ⟨_, _, rfl⟩

section Calls

variable {α : Type} {post : α → World → Prop} {w : World}

/-- The rule of a call that is answered. -/
theorem wp_answered {req : Request} {next : Answer req → StoreM α}
    (h : wp answered (.alone fun _ => True) (next (w.serve .answered req).1) post
      (w.serve .answered req).2) :
    wp answered (.alone fun _ => True) (.call req next) post w := by
  refine wp_call_alone fun _ x t hserve => ⟨trivial, ?_⟩
  obtain ⟨rfl, rfl⟩ := Prod.mk.inj hserve
  exact h

/-- What a program ensures over a store that answers, some run of it shows. -/
theorem exists_run_of_answered {p : StoreM α}
    (h : wp answered (.alone fun _ => True) p post w) :
    ∃ value w', Runs answered Eq p w value w' ∧ post value w' := by
  obtain ⟨value, w', hrun⟩ := Runs.exists_of_total (fun _ => rfl) answered_total w
  exact ⟨value, w', hrun, (hrun.sound_alone trivial h).2⟩

end Calls

/-- The world after a stream has been created. -/
def World.ensure (w : World) (stream : String) : World := { w with disk := w.disk.ensure stream }

theorem wp_ensureStream_answered {stream : String} {w : World}
    {post : Except StoreError Unit → World → Prop} (h : post (.ok ()) (w.ensure stream)) :
    wp answered (.alone fun _ => True) (UrsulaStore.ensureStream stream) post w :=
  wp_answered h

theorem wp_readAll_answered {stream : String} {w : World}
    {post : Except StoreError Bytes → World → Prop} (h : post (.ok (w.disk.read stream)) w) :
    wp answered (.alone fun _ => True) (UrsulaStore.readAll stream) post w :=
  wp_answered h

/-- The world after an append that was accepted and answered. -/
def World.accept (w : World) (app : Append) : World :=
  { w with
    disk := w.disk.accept app
    journal := ⟨app, .ok (.committed (w.disk.endOffset app)), true⟩ :: w.journal }

section Append

variable {stream : String} {producer : ProducerTuple} {body : Bytes} {w : World}

theorem serve_answered_append (h : w.disk.Accepts ⟨stream, producer, body⟩) :
    w.serve .answered (.append stream producer body) =
      (.ok (.committed (w.disk.endOffset ⟨stream, producer, body⟩)),
        w.accept ⟨stream, producer, body⟩) := by
  have hanswer : w.disk.appendAnswer ⟨stream, producer, body⟩ =
      .ok (.committed (w.disk.endOffset ⟨stream, producer, body⟩)) := if_pos h
  simp only [World.serve, Fate.replyAppend, Fate.reply, Fate.acts, hanswer, if_true, World.accept,
    Disk.append_of_accepts h, decide_eq_true h, Bool.and_true]

/-- An exact append that the store accepts is committed. -/
theorem wp_appendExactWithRetry_answered {retries : Nat}
    {post : Except StoreError ExactAppendOutcome → World → Prop} (hbody : body ≠ [])
    (haccepts : w.disk.Accepts ⟨stream, producer, body⟩)
    (hok : post (.ok (.committed (w.disk.endOffset ⟨stream, producer, body⟩)))
      (w.accept ⟨stream, producer, body⟩)) :
    wp answered (.alone fun _ => True) (appendExactWithRetry stream producer body retries) post
      w := by
  have hserve := serve_answered_append haccepts
  rw [appendExactWithRetry, if_neg hbody, ExactAppend.attempts]
  refine wp_answered ?_
  rw [hserve]
  exact hok

end Append

section Manifest

variable [Hashing] {roomId : String} {record : ManifestRecord} {records : List ManifestRecord}

/-- A record that extends the stream is planned as its last one. -/
theorem planManifestAppend_of_extends {d : Disk} (h : ManifestHeld roomId d records)
    (hcount : records.length ≤ 65536) (hnext : Extends roomId records record) :
    planManifestAppend roomId record record.encoded (d.read (manifestStream roomId).physical) =
      .ok (some (records ++ [record])) := by
  rw [h.content, planManifestAppend]
  split_ifs with hempty
  · rw [manifestBytes_eq_nil h.valid] at hempty
    subst hempty
    have hstarts : Starts roomId record := hnext
    rw [check_bind_eq_ok, check_bind_eq_ok]
    exact ⟨hstarts.revision, hstarts.previous, rfl⟩
  · rw [manifestBytes_eq_nil h.valid] at hempty
    obtain ⟨latest, hlast⟩ := Option.ne_none_iff_exists'.mp
      (mt List.getLast?_eq_none_iff.mp hempty)
    rw [Extends, hlast] at hnext
    have hfollows : Follows roomId latest record := hnext
    have hdecode : (decodeManifestStream (manifestBytes records) .default).mapError
        ManifestWriteError.manifest = .ok records :=
      mapError_eq_ok.mpr (decodeManifestStream_of_le h.valid h.word hcount)
    have hchain : (validateManifestChain records roomId).mapError ManifestWriteError.manifest =
        .ok latest :=
      mapError_eq_ok.mpr (validateManifestChain_eq_ok.mpr ⟨h.chain, hlast⟩)
    refine bind_eq_ok.mpr ⟨records, hdecode, bind_eq_ok.mpr ⟨latest, hchain, ?_⟩⟩
    rw [if_neg]
    · refine okOr_bind_eq_ok.mpr ⟨record.revision,
        checkedAddU64_eq_some.mpr hfollows.revision, ?_⟩
      rw [check_bind_eq_ok, check_bind_eq_ok]
      exact ⟨rfl, hfollows.previous, rfl⟩
    · rintro ⟨rfl, _⟩
      have hrevision := hfollows.revision
      omega

/-- A record that extends the manifest is published. -/
theorem wp_publishManifestRecord_answered {retries : Nat} {w : World}
    {post : Except ManifestWriteError WriteOutcome → World → Prop}
    (h : ManifestLog roomId w.disk records) (hcount : records.length ≤ 65536)
    (hvalid : record.Valid) (hnext : Extends roomId records record)
    (hok : ∀ outcome, post (.ok outcome)
      ((w.ensure (manifestStream roomId).physical).accept (manifestAppend roomId record))) :
    wp answered (.alone fun _ => True) (publishManifestRecord roomId record retries).run post w := by
  have hlength := length_manifestBytes h.valid
  have hsize : wordSize = 18446744073709551616 := rfl
  have hword : (manifestBytes records).length + 188 < wordSize := by omega
  have hlog : ManifestLog roomId (w.ensure (manifestStream roomId).physical).disk records :=
    h.ensure (manifestStream roomId).physical
  have haccepts := hlog.accepts hvalid hnext hword
  have hplan := planManifestAppend_of_extends hlog.toManifestHeld hcount hnext
  have hlinked : validateManifestChain (records ++ [record]) roomId = .ok record :=
    validateManifestChain_eq_ok.mpr ⟨h.chain.snoc hnext, List.getLast?_concat⟩
  have hroom : record.belongsToRoom roomId :=
    (h.chain.snoc hnext).room record (List.mem_append_right _ (List.mem_singleton_self _))
  have hbody : record.encoded ≠ [] := by
    intro hnil
    have hlen := hvalid.length_eq
    rw [hnil] at hlen
    cases hlen
  have hword64 : ∀ n, n < wordSize → ∃ x : UInt64, x.toNat = n :=
    fun n hn => ⟨UInt64.ofNat n, UInt64.toNat_ofNat_of_lt' hn⟩
  obtain ⟨existingLen, hexisting⟩ := hword64 (manifestBytes records).length (by omega)
  obtain ⟨encodedLen, hencoded⟩ := hword64 record.encoded.length (by rw [hvalid.length_eq]; decide)
  have hend : ((w.ensure (manifestStream roomId).physical).disk.endOffset
      (manifestAppend roomId record)).toNat = existingLen.toNat + encodedLen.toNat := by
    rw [Disk.endOffset_toNat haccepts, hexisting, hencoded, ← hlog.content]
    rfl
  rw [publishManifestRecord]
  refine wp_check_bind (fun _ => ?_) fun hnot => absurd hroom hnot
  rw [hvalid.encode_eq]
  refine wp_lift_mapError_bind (fun encoded heq => ?_) fun _ h => by cases h
  obtain rfl := Except.ok.inj heq
  refine wp_mapErr_bind (wp_ensureStream_answered (wp_mapErr_bind (wp_readAll_answered ?_)))
  dsimp only
  rw [hplan, hlog.content, u64OfUsize_eq_some.mpr hexisting]
  refine wp_okOr_bind (fun _ heq => ?_) fun h => by cases h
  obtain rfl := Option.some.inj heq
  refine wp_lift_bind (fun plan heq => ?_) fun _ h => by cases h
  obtain rfl := Except.ok.inj heq
  dsimp only
  rw [hlinked]
  refine wp_lift_mapError_bind (fun _ _ => ?_) fun _ h => by cases h
  refine wp_mapErr_bind (wp_appendExactWithRetry_answered hbody haccepts ?_)
  dsimp only
  rw [u64OfUsize_eq_some.mpr hencoded]
  refine wp_okOr_bind (fun _ heq => ?_) fun h => by cases h
  obtain rfl := Option.some.inj heq
  rw [checkedAddU64_eq_some.mpr hend]
  refine wp_okOr_bind (fun _ heq => ?_) fun h => by cases h
  obtain rfl := Option.some.inj heq
  exact wp_check_bind (fun _ => hok _) fun hnot => absurd rfl hnot

end Manifest

end LoroGateway
