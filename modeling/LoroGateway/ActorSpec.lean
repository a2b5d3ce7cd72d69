import LoroGateway.Admission
import LoroGateway.Gateway
import LoroGateway.RecoverySpec

/-!
# What the programs of the actor do

One rule for each program of `LoroGateway.Actor`.  A rule names the outcomes of
the program and leaves to its user what they mean; an assertion of the user is
carried through the calls.
-/

namespace LoroGateway

open ByteCodec CrashLogic CrashLogic.Server

variable [Hashing] {Doc : Type} [Loro Doc]

/-- The store of an environment does no worse than `served`, and its contract
only lets streams grow. -/
theorem environment_grounded {roomId : String} {config : ActorConfig}
    (policy : Policy Doc roomId config) (task : Task (gateway Doc roomId config))
    (inv : World → Prop) :
    Grounded ((environment policy).serve task) ((environment policy).contract inv) where
  sub := by
    rintro w req x w' ⟨fate, _, _, heq⟩
    exact ⟨fate, heq⟩
  grows := by
    intro w w' hrely
    induction hrely with
    | refl => exact Disk.Grows.refl _
    | tail _ hlast ih =>
      obtain ⟨app, _, _, rfl⟩ := hlast
      exact ih.trans (Disk.grows_append _ _)
  guar_refl _ := trivial

section Resolve

variable {serve : Serve Request Answer World} {c : Contract World} (hc : Grounded serve c)
  {assertion : World → Prop} (hstable : c.Stable assertion) {config : ActorConfig}
  {pending : PendingAppend} {w : World}

include hc hstable

/-- A duplicate counts only when the bytes before the answered offset are those
of the pending frame. -/
theorem wp_resolveDuplicate {n : UInt64} {post : Except StoreError Unit → World → Prop}
    (hw : assertion w) (herr : ∀ error w', assertion w' → c.inv w' → post (.error error) w')
    (hok : ∀ w', assertion w' → c.inv w' →
      EndsAt (w'.disk.read pending.targetStream) n.toNat pending.bytes → post (.ok ()) w')
    (hinv : c.inv w) :
    wp serve c (resolveDuplicate config pending n).run post w := by
  rw [resolveDuplicate]
  refine wp_okOr_bind (fun frameLen hlen => ?_) fun _ => herr _ w hw hinv
  refine wp_okOr_bind (fun start hstart => ?_) fun _ => herr _ w hw hinv
  refine wp_run_bind.mpr (wp_readRange hc hstable hw ?_ fun error w' hw' hinv' => herr _ w' hw' hinv')
  intro w' hw' hinv' hfit
  dsimp only
  rw [wp_run_lift]
  generalize hstored : ((w'.disk.read pending.targetStream).drop start.toNat).take
    pending.bytes.length = stored
  cases hverify : verifyDuplicateBytes pending stored config.frameLimits with
  | error error => exact herr error w' hw' hinv'
  | ok value =>
    rw [verifyDuplicateBytes, check_bind_eq_ok, check_bind_eq_ok] at hverify
    obtain ⟨_, hbytes, _⟩ := hverify
    have hends := EndsAt.of_slice hfit (hstored.trans hbytes)
    rw [u64OfUsize_eq_some] at hlen
    rw [checkedSubU64_eq_some] at hstart
    rw [← hlen, ← hstart] at hends
    exact hok w' hw' hinv' hends

/-- One turn of the retry loop.  `again` is what the rest of the loop ensures. -/
theorem wp_resolveAttempts_turn {left : Nat}
    {post : Except AppendFailure DurableAppend → World → Prop}
    (hw : assertion w) (hkeeps : Keeps serve c assertion pending.request)
    (hcommitted : ∀ w₁ n w₂, assertion w₁ → c.inv w₁ →
      serve w₁ pending.request (.ok (.committed n)) w₂ → assertion w₂ → c.inv w₂ →
      post (.ok (.committed n)) w₂)
    (hduplicate : ∀ w₁ n w₂, assertion w₁ → c.inv w₁ →
      serve w₁ pending.request (.ok (.duplicate n)) w₂ → ∀ w₃, assertion w₃ → c.inv w₃ →
      c.rely w₂ w₃ → EndsAt (w₃.disk.read pending.targetStream) n.toNat pending.bytes →
      post (.ok (.verifiedDuplicate n)) w₃)
    (hrejected : ∀ w₁ kind message w₂, assertion w₁ → c.inv w₁ →
      serve w₁ pending.request (.error (.rejected kind message)) w₂ → assertion w₂ → c.inv w₂ →
      post (.error (.definitelyRejected kind message)) w₂)
    (hunknown : ∀ error w₂, assertion w₂ → c.inv w₂ → post (.error (.outcomeUnknown error)) w₂)
    (again : ∀ left', left = left' + 1 → ∀ w', assertion w' → c.inv w' →
      wp serve c (resolveAttempts config pending left') post w') :
    wp serve c (resolveAttempts config pending left) post w := by
  rw [resolveAttempts]
  refine wp_request hstable hw hkeeps fun w₁ x w₂ hw₁ hinv₁ hserve hw₂ hinv₂ => ?_
  match x with
  | .ok (.committed n) => exact hcommitted w₁ n w₂ hw₁ hinv₁ hserve hw₂ hinv₂
  | .ok (.duplicate n) =>
    change wp serve c ((resolveDuplicate config pending n).run >>= _) post w₂
    have hsince : c.Stable fun w => c.rely w₂ w := fun _ _ h hrely => c.rely_trans h hrely
    have hstable₂ := stable_and hstable hsince
    refine wp_bind.mpr (wp_resolveDuplicate hc hstable₂ ⟨hw₂, c.rely_refl _⟩ ?_ ?_ hinv₂)
    · exact fun error w' hw' hinv' => hunknown error w' hw'.1 hinv'
    · exact fun w' hw' hinv' => hduplicate w₁ n w₂ hw₁ hinv₁ hserve w' hw'.1 hinv' hw'.2
  | .error (.ambiguous message) =>
    cases left with
    | zero => exact hunknown _ w₂ hw₂ hinv₂
    | succ left => exact again left rfl w₂ hw₂ hinv₂
  | .error (.rejected kind message) => exact hrejected w₁ kind message w₂ hw₁ hinv₁ hserve hw₂ hinv₂
  | .error (.integrity message) => exact hunknown _ w₂ hw₂ hinv₂

/-- What a resolution can come to.  Every answer that ends it is seen by the
caller; `assertion` is carried over the answers that do not. -/
theorem wp_resolveAppend {post : Except AppendFailure DurableAppend → World → Prop}
    (hw : assertion w) (hkeeps : Keeps serve c assertion pending.request)
    (hcommitted : ∀ w₁ n w₂, assertion w₁ → c.inv w₁ →
      serve w₁ pending.request (.ok (.committed n)) w₂ → assertion w₂ → c.inv w₂ →
      post (.ok (.committed n)) w₂)
    (hduplicate : ∀ w₁ n w₂, assertion w₁ → c.inv w₁ →
      serve w₁ pending.request (.ok (.duplicate n)) w₂ → ∀ w₃, assertion w₃ → c.inv w₃ →
      c.rely w₂ w₃ → EndsAt (w₃.disk.read pending.targetStream) n.toNat pending.bytes →
      post (.ok (.verifiedDuplicate n)) w₃)
    (hrejected : ∀ w₁ kind message w₂, assertion w₁ → c.inv w₁ →
      serve w₁ pending.request (.error (.rejected kind message)) w₂ → assertion w₂ → c.inv w₂ →
      post (.error (.definitelyRejected kind message)) w₂)
    (hunknown : ∀ error w₂, assertion w₂ → c.inv w₂ → post (.error (.outcomeUnknown error)) w₂) :
    wp serve c (resolveAppend config pending) post w := by
  rw [resolveAppend]
  generalize config.ambiguousRetries = left
  induction left generalizing w with
  | zero =>
    exact wp_resolveAttempts_turn hc hstable hw hkeeps hcommitted hduplicate hrejected hunknown nofun
  | succ left ih =>
    refine wp_resolveAttempts_turn hc hstable hw hkeeps hcommitted hduplicate hrejected hunknown ?_
    intro left' hleft w' hw' _
    obtain rfl := Nat.succ.inj hleft
    exact ih hw'

end Resolve

namespace RoomActor

section Update

variable {serve : Serve Request Answer World} {c : Contract World} {a : RoomActor Doc} {w : World}
  {connectionId : UInt64} {batchId : BatchId} {updates : List Bytes} {peer : PeerSender}

/-- An update is refused before its append, or admitted and resolved. -/
theorem wp_update {post : RoomActor Doc × List Output → World → Prop}
    (hrefused : ∀ status, a.admitUpdate connectionId batchId updates = .error status →
      post (a, sendAck peer a.roomId batchId status) w)
    (hadmitted : ∀ admission, a.Admitted connectionId batchId updates admission →
      wp serve c (resolveAppend a.config admission.pending)
        (fun r t => post (a.finishUpdate connectionId batchId updates peer admission r) t) w) :
    wp serve c (a.update connectionId batchId updates peer) post w := by
  rw [update]
  split
  · rename_i status hstatus
    exact hrefused status hstatus
  · rename_i admission hadmission
    exact wp_bind.mpr (hadmitted admission (admitUpdate_eq_ok hadmission))

/-- A rotation is refused, or it runs. -/
theorem wp_rotateGeneration {post : RoomActor Doc × Bool → World → Prop}
    (hbusy : ¬ (a.lifecycle = .ready ∧ a.blocked = none) → post (a, false) w)
    (hrotate : a.lifecycle = .ready → a.blocked = none →
      wp serve c (rotateRoom a.roomId a.activeDeltaGeneration a.activeDeltaEndOffset a.doc a.history
        a.config.ambiguousRetries).run
        (fun r t => match r with
          | .ok rotated => post (a.withRotation rotated, true) t
          | .error error => post (a.transition .unavailable (some error.display), false) t) w) :
    wp serve c a.rotateGeneration post w := by
  rw [rotateGeneration]
  split_ifs with hnot
  · exact hbusy fun h => hnot.elim (fun hne => hne h.1) fun hne => hne h.2
  · rw [not_or, not_not, not_not] at hnot
    refine wp_bind.mpr (wp_mono ?_ (hrotate hnot.1 hnot.2))
    intro r t h
    cases r with
    | ok rotated => exact h
    | error error => exact h

end Update

theorem replayStream_error {limits : FrameLimits} {bytes : Bytes} {failure : InitializationFailure}
    (h : replayStream Doc limits bytes = .error failure) : failure.state = .corrupt := by
  have herrors : ErrorsIn (fun failure => failure.state = .corrupt)
      (replayStream Doc limits bytes) := by
    rw [replayStream]
    refine .bind (.mapError fun _ => rfl) fun _ _ => .bind (.mapError fun _ => rfl) fun _ _ => ?_
    exact .bind (.mapError fun _ => rfl) fun _ _ => .ok _
  exact herrors failure h

omit [Hashing] in
theorem initializationStoreFailure_state (error : StoreError) :
    (initializationStoreFailure error).state = .corrupt ∨
      (initializationStoreFailure error).state = .unavailable := by
  cases error
  · exact .inr rfl
  · exact .inr rfl
  · exact .inl rfl

omit [Hashing] in
theorem manifestRecoveryFailure_state (error : RecoveryError) :
    (manifestRecoveryFailure error).state = .corrupt ∨
      (manifestRecoveryFailure error).state = .unavailable := by
  cases error with
  | store source =>
    cases source
    · exact .inr rfl
    · exact .inr rfl
    · exact .inl rfl
  | _ => exact .inl rfl

section Load

variable {serve : Serve Request Answer World} {c : Contract World} (hc : Grounded serve c)
  {assertion : World → Prop} (hstable : c.Stable assertion) {a : RoomActor Doc} {w : World}

include hc hstable

/-- A load reads the stream of the actor and replays it. -/
theorem wp_loadFromStore
    {post : RoomActor Doc × Except InitializationFailure (List Bytes × Doc) → World → Prop}
    (hw : assertion w)
    (hread : ∀ w' endOffset, assertion w' → c.inv w' →
      serve w' (.readAll a.stream) (.ok (w'.disk.read a.stream)) w' →
      endOffset.toNat = (w'.disk.read a.stream).length →
      post ({ a with activeDeltaEndOffset := endOffset },
        replayStream Doc a.config.frameLimits (w'.disk.read a.stream)) w')
    (hfail : ∀ failure w', assertion w' → c.inv w' →
      failure.state = .corrupt ∨ failure.state = .unavailable → post (a, .error failure) w') :
    wp serve c a.loadFromStore post w := by
  rw [loadFromStore]
  refine wp_bind.mpr (wp_readAll_served hc hstable hw ?_ ?_)
  · intro w' hw' hinv' hserve
    dsimp only
    split
    · exact hfail _ w' hw' hinv' (.inl rfl)
    · rename_i endOffset hend
      exact hread w' endOffset hw' hinv' hserve (u64OfUsize_eq_some.mp hend)
  · intro error w' hw' hinv'
    exact hfail _ w' hw' hinv' (initializationStoreFailure_state error)

/-- What a start can come to: it fails, it recovers from the manifest, or it
replays the stream of a room that has no manifest. -/
theorem wp_activate {roomId : String} {config : ActorConfig} {boot : Boot}
    {post : RoomActor Doc → World → Prop}
    (hstore : ∀ w, c.inv w → ∃ records, StoreInvariant Doc roomId w records) (hw : assertion w)
    (hensure : ∀ stream, Keeps serve c assertion (.ensureStream stream))
    (hfail : ∀ endOffset lifecycle lastError w', assertion w' →
      lifecycle = .corrupt ∨ lifecycle = .unavailable →
      post (({ (RoomActor.new roomId boot config : RoomActor Doc) with
        activeDeltaEndOffset := endOffset } : RoomActor Doc).transition lifecycle lastError) w')
    (hrecovered : ∀ records checkpoint frames recovery w', assertion w' → c.inv w' →
      Recovered (fun w => (assertion w ∧ c.inv w) ∧ w.disk.Grows w'.disk) roomId config.frameLimits
        records checkpoint frames recovery →
      post (((RoomActor.new roomId boot config).withRecovery recovery).transition .ready none) w')
    (hlegacy : ∀ w₁ endOffset history (doc : Doc) w', assertion w₁ → StoreInvariant Doc roomId w₁ [] →
      assertion w' → c.inv w' →
      endOffset.toNat = (w'.disk.read (deltaStream roomId).physical).length →
      replayStream Doc config.frameLimits (w'.disk.read (deltaStream roomId).physical) =
        .ok (history, doc) →
      post (({ (RoomActor.new roomId boot config : RoomActor Doc) with
        activeDeltaEndOffset := endOffset
        history := history
        doc := doc } : RoomActor Doc).transition .ready none) w') :
    wp serve c (activate roomId config boot) post w := by
  rw [activate, initializeActor, wp_bind, wp_bind]
  refine wp_recoverFromManifest hc hstable hstore hw (hensure _) ?_ ?_ ?_
  · intro error w' hw' _
    exact hfail 0 _ _ w' hw' (manifestRecoveryFailure_state error)
  · intro w₁ hw₁ hempty
    change wp serve c (UrsulaStore.ensureStream _ >>= _) _ w₁
    refine wp_bind.mpr (wp_ensureStream hc hstable hw₁ (hensure _) ?_ ?_)
    · intro w₂ hw₂ _ _
      change wp serve c (loadFromStore _ >>= _) _ w₂
      refine wp_bind.mpr (wp_loadFromStore hc hstable hw₂ ?_ ?_)
      · intro w₃ endOffset hw₃ hinv₃ _ hend
        generalize hreplay :
          replayStream Doc (new roomId boot config : RoomActor Doc).config.frameLimits
          (w₃.disk.read (new roomId boot config : RoomActor Doc).stream) = loaded
        cases loaded with
        | error failure =>
          exact hfail endOffset _ _ w₃ hw₃ (.inl (replayStream_error hreplay))
        | ok loaded =>
          exact hlegacy w₁ endOffset loaded.1 loaded.2 w₃ hw₁ hempty hw₃ hinv₃ hend hreplay
      · intro failure w₃ hw₃ _ hstate
        exact hfail 0 _ _ w₃ hw₃ hstate
    · intro error w₂ hw₂ _
      exact hfail 0 _ _ w₂ hw₂ (initializationStoreFailure_state error)
  · intro records checkpoint frames recovery w' hw' hinv' hrecovery
    exact hrecovered records checkpoint frames recovery w' hw' hinv' hrecovery

omit hstable in
/-- What a retry of the blocked append can come to: there is none, the room
stays blocked, or the actor is reloaded.  `settled` holds once the append has
been resolved. -/
theorem wp_retryPending (failed settled : World → Prop)
    {post : RoomActor Doc × Bool → World → Prop} (hsettled : c.Stable settled)
    (hnone : a.blocked = none → post (a, false) w)
    (hresolve : ∀ pending, a.blocked = some pending →
      wp serve c (resolveAppend a.config pending)
        (fun r t => match r with
          | .ok _ => settled t
          | .error _ => failed t) w)
    (hstuck : ∀ pending endOffset lifecycle lastError w', a.blocked = some pending →
      failed w' ∨ settled w' → lifecycle ≠ .ready →
      post (({ a with activeDeltaEndOffset := endOffset } : RoomActor Doc).transition lifecycle
        lastError, false) w')
    (hreloaded : ∀ pending endOffset next history (doc : Doc) w', a.blocked = some pending →
      settled w' → c.inv w' → serve w' (.readAll a.stream) (.ok (w'.disk.read a.stream)) w' →
      endOffset.toNat = (w'.disk.read a.stream).length →
      replayStream Doc a.config.frameLimits (w'.disk.read a.stream) = .ok (history, doc) →
      next.toNat = pending.producer.sequence.toNat + 1 →
      post (({ a with
        blocked := none
        activeDeltaEndOffset := endOffset
        producerSequence := next
        history := history
        doc := doc } : RoomActor Doc).transition .ready none, true) w') :
    wp serve c a.retryPending post w := by
  rw [retryPending]
  split
  · rename_i hblocked
    exact hnone hblocked
  · rename_i pending hblocked
    have hback : ∀ endOffset : UInt64,
        { a with blocked := some pending, activeDeltaEndOffset := endOffset } =
          { a with activeDeltaEndOffset := endOffset } := by
      intro endOffset
      rw [← hblocked]
    refine wp_bind.mpr (wp_mono ?_ (hresolve pending hblocked))
    intro r t ht
    match r with
    | .error (.definitelyRejected kind message) =>
      have hpost := hstuck pending a.activeDeltaEndOffset .unavailable
        (some ("ambiguous append retry was definitely rejected (" ++ kind.debug ++ "): " ++ message))
        t hblocked (.inl ht) (by decide)
      rw [← hback] at hpost
      exact hpost
    | .error (.outcomeUnknown error) =>
      have hpost := hstuck pending a.activeDeltaEndOffset .appendAmbiguous (some error.display) t
        hblocked (.inl ht) (by decide)
      rw [← hback] at hpost
      exact hpost
    | .ok proof =>
      change wp serve c (loadFromStore _ >>= _) post t
      refine wp_bind.mpr (wp_loadFromStore hc hsettled ht ?_ ?_)
      · intro w' endOffset hw' hinv' hserve hend
        dsimp only
        cases hreplay : replayStream Doc a.config.frameLimits (w'.disk.read a.stream) with
        | error failure =>
          have hpost := hstuck pending endOffset failure.state (some failure.message) w' hblocked
            (.inr hw') (by rw [replayStream_error hreplay]; decide)
          rw [← hback] at hpost
          exact hpost
        | ok loaded =>
          rw [finishReload]
          split
          · have hpost := hstuck pending endOffset .unavailable
              (some "producer sequence exhausted during reconciliation") w' hblocked (.inr hw')
              (by decide)
            rw [← hback] at hpost
            exact hpost
          · rename_i next hnext
            exact hreloaded pending endOffset next loaded.1 loaded.2 w' hblocked hw' hinv' hserve
              hend hreplay (checkedAddU64_eq_some.mp hnext)
      · intro failure w' hw' _ hstate
        have hpost := hstuck pending a.activeDeltaEndOffset failure.state (some failure.message) w'
          hblocked (.inr hw') (by rcases hstate with h | h <;> rw [h] <;> decide)
        rw [← hback] at hpost
        exact hpost

end Load

section Handle

variable {serve : Serve Request Answer World} {c : Contract World} {a : RoomActor Doc} {w : World}
  {command : Command} {post : RoomActor Doc × List Output → World → Prop}

/-- One turn of the actor, by its command. -/
theorem wp_handle
    (hwait : command = .waitForActivation → post (a, [.activated]) w)
    (hretry : command = .retryAmbiguous →
      wp serve c a.retryPending (fun r t => post (r.1, [.respond r.2]) t) w)
    (hrotate : command = .rotate →
      wp serve c a.rotateGeneration (fun r t => post (r.1, [.respond r.2]) t) w)
    (hclosed : a.Closed → post (a, a.rejectUnavailable command) w)
    (hjoin : ∀ connectionId version peer, command = .join connectionId version peer → ¬ a.Closed →
      post (a.join connectionId version peer) w)
    (hupdate : ∀ connectionId batchId updates peer,
      command = .update connectionId batchId updates peer → ¬ a.Closed →
      wp serve c (a.update connectionId batchId updates peer) post w)
    (hleave : ∀ connectionId, command = .leave connectionId → ¬ a.Closed →
      post ({ a with peers := a.peers.remove connectionId }, []) w) :
    wp serve c (a.handle command) post w := by
  cases command with
  | waitForActivation => exact hwait rfl
  | retryAmbiguous => exact wp_bind.mpr (wp_mono (fun _ _ h => h) (hretry rfl))
  | rotate => exact wp_bind.mpr (wp_mono (fun _ _ h => h) (hrotate rfl))
  | join connectionId version peer =>
    rw [handle]
    split_ifs with h
    · exact hclosed h
    · exact hjoin _ _ _ rfl h
  | update connectionId batchId updates peer =>
    rw [handle]
    split_ifs with h
    · exact hclosed h
    · exact hupdate _ _ _ _ rfl h
  | leave connectionId =>
    rw [handle]
    split_ifs with h
    · exact hclosed h
    · exact hleave _ rfl h

end Handle

end RoomActor

end LoroGateway
