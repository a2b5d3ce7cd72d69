import LoroGateway.Admission
import LoroGateway.Scripted

/-!
# An acknowledgement is a proof

The store of this module is any host: it may answer what it likes, as long as a
committed append and a range that it reads back are as it says.  The offset of
a duplicate is not trusted.  The host keeps a list of the calls it served.
-/

namespace LoroGateway

open ByteCodec CrashLogic

section

variable {σ : Type} {serve : Serve Request Answer σ} {content : σ → String → Bytes}

/-- The host, with a list of the calls that it served. -/
def logged (serve : Serve Request Answer σ) : Serve Request Answer (σ × List Request) :=
  fun s req x t => serve s.1 req x t.1 ∧ t.2 = s.2 ++ [req]

/-- A store that says the truth about commits and about ranges. -/
structure Truthful (serve : Serve Request Answer σ) (content : σ → String → Bytes) : Prop where
  committed : ∀ {s stream producer body n t},
    serve s (.append stream producer body) (.ok (.committed n)) t →
      EndsAt (content t stream) n.toNat body
  range : ∀ {s stream offset length bytes t},
    serve s (.readRange stream offset length) (.ok bytes) t →
      bytes = ((content t stream).drop offset.toNat).take length

/-- The appends among the calls of a list. -/
def appendsOf (calls : List Request) : List Request := calls.filter isAppend

theorem appendsOf_append (left right : List Request) :
    appendsOf (left ++ right) = appendsOf left ++ appendsOf right := List.filter_append _ _

variable [Hashing]

/-- The bytes that a duplicate was compared with end at the answered offset. -/
theorem endsAt_of_verified {pending : PendingAppend} {limits : FrameLimits} {stream stored : Bytes}
    {n frameLen start : UInt64} (hlen : u64OfUsize pending.bytes.length = some frameLen)
    (hstart : checkedSubU64 n frameLen = some start)
    (hstored : stored = (stream.drop start.toNat).take pending.bytes.length)
    (hpos : pending.bytes ≠ []) (hverify : verifyDuplicateBytes pending stored limits = .ok ()) :
    EndsAt stream n.toNat pending.bytes := by
  rw [verifyDuplicateBytes, check_bind_eq_ok, check_bind_eq_ok] at hverify
  obtain ⟨hlength, hbytes, _⟩ := hverify
  rw [hstored] at hbytes
  have hfit : start.toNat + pending.bytes.length ≤ stream.length := by
    have hcount := congrArg List.length hbytes
    rw [List.length_take, List.length_drop] at hcount
    have hne := List.length_pos_of_ne_nil hpos
    omega
  have hends := EndsAt.of_slice hfit hbytes
  rw [u64OfUsize_eq_some] at hlen
  rw [checkedSubU64_eq_some] at hstart
  rwa [← hlen, ← hstart] at hends

section Resolve

variable (h : Truthful serve content) {config : ActorConfig} {pending : PendingAppend}
  (hpos : pending.bytes ≠ []) {most : Nat} {F : σ × List Request → Prop}

/-- The appends that were made are all the same, and there are at most so many. -/
def Tries (request : Request) (most : Nat) (t : σ × List Request) : Prop :=
  ∃ attempts ≤ most, appendsOf t.2 = List.replicate attempts request

variable (hF : ∀ t, Tries pending.request most t → F t)

include h hpos hF

theorem logged_resolveDuplicate {n : UInt64} {s : σ × List Request}
    (htries : Tries pending.request most s)
    {post : Except StoreError Unit → σ × List Request → Prop}
    (herr : ∀ error t, Tries pending.request most t → post (.error error) t)
    (hok : ∀ t, Tries pending.request most t →
      EndsAt (content t.1 pending.targetStream) n.toNat pending.bytes → post (.ok ()) t) :
    wp (logged serve) (.alone F) (resolveDuplicate config pending n).run post s := by
  rw [resolveDuplicate]
  refine wp_okOr_bind (fun frameLen hlen => ?_) fun _ => herr _ s htries
  refine wp_okOr_bind (fun start hstart => ?_) fun _ => herr _ s htries
  refine wp_run_bind.mpr (wp_call_alone fun _ x t hserve => ?_)
  have hcalls : appendsOf t.2 = appendsOf s.2 := by
    rw [hserve.2, appendsOf_append]
    exact List.append_nil _
  have htries' : Tries pending.request most t := by
    obtain ⟨attempts, hle, hmade⟩ := htries
    exact ⟨attempts, hle, hcalls.trans hmade⟩
  refine ⟨hF t htries', ?_⟩
  cases x with
  | error error => exact herr error t htries'
  | ok stored =>
    rw [wp_ret]
    dsimp only
    rw [wp_run_lift]
    cases hverify : verifyDuplicateBytes pending stored config.frameLimits with
    | error error => exact herr error t htries'
    | ok value =>
      exact hok t htries' (endsAt_of_verified hlen hstart (h.range hserve.1) hpos hverify)

/-- One turn of the retry loop.  `again` is what the rest of the loop ensures. -/
theorem logged_resolveAttempts_turn {left made : Nat} {s : σ × List Request}
    (hmade : appendsOf s.2 = List.replicate made pending.request) (hlt : made < most)
    {post : Except AppendFailure DurableAppend → σ × List Request → Prop}
    (herr : ∀ failure t, Tries pending.request most t → post (.error failure) t)
    (hok : ∀ proof t, Tries pending.request most t →
      EndsAt (content t.1 pending.targetStream) (DurableAppend.nextOffset proof).toNat
        pending.bytes → post (.ok proof) t)
    (again : ∀ left', left = left' + 1 → ∀ t,
      appendsOf t.2 = List.replicate (made + 1) pending.request →
        wp (logged serve) (.alone F) (resolveAttempts config pending left') post t) :
    wp (logged serve) (.alone F) (resolveAttempts config pending left) post s := by
  rw [resolveAttempts]
  refine wp_call_alone fun _ x t hserve => ?_
  have hcalls : appendsOf t.2 = List.replicate (made + 1) pending.request := by
    rw [hserve.2, appendsOf_append, hmade, List.replicate_succ']
    rfl
  have htries : Tries pending.request most t := ⟨made + 1, hlt, hcalls⟩
  refine ⟨hF t htries, ?_⟩
  match x with
  | .ok (.committed n) => exact hok (.committed n) t htries (h.committed hserve.1)
  | .ok (.duplicate n) =>
    change wp _ _ ((resolveDuplicate config pending n).run >>= _) post t
    refine wp_bind.mpr (logged_resolveDuplicate h hpos hF htries ?_ ?_)
    · exact fun error t' htries' => herr _ t' htries'
    · exact fun t' htries' hends => hok (.verifiedDuplicate n) t' htries' hends
  | .error (.ambiguous message) =>
    cases left with
    | zero => exact herr _ t htries
    | succ left => exact again left rfl t hcalls
  | .error (.rejected kind message) => exact herr _ t htries
  | .error (.integrity message) => exact herr _ t htries

/-- A resolution makes at most one append more than it may retry, all alike, and
a success means that the bytes are in the stream. -/
theorem logged_resolveAttempts {left made : Nat} {s : σ × List Request}
    (hmade : appendsOf s.2 = List.replicate made pending.request) (hlt : made + left < most) :
    wp (logged serve) (.alone F) (resolveAttempts config pending left)
      (fun r t => Tries pending.request most t ∧ ∀ proof, r = .ok proof →
        EndsAt (content t.1 pending.targetStream) proof.nextOffset.toNat pending.bytes) s := by
  induction left generalizing made s with
  | zero =>
    refine logged_resolveAttempts_turn h hpos hF hmade hlt ?_ ?_ nofun
    · exact fun failure t htries => ⟨htries, nofun⟩
    · rintro proof t htries hends
      refine ⟨htries, ?_⟩
      rintro _ ⟨⟩
      exact hends
  | succ left ih =>
    refine logged_resolveAttempts_turn h hpos hF hmade (by omega) ?_ ?_ ?_
    · exact fun failure t htries => ⟨htries, nofun⟩
    · rintro proof t htries hends
      refine ⟨htries, ?_⟩
      rintro _ ⟨⟩
      exact hends
    · intro left' hleft t hcalls
      obtain rfl := Nat.succ.inj hleft
      exact ih hcalls (by omega)

end Resolve

section Update

variable {Doc : Type} [Loro Doc] {a a' : RoomActor Doc} {connectionId : UInt64} {batchId : BatchId}
  {updates : List Bytes} {peer : PeerSender} {outputs : List Output}

/-- The appends of an update: the frame of the batch was submitted `attempts` times, always
to the stream of the actor and with the same tuple and bytes. -/
structure Attempted (calls : List Request) (a : RoomActor Doc) (batchId : BatchId)
    (updates : List Bytes) (frame : DeltaFrame) (bytes : Bytes) (attempts : Nat) : Prop where
  decodes : DeltaFrame.decodeExact bytes a.config.frameLimits = .ok frame
  producer : frame.producer = ⟨a.producerId, 0, a.producerSequence⟩
  batch : frame.batchId = batchId
  updates : frame.updates = updates
  bounded : attempts ≤ a.config.ambiguousRetries + 1
  calls : appendsOf calls = List.replicate attempts (.append a.stream frame.producer bytes)

/-- The bytes end in the stream at the offset that the actor keeps. -/
structure Proven (content : Bytes) (a' : RoomActor Doc) (bytes : Bytes) : Prop where
  le : bytes.length ≤ a'.activeDeltaEndOffset.toNat
  fits : a'.activeDeltaEndOffset.toNat ≤ content.length
  slice : (content.drop (a'.activeDeltaEndOffset.toNat - bytes.length)).take bytes.length = bytes

/-- Nothing was appended, or one frame was submitted. -/
def SubmitsOne (a : RoomActor Doc) (batchId : BatchId) (updates : List Bytes)
    (calls : List Request) : Prop :=
  appendsOf calls = [] ∨ ∃ frame bytes attempts,
    Attempted calls a batchId updates frame bytes attempts

/-- An update has at every moment submitted at most one frame, and when it is acknowledged
this frame is in the stream of the actor. -/
theorem logged_update (h : Truthful serve content) {s : σ} :
    wp (logged serve) (.alone fun t => SubmitsOne a batchId updates t.2)
      (a.update connectionId batchId updates peer)
      (fun r t => ∀ receiver roomId refId, .send receiver (.ack roomId refId .ok) ∈ r.2 →
        ∃ frame bytes attempts, Attempted t.2 a batchId updates frame bytes attempts ∧
          Proven (content t.1 a.stream) r.1 bytes) (s, []) := by
  rw [RoomActor.update]
  split
  · rename_i status hstatus
    intro receiver roomId refId hmem
    have hack := List.mem_singleton.mp hmem
    simp only [Output.send.injEq, ProtocolMessage.ack.injEq] at hack
    exact absurd hack.2.2.2.symm (RoomActor.admitUpdate_error_ne hstatus).1
  · rename_i admission hadmission
    have hadmitted := RoomActor.admitUpdate_eq_ok hadmission
    have hpos : admission.pending.bytes ≠ [] := by
      rw [hadmitted.bytes_eq]
      exact List.ne_nil_of_length_pos hadmitted.valid.length_pos
    have hattempted : ∀ t : σ × List Request,
        Tries admission.pending.request (a.config.ambiguousRetries + 1) t →
        ∃ attempts, Attempted t.2 a batchId updates admission.pending.frame
          admission.pending.bytes attempts := by
      intro t htries
      obtain ⟨attempts, hle, hcalls⟩ := htries
      refine ⟨attempts, ?_, ?_, ?_, ?_, hle, ?_⟩
      · have hword := hadmitted.valid.length_lt
        rw [← hadmitted.bytes_eq] at hword
        exact DeltaFrame.decodeExact_encode hadmitted.encode hadmitted.valid.digest_eq hword
      · rw [hadmitted.frame]
        rfl
      · rw [hadmitted.frame]
        rfl
      · rw [hadmitted.frame]
        rfl
      · rw [hcalls, PendingAppend.request, hadmitted.stream, hadmitted.producer, hadmitted.frame]
        rfl
    have hone : ∀ t : σ × List Request,
        Tries admission.pending.request (a.config.ambiguousRetries + 1) t →
        SubmitsOne a batchId updates t.2 := fun t htries =>
      .inr ⟨_, _, hattempted t htries⟩
    have hnone : appendsOf (s, ([] : List Request)).2 =
        List.replicate 0 admission.pending.request := rfl
    refine wp_bind.mpr (wp_mono ?_ (logged_resolveAttempts h hpos hone hnone (by omega)))
    rintro r t ⟨htries, hends⟩ receiver roomId refId hmem
    match r with
    | .ok proof =>
      obtain ⟨hbefore, hfits, hslice⟩ := (hends proof rfl).slice
      rw [hadmitted.stream] at hslice hfits
      obtain ⟨attempts, hattempts⟩ := hattempted t htries
      exact ⟨_, _, attempts, hattempts, hbefore, hfits, hslice⟩
    | .error (.definitelyRejected kind message) =>
      have hack := List.mem_singleton.mp hmem
      simp only [Output.send.injEq, ProtocolMessage.ack.injEq] at hack
      exact absurd hack.2.2.2.symm (RoomActor.rejectionStatus_ne kind).1
    | .error (.outcomeUnknown error) =>
      simp [RoomActor.finishUpdate, sendAck, sendRoomError] at hmem

/-- At every point of a turn that handles an update, whatever the store answers and
whatever the state of the actor, at most `ambiguous_retries + 1` appends were made, all with
one stream, one tuple and one body, which is the frame of the batch.  When the turn ends
with an acknowledgement of success, the frame is in the stream. -/
theorem ack_ok_durable (h : Truthful serve content) {s t : σ} {calls : List Request}
    {rest : StoreM (RoomActor Doc × List Output)}
    (hrun : Leads (logged serve) Eq (a.handle (.update connectionId batchId updates peer)) (s, [])
      rest (t, calls)) :
    (appendsOf calls = [] ∨ ∃ frame bytes attempts,
      Attempted calls a batchId updates frame bytes attempts) ∧
    ∀ a' outputs, rest = .ret (a', outputs) →
      ∀ receiver roomId refId, .send receiver (.ack roomId refId .ok) ∈ outputs →
        ∃ frame bytes attempts, Attempted calls a batchId updates frame bytes attempts ∧
          Proven (content t a.stream) a' bytes := by
  have hstart : SubmitsOne a batchId updates (s, ([] : List Request)).2 := .inl rfl
  rw [RoomActor.handle] at hrun
  split_ifs at hrun
  · have hrefused : wp (logged serve)
        (.alone fun t : σ × List Request => SubmitsOne a batchId updates t.2)
        (pure (a, a.rejectUnavailable (.update connectionId batchId updates peer)))
        (fun r _ => r.2 = a.rejectUnavailable (.update connectionId batchId updates peer))
        (s, []) := rfl
    obtain ⟨hcalls, hend⟩ := hrun.sound_alone hstart hrefused
    refine ⟨hcalls, ?_⟩
    rintro a' outputs rfl receiver roomId refId hmem
    have houtputs :
        outputs = a.rejectUnavailable (.update connectionId batchId updates peer) := hend
    rw [houtputs] at hmem
    simp [RoomActor.rejectUnavailable, sendAck] at hmem
  · obtain ⟨hcalls, hend⟩ := hrun.sound_alone hstart (logged_update h)
    refine ⟨hcalls, ?_⟩
    rintro a' outputs rfl
    exact hend

end Update

end

open Sample

/-- The store at its worst still says the truth about commits and ranges. -/
theorem truthful_served : Truthful served fun w stream => w.disk.read stream where
  committed hserve := served_committed hserve
  range := by
    intro w stream offset length bytes w' hserve
    obtain ⟨rfl, hread⟩ := served_readRange hserve
    exact (hread bytes rfl).2

/-- A ready actor with one connection. -/
def sampleActor : RoomActor OpDoc :=
  { RoomActor.new "r" (sampleBoot 0) .default with peers := [(1, 7)], lifecycle := .ready }

/-- The scripted store, with a list of the calls that it served. -/
def loggedStore : Host Request Answer (World × List Request) Fate := fun fate s req =>
  some ((s.1.serve fate req).1, (s.1.serve fate req).2, s.2 ++ [req])

theorem logged_of_scripted (fate : Fate) (s : World × List Request) (req : Request) (x : Answer req)
    (t : World × List Request) (h : loggedStore fate s req = some (x, t)) :
    logged served s req x t := by
  cases h
  exact ⟨⟨fate, rfl⟩, rfl⟩

/-- The first append takes effect and its answer is lost; the second one is
answered as a duplicate. -/
theorem ack_ok_durable_retried :
    ∃ (a' : RoomActor OpDoc) (w : World) (calls : List Request) (frame : DeltaFrame) (bytes : Bytes),
      Attempted calls sampleActor (ByteArr.zero 8) [[1, 0]] frame bytes 2 ∧
      Proven (w.disk.read sampleActor.stream) a' bytes := by
  have hplay : ((sampleActor.handle (.update 1 (ByteArr.zero 8) [[1, 0]] 7)).play loggedStore
      [.lost "timeout", .answered, .answered] (World.empty, [])).any (fun r =>
        match r.1 with
        | .ret (_, outputs) =>
          decide (.send 7 (.ack "r" (ByteArr.zero 8) .ok) ∈ outputs) &&
            decide ((appendsOf r.2.2).length = 2)
        | .call _ _ => false) = true := by
    decide +kernel
  obtain ⟨⟨p, w, calls⟩, hplay, hend⟩ := (Option.any_eq_true _ _).mp hplay
  cases p with
  | call req next => cases hend
  | ret value =>
    obtain ⟨a', outputs⟩ := value
    obtain ⟨hack, hlength⟩ := Bool.and_eq_true_iff.mp hend
    have hrun := Runs.of_play logged_of_scripted hplay
    obtain ⟨_, hacked⟩ := ack_ok_durable truthful_served hrun.leads
    obtain ⟨frame, bytes, attempts, hattempted, hproven⟩ :=
      hacked a' outputs rfl 7 "r" (ByteArr.zero 8) (of_decide_eq_true hack)
    have hcount := of_decide_eq_true hlength
    rw [hattempted.calls, List.length_replicate] at hcount
    exact ⟨a', w, calls, frame, bytes, hcount ▸ hattempted, hproven⟩

end LoroGateway
