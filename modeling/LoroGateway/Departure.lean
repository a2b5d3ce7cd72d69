import LoroGateway.Blocked
import LoroGateway.UpdateOutcome

/-!
# A connection that has left

`PeerTurn` says what one command does with the peers of the room: who is a peer
after it, and that every update goes to a peer.  The store has no part in that, so
the results hold for any host.

A room that is corrupt or unavailable drops a leave.  The connection stays a peer,
and a later reconciliation brings the room back with it
(`leave_dropped_when_unavailable`).  When no leave is dropped, a connection that
has left is gone until it joins again (`leave_takes_effect`).
-/

namespace LoroGateway

open ByteCodec CrashLogic CrashLogic.Server

/-- The peer that an output goes to. -/
def Output.recipient : Output → Option PeerSender
  | .send peer _ => some peer
  | _ => none

/-- Do the outputs grant a join? -/
def joinGranted (outputs : List Output) : Bool :=
  outputs.any fun
    | .send _ (.joinResponseOk _ _ _ _) => true
    | _ => false

section Outputs

variable {peer : PeerSender} {roomId : String} {update : Bytes}

theorem recipient_sendUpdate {counter : UInt64} {output : Output}
    (hmem : output ∈ sendUpdate peer roomId update counter) : output.recipient = some peer := by
  unfold sendUpdate at hmem
  split_ifs at hmem
  · simp only [List.mem_singleton] at hmem
    rw [hmem]
    rfl
  · rcases List.mem_cons.mp hmem with rfl | hmem
    · rfl
    · obtain ⟨index, _, rfl⟩ := List.mem_mapIdx.mp hmem
      rfl

theorem recipient_sendUpdates {sends : List (PeerSender × Bytes)} {ids : Stream' UInt64}
    {output : Output}
    (hmem : output ∈ (sendUpdates roomId sends ids).1) :
    ∃ send ∈ sends, output.recipient = some send.1 := by
  induction sends generalizing ids with
  | nil => exact absurd hmem List.not_mem_nil
  | cons first rest ih =>
    rcases List.mem_append.mp hmem with hmem | hmem
    · exact ⟨first, List.mem_cons_self, recipient_sendUpdate hmem⟩
    · obtain ⟨send, hsend, heq⟩ := ih hmem
      exact ⟨send, List.mem_cons_of_mem _ hsend, heq⟩

end Outputs

section

variable [Hashing] {Doc : Type} [Loro Doc] {roomId : String} {config : ActorConfig}

namespace RoomActor

variable {a : RoomActor Doc}

/-- The peers after a command. -/
def peersAfter (a : RoomActor Doc) : Command → List Output → Peers
  | .join connectionId _ peer, outputs =>
    if joinGranted outputs then a.peers.insert connectionId peer else a.peers
  | .leave connectionId, _ => if a.Closed then a.peers else a.peers.remove connectionId
  | _, _ => a.peers

/-- What a command does with the peers. -/
structure PeerTurn (a : RoomActor Doc) (command : Command) (result : RoomActor Doc × List Output) :
    Prop where
  peers : result.1.peers = a.peersAfter command result.2
  updates : ∀ output ∈ result.2, output.bringsUpdate = true →
    ∃ entry ∈ result.1.peers, output.recipient = some entry.2
  refused : ∀ connectionId batchId updates peer, command = .update connectionId batchId updates peer →
    ¬ a.peers.containsKey connectionId → result.1 = a ∧
      ∃ status, status ≠ .ok ∧ result.2 = sendAck peer a.roomId batchId status

omit [Hashing] [Loro Doc] in
/-- A command that keeps the peers and sends no update. -/
theorem PeerTurn.silent {command : Command} {result : RoomActor Doc × List Output}
    (hpeers : result.1.peers = a.peersAfter command result.2)
    (hsilent : ∀ output ∈ result.2, output.bringsUpdate = false)
    (hupdate : ∀ connectionId batchId updates peer,
      command ≠ .update connectionId batchId updates peer) : a.PeerTurn command result where
  peers := hpeers
  updates output hmem hbrings := by
    rw [hsilent output hmem] at hbrings
    cases hbrings
  refused connectionId batchId updates peer heq := absurd heq (hupdate _ _ _ _)

omit [Hashing] in
theorem peerTurn_join (a : RoomActor Doc) (connectionId : UInt64) (version : Bytes)
    (peer : PeerSender) :
    a.PeerTurn (.join connectionId version peer) (a.join connectionId version peer) := by
  have hself : ∃ entry ∈ a.peers.insert connectionId peer, some peer = some entry.2 :=
    ⟨(connectionId, peer), by simp [Peers.insert], rfl⟩
  unfold join
  split_ifs
  · exact .silent rfl (by simp [Output.bringsUpdate]) (by simp)
  · split
    · exact .silent rfl (by simp [Output.bringsUpdate]) (by simp)
    · dsimp only
      split_ifs
      · exact .silent rfl (by simp [Output.bringsUpdate]) (by simp)
      · split
        · refine ⟨rfl, fun output hmem hbrings => ?_, by simp⟩
          rcases List.mem_cons.mp hmem with rfl | hmem
          · cases hbrings
          · rw [recipient_sendUpdate hmem]
            exact hself
        · exact .silent rfl (by simp [sendRoomError, Output.bringsUpdate]) (by simp)

theorem peerTurn_finishUpdate {connectionId : UInt64} {batchId : BatchId} {updates : List Bytes}
    {peer : PeerSender} {admission : Admission Doc}
    (h : a.Admitted connectionId batchId updates admission)
    (resolved : Except AppendFailure DurableAppend) :
    a.PeerTurn (.update connectionId batchId updates peer)
      (a.finishUpdate connectionId batchId updates peer admission resolved) := by
  have hjoined : ∀ connectionId' batchId' updates' peer', Command.update connectionId batchId updates
      peer = .update connectionId' batchId' updates' peer' → ¬ ¬ a.peers.containsKey connectionId' := by
    rintro _ _ _ _ ⟨⟩ hnot
    exact hnot h.joined
  match resolved with
  | .error (.definitelyRejected kind message) =>
    exact ⟨rfl, by simp [finishUpdate, sendAck, Output.bringsUpdate],
      fun _ _ _ _ heq hnot => absurd hnot (hjoined _ _ _ _ heq)⟩
  | .error (.outcomeUnknown error) =>
    exact ⟨rfl, by simp [finishUpdate, sendAck, sendRoomError, Output.bringsUpdate],
      fun _ _ _ _ heq hnot => absurd hnot (hjoined _ _ _ _ heq)⟩
  | .ok proof =>
    refine ⟨rfl, fun output hmem hbrings => ?_,
      fun _ _ _ _ heq hnot => absurd hnot (hjoined _ _ _ _ heq)⟩
    change output ∈ (sendUpdates a.roomId (a.fanOut connectionId updates) a.serverBatchIds).1 ++
      sendAck peer a.roomId batchId .ok at hmem
    rcases List.mem_append.mp hmem with hmem | hmem
    · obtain ⟨send, hsend, hrecipient⟩ := recipient_sendUpdates hmem
      obtain ⟨entry, hentry, hsend⟩ := List.mem_flatMap.mp hsend
      obtain ⟨update, _, rfl⟩ := List.mem_map.mp hsend
      exact ⟨entry, (List.mem_filter.mp hentry).1, hrecipient⟩
    · rw [List.mem_singleton.mp hmem] at hbrings
      cases hbrings

theorem peerTurn_update (a : RoomActor Doc) (connectionId : UInt64) (batchId : BatchId)
    (updates : List Bytes) (peer : PeerSender) :
    (a.update connectionId batchId updates peer).Always (fun _ => True)
      (a.PeerTurn (.update connectionId batchId updates peer)) := by
  unfold update
  cases hadmit : a.admitUpdate connectionId batchId updates with
  | error status =>
    refine ⟨rfl, by simp [sendAck, Output.bringsUpdate], ?_⟩
    rintro _ _ _ _ ⟨⟩ _
    exact ⟨rfl, status, (admitUpdate_error_ne hadmit).1, rfl⟩
  | ok admission =>
    apply Prog.Always.bind (Prog.always_true _)
    exact fun resolved _ => peerTurn_finishUpdate (admitUpdate_eq_ok hadmit) resolved

theorem always_retryPending_peers (a : RoomActor Doc) :
    a.retryPending.Always (fun _ => True) fun r => r.1.peers = a.peers := by
  unfold retryPending
  split
  · rfl
  · rename_i pending _
    apply Prog.Always.bind (Prog.always_true _)
    intro r _
    match r with
    | .error (.definitelyRejected kind message) => rfl
    | .error (.outcomeUnknown error) => rfl
    | .ok proof =>
      apply Prog.Always.bind (always_loadFromStore.mono (fun _ _ => trivial) fun _ h => h)
      rintro ⟨_, loaded⟩ ⟨⟨endOffset, rfl⟩, _⟩
      cases loaded with
      | error failure => rfl
      | ok loaded =>
        show (finishReload pending _ (.ok loaded)).1.peers = a.peers
        rw [finishReload]
        split <;> rfl

theorem always_rotateGeneration_peers (a : RoomActor Doc) :
    a.rotateGeneration.Always (fun _ => True) fun r => r.1.peers = a.peers := by
  unfold rotateGeneration
  split_ifs
  · rfl
  · apply Prog.Always.bind (Prog.always_true _)
    intro r _
    cases r <;> rfl

/-- A started actor has no peers. -/
theorem always_activate_peers (boot : Boot) :
    (activate roomId config boot : StoreM (RoomActor Doc)).Always (fun _ => True)
      fun a => a.peers = [] := by
  unfold activate
  have hinitialize : (new roomId boot config : RoomActor Doc).initializeActor.Always
      (fun _ => True) fun r => r.1.peers = [] := by
    unfold initializeActor
    apply Prog.Always.bind (Prog.always_true _)
    intro x _
    match x with
    | .error error => rfl
    | .ok (some recovered) => rfl
    | .ok none =>
      apply Prog.Always.bind (Prog.always_true _)
      intro x _
      match x with
      | .error error => rfl
      | .ok () =>
        apply Prog.Always.bind (always_loadFromStore.mono (fun _ _ => trivial) fun _ h => h)
        rintro ⟨_, loaded⟩ ⟨⟨endOffset, rfl⟩, _⟩
        cases loaded <;> rfl
  apply Prog.Always.bind hinitialize
  rintro ⟨b, r⟩ hpeers
  cases r <;> exact hpeers

/-- Every command does with the peers what it should, whatever the store answers. -/
theorem peerTurn_handle (a : RoomActor Doc) (command : Command) :
    (a.handle command).Always (fun _ => True) (a.PeerTurn command) := by
  cases command with
  | waitForActivation => exact .silent rfl (by simp [Output.bringsUpdate]) (by simp)
  | retryAmbiguous =>
    apply Prog.Always.bind (always_retryPending_peers a)
    exact fun r hpeers => .silent hpeers (by simp [Output.bringsUpdate]) (by simp)
  | rotate =>
    apply Prog.Always.bind (always_rotateGeneration_peers a)
    exact fun r hpeers => .silent hpeers (by simp [Output.bringsUpdate]) (by simp)
  | join connectionId version peer =>
    unfold handle
    split_ifs
    · exact .silent rfl (by simp [rejectUnavailable, Output.bringsUpdate]) (by simp)
    · exact peerTurn_join a connectionId version peer
  | update connectionId batchId updates peer =>
    unfold handle
    split_ifs
    · refine ⟨rfl, by simp [rejectUnavailable, sendAck, Output.bringsUpdate], ?_⟩
      rintro _ _ _ _ ⟨⟩ _
      exact ⟨rfl, .unknown, by decide, rfl⟩
    · exact peerTurn_update a connectionId batchId updates peer
  | leave connectionId =>
    unfold handle
    split_ifs with hclosed
    · exact .silent (by simp [peersAfter, hclosed]) (by simp [rejectUnavailable]) (by simp)
    · exact .silent (by simp [peersAfter, hclosed]) (by simp) (by simp)

end RoomActor

/-! ## Runs -/

section Runs

variable {σ : Type}

/-- Has the connection left, and not joined again? -/
def departed (connectionId : UInt64) : List (Event (gateway Doc roomId config) σ) → Bool
  | [] => false
  | .handled (.leave id) _ _ _ _ _ :: events =>
    decide (id = connectionId) || departed connectionId events
  | .handled (.join id _ _) _ _ outputs _ _ :: events =>
    !(decide (id = connectionId) && joinGranted outputs) && departed connectionId events
  | _ :: events => departed connectionId events

/-- The event is no leave of the connection that the room drops: the room was open, or
the connection was no peer. -/
def heeds (connectionId : UInt64) : Event (gateway Doc roomId config) σ → Bool
  | .handled (.leave id) _ (a : RoomActor Doc) _ _ _ =>
    decide (id = connectionId → ¬ a.Closed ∨ ¬ a.peers.containsKey connectionId)
  | _ => true

/-- The event is a join of the connection with the peer. -/
def JoinedAs (entry : UInt64 × PeerSender) : Event (gateway Doc roomId config) σ → Prop
  | .handled (.join id _ peer) _ _ _ _ _ => (id, peer) = entry
  | _ => False

/-- No other connection has joined with the sender of this one. -/
def SenderOf (connectionId : UInt64) (peer : PeerSender)
    (events : List (Event (gateway Doc roomId config) σ)) : Prop :=
  ∀ event ∈ events, ∀ id, JoinedAs (id, peer) event → id = connectionId

/-- What is known of the peers of an idle room. -/
structure PeersKnown (connectionId : UInt64) (a : RoomActor Doc)
    (events : List (Event (gateway Doc roomId config) σ)) : Prop where
  joined : ∀ entry ∈ a.peers, ∃ event ∈ events, JoinedAs entry event
  gone : (∀ event ∈ events, heeds connectionId event = true) → departed connectionId events = true →
    ¬ a.peers.containsKey connectionId

variable {connectionId : UInt64} {events : List (Event (gateway Doc roomId config) σ)}
  {a : RoomActor Doc}

omit [Hashing] in
theorem not_containsKey_remove (peers : Peers) (connectionId : UInt64) :
    ¬ (peers.remove connectionId).containsKey connectionId := by
  rintro ⟨entry, hmem, heq⟩
  simp only [Peers.remove, List.mem_filter, decide_eq_true_eq] at hmem
  exact hmem.2 heq

omit [Hashing] [Loro Doc] in
/-- A peer was one before the command, or has just joined. -/
theorem RoomActor.mem_peersAfter {command : Command} {outputs : List Output}
    {entry : UInt64 × PeerSender} (hmem : entry ∈ a.peersAfter command outputs) :
    entry ∈ a.peers ∨ ∃ version, command = .join entry.1 version entry.2 ∧
      joinGranted outputs = true := by
  unfold peersAfter at hmem
  split at hmem
  · split_ifs at hmem with hgranted
    · rcases List.mem_append.mp hmem with hmem | hmem
      · exact .inl (List.mem_filter.mp hmem).1
      · rw [List.mem_singleton.mp hmem]
        exact .inr ⟨_, rfl, hgranted⟩
    · exact .inl hmem
  · split_ifs at hmem
    · exact .inl hmem
    · exact .inl (List.mem_filter.mp hmem).1
  · exact .inl hmem

/-- One command keeps what is known of the peers. -/
theorem PeersKnown.turn (h : PeersKnown connectionId a events) {command : Command}
    {result : RoomActor Doc × List Output} (hturn : a.PeerTurn command result) (before after : σ) :
    PeersKnown connectionId result.1
      (.handled command before a result.2 after result.1 :: events) where
  joined entry hmem := by
    rw [hturn.peers] at hmem
    rcases RoomActor.mem_peersAfter hmem with hmem | ⟨version, rfl, _⟩
    · obtain ⟨event, hevent, hjoined⟩ := h.joined entry hmem
      exact ⟨event, List.mem_cons_of_mem _ hevent, hjoined⟩
    · exact ⟨_, List.mem_cons_self, rfl⟩
  gone hheeded hdeparted := by
    obtain ⟨hlast, hheeded⟩ := List.forall_mem_cons.mp hheeded
    have hgone := h.gone hheeded
    rw [hturn.peers]
    rintro ⟨entry, hmem, rfl⟩
    rcases RoomActor.mem_peersAfter hmem with hbefore | ⟨version, rfl, hgranted⟩
    · have hpeer : a.peers.containsKey entry.1 := ⟨entry, hbefore, rfl⟩
      have hstays : departed entry.1 events = false := by
        cases hknown : departed entry.1 events with
        | false => rfl
        | true => exact absurd hpeer (hgone hknown)
      cases command with
      | leave id =>
        have hid : id = entry.1 := by
          simpa [departed, hstays] using hdeparted
        have hopen : ¬ a.Closed := (of_decide_eq_true hlast hid).resolve_right (not_not_intro hpeer)
        rw [RoomActor.peersAfter, if_neg hopen, hid] at hmem
        exact not_containsKey_remove a.peers entry.1 ⟨entry, hmem, rfl⟩
      | join id version peer => simp [departed, hstays] at hdeparted
      | _ => exact Bool.noConfusion (hstays.symm.trans hdeparted)
    · simp [departed, hgranted] at hdeparted

variable {env : Environment (gateway Doc roomId config) σ} {init : σ → Prop} {w : σ}

/-- What is known of the peers holds whenever the room is idle, over any host. -/
theorem peersKnown_of_reachable (hreach : Reachable env init ⟨w, .idle a, events⟩) :
    PeersKnown connectionId a events := by
  have hpreserved : (Invariant.mk (fun _ => PeersKnown connectionId) fun _ _ => True).Preserved env := by
    apply Invariant.Preserved.of_always
    · exact fun _ => trivial
    · intro events boot _
      apply (RoomActor.always_activate_peers boot).mono (fun _ h => h)
      intro a hpeers w
      refine ⟨fun entry hmem => ?_, fun _ _ => ?_⟩
      · simp [hpeers] at hmem
      · rintro ⟨entry, hmem, _⟩
        simp [hpeers] at hmem
    · intro a events command h
      exact (RoomActor.peerTurn_handle a command).mono (fun _ h => h)
        fun result hturn before after => h.turn hturn before after
    · exact fun _ => trivial
  exact hreach.idle_invariant hpreserved fun _ _ => trivial

/-- Over any host, and for every run in which no leave of a connection was dropped: a
connection that has left and not joined again is no peer, its updates are refused and
change nothing, and no update goes to its sender. -/
theorem leave_takes_effect (hreach : Reachable env init ⟨w, .idle a, events⟩)
    (hheeded : ∀ event ∈ events, heeds connectionId event = true)
    (hdeparted : departed connectionId events = true) :
    ¬ a.peers.containsKey connectionId ∧
    ∀ (command : Command) (before after : σ) (a₀ : RoomActor Doc) (outputs : List Output)
      (earlier : List (Event (gateway Doc roomId config) σ)),
      events = .handled command before a₀ outputs after a :: earlier →
      (∀ batchId updates peer, command = .update connectionId batchId updates peer →
        a = a₀ ∧ ∃ status, status ≠ .ok ∧ outputs = sendAck peer a₀.roomId batchId status) ∧
      ∀ peer, SenderOf connectionId peer events → ∀ output ∈ outputs,
        output.bringsUpdate = true → output.recipient ≠ some peer := by
  have hknown : PeersKnown connectionId a events := peersKnown_of_reachable hreach
  have hgone := hknown.gone hheeded hdeparted
  refine ⟨hgone, ?_⟩
  rintro command before after a₀ outputs earlier rfl
  obtain ⟨_, t, hrun, _⟩ := hreach.traced.handled List.mem_cons_self
  have hturn := hrun.always (RoomActor.peerTurn_handle a₀ command)
  constructor
  · rintro batchId updates peer rfl
    have hpeers : a.peers = a₀.peers := hturn.peers
    exact hturn.refused _ _ _ _ rfl (hpeers ▸ hgone)
  · intro peer hsender output hmem hbrings hrecipient
    obtain ⟨entry, hentry, heq⟩ := hturn.updates output hmem hbrings
    obtain ⟨event, hevent, hjoined⟩ := hknown.joined entry hentry
    have hpeer : entry.2 = peer := Option.some.inj (heq.symm.trans hrecipient)
    have hid := hsender event hevent entry.1 (hpeer ▸ hjoined)
    exact hgone ⟨entry, hentry, hid⟩

end Runs

end

open Sample

/-- The ids and the senders that have joined. -/
def joins (events : List (Event (sampleGateway .default) World)) : List (UInt64 × PeerSender) :=
  events.filterMap fun
    | .handled (.join id _ peer) _ _ _ _ _ => some (id, peer)
    | _ => none

/-- The sender of a fanned out update, if the last event is one. -/
def lastRecipients : List (Event (sampleGateway .default) World) → List PeerSender
  | .handled _ _ _ outputs _ _ :: _ => (outputs.filter Output.bringsUpdate).filterMap Output.recipient
  | _ => []

/-- Two connections join, the second one leaves, and the first one sends an update. -/
theorem leave_takes_effect_sample :
    ∃ (w : World) (a : RoomActor OpDoc) (events : List (Event (gateway OpDoc "r" .default) World)),
      RoomReachable (Policy.lossy : Policy OpDoc "r" .default) ⟨w, .idle a, events⟩ ∧
      joins events = [(2, 8), (1, 7)] ∧ a.peers.containsKey 1 ∧ ¬ a.peers.containsKey 2 := by
  have hrun : ((lossyDirection .default).director.run
      [.boot (sampleBoot 1) (answeredAll 4), .command (.join 1 [] 7) [], .command (.join 2 [] 8) [],
        .command (.leave 2) [], .command (.update 1 (sampleBatch 1) [[1, 0]] 7) (answeredAll 1)]
      ⟨World.empty, .down, []⟩).any (whenIdle fun _ a events =>
        events.all (heeds 2) && departed 2 events && decide (joins events = [(2, 8), (1, 7)]) &&
          decide (a.peers.containsKey 1)) = true := by
    decide +kernel
  obtain ⟨w, a, events, hreach, hend⟩ := Direction.exists_idle_of_run hrun
  simp only [Bool.and_eq_true, decide_eq_true_eq, List.all_eq_true] at hend
  obtain ⟨⟨⟨hheeds, hdeparted⟩, hjoins⟩, hpeer⟩ := hend
  exact ⟨w, a, events, hreach, hjoins, hpeer, (leave_takes_effect hreach hheeds hdeparted).1⟩

/-- A room that is unavailable drops the leave of the second connection.  Once the room is
reconciled, an update of the first connection goes to the second one. -/
theorem leave_dropped_when_unavailable :
    ∃ (w : World) (a : RoomActor OpDoc) (events : List (Event (gateway OpDoc "r" .default) World)),
      RoomReachable (Policy.lossy : Policy OpDoc "r" .default) ⟨w, .idle a, events⟩ ∧
      departed 2 events = true ∧ joins events = [(2, 8), (1, 7)] ∧
      a.peers.containsKey 2 ∧ lastRecipients events = [8] := by
  have hrun : ((lossyDirection .default).director.run
      [.boot (sampleBoot 1) (answeredAll 4), .command (.join 1 [] 7) [], .command (.join 2 [] 8) [],
        .command (.update 1 (sampleBatch 1) [[1, 0]] 7) (List.replicate 6 (.lost "timeout")),
        .command .retryAmbiguous [.failed (.rejected .rateLimited "busy")],
        .command (.leave 2) [], .command .retryAmbiguous (answeredAll 3),
        .command (.update 1 (sampleBatch 2) [[1, 2]] 7) (answeredAll 1)]
      ⟨World.empty, .down, []⟩).any (whenIdle fun _ a events =>
        departed 2 events && decide (joins events = [(2, 8), (1, 7)]) &&
          decide (a.peers.containsKey 2) && decide (lastRecipients events = [8])) = true := by
    decide +kernel
  obtain ⟨w, a, events, hreach, hend⟩ := Direction.exists_idle_of_run hrun
  simp only [Bool.and_eq_true, decide_eq_true_eq] at hend
  obtain ⟨⟨⟨hdeparted, hjoins⟩, hpeer⟩, hlast⟩ := hend
  exact ⟨w, a, events, hreach, hdeparted, hjoins, hpeer, hlast⟩

end LoroGateway
