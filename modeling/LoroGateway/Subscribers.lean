import LoroGateway.Departure
import LoroGateway.Reassembly
import LoroGateway.Reconcile

/-!
# What a subscriber has received

A connection that has joined has the operations of the version that it joined
with, those of its own updates, and those of the updates that were sent to it
since: the backfill of the join and the fan-out of later updates.

* `payloads` are the updates that some outputs bring to a peer, put together from
  their fragments.
* `subscriberOf` keeps the account of one connection over a run.
* `Attends` is the condition under which a turn leaves no subscriber behind, and
  `subscribers_miss_nothing` the result about runs.

Two turns leave one behind.  A join exports what the document has applied; what
waits in it is not sent, and is applied later without being sent.  A retry that
reconciles the room brings the blocked update into the document and sends it to
nobody.
-/

namespace LoroGateway

open ByteCodec CrashLogic CrashLogic.Server

/-! ## What is sent to a peer -/

/-- The fragments of a batch that come first among the outputs. -/
def leadingFragments (peer : PeerSender) (batchId : BatchId) : List Output → List Bytes
  | .send receiver (.docUpdateFragment _ id _ fragment) :: rest =>
    if receiver = peer ∧ id = batchId then fragment :: leadingFragments peer batchId rest else []
  | _ => []

/-- The updates that the outputs bring to a peer.  The fragments of an update follow its
header. -/
def payloads (peer : PeerSender) : List Output → List Bytes
  | [] => []
  | .send receiver (.docUpdate _ updates _) :: rest =>
    if receiver = peer then updates ++ payloads peer rest else payloads peer rest
  | .send receiver (.docUpdateFragmentHeader _ batchId _ _) :: rest =>
    if receiver = peer then (leadingFragments peer batchId rest).flatten :: payloads peer rest
    else payloads peer rest
  | _ :: rest => payloads peer rest

section Payloads

variable {peer : PeerSender} {roomId : String} {update : Bytes} {rest : List Output}

theorem payloads_subset_cons (output : Output) :
    payloads peer rest ⊆ payloads peer (output :: rest) := by
  cases output with
  | send receiver message =>
    cases message with
    | docUpdate roomId updates batchId =>
      simp only [payloads]
      split_ifs
      · exact List.subset_append_right _ _
      · exact List.Subset.refl _
    | docUpdateFragmentHeader roomId batchId fragmentCount totalSizeBytes =>
      simp only [payloads]
      split_ifs
      · exact List.subset_cons_self _ _
      · exact List.Subset.refl _
    | _ => exact List.Subset.refl _
  | _ => exact List.Subset.refl _

/-- What comes later is not lost. -/
theorem payloads_subset_append (front : List Output) :
    payloads peer rest ⊆ payloads peer (front ++ rest) := by
  induction front with
  | nil => exact List.Subset.refl _
  | cons output front ih => exact List.Subset.trans ih (payloads_subset_cons output)

/-- Chunks that are sent one after the other come first, before what comes first in the
rest. -/
theorem leadingFragments_append (batchId : BatchId) (chunks : List Bytes) (word : Nat → UInt64) :
    leadingFragments peer batchId ((chunks.mapIdx fun index fragment =>
        Output.send peer (.docUpdateFragment roomId batchId (word index) fragment)) ++ rest) =
      chunks ++ leadingFragments peer batchId rest := by
  induction chunks generalizing word with
  | nil => rfl
  | cons chunk chunks ih =>
    rw [List.mapIdx_cons, List.cons_append, leadingFragments, if_pos ⟨rfl, rfl⟩, List.cons_append]
    rw [ih fun index => word (index + 1)]

/-- The outputs start with no fragment. -/
def StartsWhole (outputs : List Output) : Prop :=
  ∀ peer batchId, leadingFragments peer batchId outputs = []

theorem startsWhole_sendUpdate (counter : UInt64) :
    StartsWhole (sendUpdate peer roomId update counter ++ rest) := by
  intro other batchId
  unfold sendUpdate
  dsimp only
  split_ifs <;> rfl

/-- An update that is sent is received. -/
theorem mem_payloads_sendUpdate (counter : UInt64) (hrest : StartsWhole rest) :
    update ∈ payloads peer (sendUpdate peer roomId update counter ++ rest) := by
  unfold sendUpdate
  dsimp only
  split_ifs with hshort
  · simp [payloads]
  · have hsize : update.length ≤
        (update.length + fragmentSize - 1) / fragmentSize * fragmentSize := by
      unfold fragmentSize at hshort ⊢
      omega
    rw [List.cons_append, payloads, if_pos rfl, leadingFragments_append _ _ lengthWord,
      hrest peer, List.append_nil, flatten_fragments hsize]
    exact List.mem_cons_self

theorem startsWhole_sendUpdates (hrest : StartsWhole rest) (sends : List (PeerSender × Bytes))
    (ids : Stream' UInt64) : StartsWhole ((sendUpdates roomId sends ids).1 ++ rest) := by
  cases sends with
  | nil => exact hrest
  | cons first sends =>
    show StartsWhole ((sendUpdate first.1 roomId first.2 ids.head ++
      (sendUpdates roomId sends ids.tail).1) ++ rest)
    rw [List.append_assoc]
    exact startsWhole_sendUpdate ids.head

/-- So are several updates, each by its peer. -/
theorem mem_payloads_sendUpdates (hrest : StartsWhole rest) {sends : List (PeerSender × Bytes)}
    (ids : Stream' UInt64) (hmem : (peer, update) ∈ sends) :
    update ∈ payloads peer ((sendUpdates roomId sends ids).1 ++ rest) := by
  induction sends generalizing ids with
  | nil => simp at hmem
  | cons first sends ih =>
    show update ∈ payloads peer ((sendUpdate first.1 roomId first.2 ids.head ++
      (sendUpdates roomId sends ids.tail).1) ++ rest)
    rw [List.append_assoc]
    rcases List.mem_cons.1 hmem with hfirst | hmem
    · subst hfirst
      exact mem_payloads_sendUpdate ids.head (startsWhole_sendUpdates hrest sends ids.tail)
    · exact payloads_subset_append _ (ih ids.tail hmem)

end Payloads

/-! ## The account of a subscriber -/

/-- A connection that has joined: where its messages go, the version that it joined with,
the updates that it has sent since, and those that it has received. -/
structure Subscriber where
  sender : PeerSender
  version : Bytes
  sent : List Bytes
  received : List Bytes
  deriving DecidableEq

namespace Subscriber

def hear (s : Subscriber) (outputs : List Output) : Subscriber :=
  { s with received := s.received ++ payloads s.sender outputs }

/-- The account of a connection after a command. -/
def after (connectionId : UInt64) (outputs : List Output) (before : Option Subscriber) :
    Command → Option Subscriber
  | .join id version peer =>
    if id = connectionId ∧ joinGranted outputs = true then
      some ⟨peer, version, [], payloads peer outputs⟩
    else before.map fun s => s.hear outputs
  | .leave id => if id = connectionId then none else before.map fun s => s.hear outputs
  | .update id _ updates _ =>
    before.map fun s =>
      if id = connectionId then { s.hear outputs with sent := s.sent ++ updates }
      else s.hear outputs
  | _ => before.map fun s => s.hear outputs

/-- A command in whose course the connection stays joined. -/
structure Stays (connectionId : UInt64) (command : Command) (outputs : List Output)
    (s s' : Subscriber) : Prop where
  leaves : command ≠ .leave connectionId
  joins : ∀ version peer, command = .join connectionId version peer → joinGranted outputs = false
  sender : s'.sender = s.sender
  version : s'.version = s.version
  sent : s.sent ⊆ s'.sent
  received : s.received ⊆ s'.received
  heard : payloads s.sender outputs ⊆ s'.received
  own : ∀ batchId updates peer, command = .update connectionId batchId updates peer →
    updates ⊆ s'.sent

variable {connectionId : UInt64} {command : Command} {outputs : List Output} {s s' : Subscriber}

theorem Stays.hear (hleaves : command ≠ .leave connectionId)
    (hjoins : ∀ version peer, command = .join connectionId version peer →
      joinGranted outputs = false)
    (hother : ∀ batchId updates peer, command ≠ .update connectionId batchId updates peer) :
    Stays connectionId command outputs s (s.hear outputs) where
  leaves := hleaves
  joins := hjoins
  sender := rfl
  version := rfl
  sent := List.Subset.refl _
  received := List.subset_append_left _ _
  heard := List.subset_append_right _ _
  own batchId updates peer heq := absurd heq (hother batchId updates peer)

/-- A connection is joined after a command when it has just joined, or stays joined. -/
theorem after_eq_some {before : Option Subscriber}
    (h : after connectionId outputs before command = some s') :
    (∃ version peer, command = .join connectionId version peer ∧ joinGranted outputs = true ∧
      s' = ⟨peer, version, [], payloads peer outputs⟩) ∨
    ∃ s, before = some s ∧ Stays connectionId command outputs s s' := by
  cases command with
  | join id version peer =>
    simp only [after] at h
    split_ifs at h with hjoins
    · have ⟨hid, hgranted⟩ := hjoins
      subst hid
      exact .inl ⟨version, peer, rfl, hgranted, (Option.some.inj h).symm⟩
    · have ⟨s, hbefore, hs⟩ := Option.map_eq_some_iff.1 h
      subst hs
      refine .inr ⟨s, hbefore, .hear (by simp) ?_ (by simp)⟩
      intro _ _ heq
      cases heq
      simpa using hjoins
  | leave id =>
    simp only [after] at h
    split_ifs at h with hid
    have ⟨s, hbefore, hs⟩ := Option.map_eq_some_iff.1 h
    subst hs
    exact .inr ⟨s, hbefore, .hear (by simpa using hid) (by simp) (by simp)⟩
  | update id batchId updates peer =>
    have ⟨s, hbefore, hs⟩ := Option.map_eq_some_iff.1 h
    refine .inr ⟨s, hbefore, ?_⟩
    split_ifs at hs with hid
    · subst hs
      constructor
      · simp
      · simp
      · rfl
      · rfl
      · exact List.subset_append_left _ _
      · exact List.subset_append_left _ _
      · exact List.subset_append_right _ _
      · intro _ _ _ heq
        cases heq
        exact List.subset_append_right _ _
    · subst hs
      exact .hear (by simp) (by simp) (by simp [hid])
  | _ =>
    have ⟨s, hbefore, hs⟩ := Option.map_eq_some_iff.1 h
    subst hs
    exact .inr ⟨s, hbefore, .hear (by simp) (by simp) (by simp)⟩

end Subscriber

section

variable [Hashing] {Doc : Type} [Loro Doc] {roomId : String} {config : ActorConfig} {Op : Type}

/-- The operations that the version of a join request names. -/
def namedOps (S : Loro.Observers Doc Op) (version : Bytes) : Set Op :=
  {o | ∃ named, RoomActor.clientVersion Doc version = .ok (some named) ∧ o ∈ S.versionOps named}

namespace Subscriber

/-- The operations that a subscriber has. -/
def ops (S : Loro.Observers Doc Op) (s : Subscriber) : Set Op :=
  namedOps S s.version ∪ S.ops (s.sent ++ s.received)

variable {S : Loro.Observers Doc Op} {s s' : Subscriber} {blobs : List Bytes}

omit [Hashing] in
theorem ops_sent (h : blobs ⊆ s.sent) : S.ops blobs ⊆ s.ops S := by
  have hsub : S.ops blobs ⊆ S.ops (s.sent ++ s.received) :=
    S.ops_mono fun blob hmem => List.mem_append_left _ (h hmem)
  exact hsub.trans Set.subset_union_right

omit [Hashing] in
theorem ops_received (h : blobs ⊆ s.received) : S.ops blobs ⊆ s.ops S := by
  have hsub : S.ops blobs ⊆ S.ops (s.sent ++ s.received) :=
    S.ops_mono fun blob hmem => List.mem_append_right _ (h hmem)
  exact hsub.trans Set.subset_union_right

omit [Hashing] in
/-- A subscriber forgets nothing. -/
theorem Stays.ops_subset {connectionId : UInt64} {command : Command} {outputs : List Output}
    (h : Stays connectionId command outputs s s') : s.ops S ⊆ s'.ops S := by
  have hblobs : s.sent ++ s.received ⊆ s'.sent ++ s'.received := by
    intro blob hmem
    rcases List.mem_append.1 hmem with hsent | hreceived
    · exact List.mem_append_left _ (h.sent hsent)
    · exact List.mem_append_right _ (h.received hreceived)
  unfold ops
  rw [h.version]
  exact Set.union_subset_union_right _ (S.ops_mono hblobs)

end Subscriber

/-! ## Runs -/

/-- The account of a connection since its last join, if it has not left. -/
def subscriberOf (connectionId : UInt64) :
    List (Event (gateway Doc roomId config) World) → Option Subscriber
  | .handled command _ _ outputs _ _ :: earlier =>
    Subscriber.after connectionId outputs (subscriberOf connectionId earlier) command
  | _ => none

/-- The turn leaves no subscriber behind: a join to a ready room names what waits in the
document, and when a retry reconciles the room, each subscriber has the blocked update. -/
def Attends (S : Loro.Observers Doc Op)
    (earlier : List (Event (gateway Doc roomId config) World)) :
    Event (gateway Doc roomId config) World → Prop
  | .handled (.join _ version _) _ (a : RoomActor Doc) _ _ _ =>
    a.lifecycle = .ready → (∃ named, RoomActor.clientVersion Doc version = .ok named) →
      S.pending a.doc ⊆ namedOps S version
  | .handled .retryAmbiguous _ (a : RoomActor Doc) [.respond true] _ _ =>
    ∀ pending, a.blocked = some pending → ∀ entry ∈ a.peers, ∀ s,
      subscriberOf entry.1 earlier = some s → S.ops pending.frame.updates ⊆ s.ops S
  | _ => True

/-- No turn has left a subscriber behind. -/
def Attended (S : Loro.Observers Doc Op) :
    List (Event (gateway Doc roomId config) World) → Prop
  | [] => True
  | event :: earlier => Attends S earlier event ∧ Attended S earlier

/-- Every subscriber is a peer, and when none has been left behind each has all that the
document knows. -/
structure Informed (S : Loro.Observers Doc Op) (a : RoomActor Doc)
    (events : List (Event (gateway Doc roomId config) World)) : Prop where
  joined : ∀ connectionId s, subscriberOf connectionId events = some s →
    (connectionId, s.sender) ∈ a.peers
  known : Attended S events → ∀ connectionId s, subscriberOf connectionId events = some s →
    S.known a.doc ⊆ s.ops S

variable {S : Loro.Observers Doc Op} {a a' : RoomActor Doc} {command : Command}
  {outputs : List Output} {w before after : World}
  {events : List (Event (gateway Doc roomId config) World)}

omit [Hashing] [Loro Doc] in
/-- A peer that neither leaves nor joins again keeps its place. -/
theorem RoomActor.mem_peersAfter_of_stays {entry : UInt64 × PeerSender} (h : entry ∈ a.peers)
    (hleaves : command ≠ .leave entry.1)
    (hjoins : ∀ version peer, command = .join entry.1 version peer →
      joinGranted outputs = false) : entry ∈ a.peersAfter command outputs := by
  cases command with
  | join id version peer =>
    simp only [peersAfter]
    split_ifs with hgranted
    · have hne : entry.1 ≠ id := by
        intro heq
        subst heq
        have hdenied := hjoins version peer rfl
        rw [hgranted] at hdenied
        cases hdenied
      exact List.mem_append_left _ (by simp [Peers.remove, h, hne])
    · exact h
  | leave id =>
    simp only [peersAfter]
    split_ifs
    · exact h
    · have hne : entry.1 ≠ id := fun heq => hleaves (heq ▸ rfl)
      simp [Peers.remove, h, hne]
  | _ => exact h

/-- A room that has just been started has no subscribers. -/
theorem Informed.booted (boot : Boot) (after : World) (a : RoomActor Doc)
    (events : List (Event (gateway Doc roomId config) World)) :
    Informed S a (.booted boot after a :: events) where
  joined _ _ h := by cases h
  known _ _ _ h := by cases h

/-- One turn.  A connection that has just joined needs its backfill, and one that stays
needs what the turn brings into the document. -/
theorem Informed.turn (h : Informed S a events)
    (hpeers : a'.peers = a.peersAfter command outputs)
    (hjoins : Attends S events (.handled command before a outputs after a') →
      ∀ connectionId version peer, command = .join connectionId version peer →
        joinGranted outputs = true →
        S.known a'.doc ⊆ namedOps S version ∪ S.ops (payloads peer outputs))
    (hstays : Attends S events (.handled command before a outputs after a') →
      ∀ connectionId s s', subscriberOf connectionId events = some s →
        Subscriber.Stays connectionId command outputs s s' → S.known a.doc ⊆ s'.ops S →
        S.known a'.doc ⊆ s'.ops S) :
    Informed S a' (.handled command before a outputs after a' :: events) where
  joined connectionId s' hs' := by
    rw [hpeers]
    rcases Subscriber.after_eq_some hs' with ⟨version, peer, hcommand, hgranted, heq⟩ | hstay
    · subst hcommand
      subst heq
      simp [RoomActor.peersAfter, hgranted, Peers.insert]
    · obtain ⟨s, hs, hstays⟩ := hstay
      rw [hstays.sender]
      exact RoomActor.mem_peersAfter_of_stays (h.joined connectionId s hs) hstays.leaves
        hstays.joins
  known hattended connectionId s' hs' := by
    obtain ⟨hattends, hattended⟩ := hattended
    rcases Subscriber.after_eq_some hs' with ⟨version, peer, hcommand, hgranted, heq⟩ | hstay
    · subst heq
      exact hjoins hattends connectionId version peer hcommand hgranted
    · obtain ⟨s, hs, hstay⟩ := hstay
      have hknown := h.known hattended connectionId s hs
      exact hstays hattends connectionId s s' hs hstay (hknown.trans hstay.ops_subset)

/-- A turn that leaves the document as it is. -/
theorem Informed.same (h : Informed S a events)
    (hpeers : a'.peers = a.peersAfter command outputs) (hdoc : a'.doc = a.doc)
    (hjoins : ∀ connectionId version peer, command ≠ .join connectionId version peer) :
    Informed S a' (.handled command before a outputs after a' :: events) := by
  apply h.turn hpeers
  · intro _ connectionId version peer heq
    exact absurd heq (hjoins connectionId version peer)
  · intro _ _ _ _ _ _ hknown
    rw [hdoc]
    exact hknown

section Turns

variable (sem : Loro.Semantics S)

include sem

omit [Hashing] in
/-- A backfill has what is applied, but for what the version names. -/
theorem exportFor_covers {doc : Doc} {version update : Bytes}
    {client : Option (Loro.Version Doc)}
    (hclient : RoomActor.clientVersion Doc version = .ok client)
    (h : RoomActor.exportFor doc client = .ok update) :
    S.applied doc ⊆ namedOps S version ∪ S.blobOps update := by
  cases client with
  | none => exact (sem.snapshot_ops h).superset.trans Set.subset_union_right
  | some named =>
    intro o ho
    rcases (sem.updates_ops h).2 ho with hsent | hnamed
    · exact .inr hsent
    · exact .inl ⟨named, hclient, hnamed⟩

omit [Hashing] in
/-- What a granted join leaves to be said is what waits. -/
theorem join_informs (exports : Loro.Exports S) {connectionId : UInt64} {version : Bytes}
    {peer : PeerSender} (hgranted : joinGranted (a.join connectionId version peer).2 = true) :
    a.lifecycle = .ready ∧ (∃ named, RoomActor.clientVersion Doc version = .ok named) ∧
      S.applied a.doc ⊆
        namedOps S version ∪ S.ops (payloads peer (a.join connectionId version peer).2) := by
  unfold RoomActor.join at hgranted ⊢
  split_ifs at hgranted ⊢ with hready
  · simp [joinGranted] at hgranted
  · have hready : a.lifecycle = .ready := not_not.1 hready
    cases hclient : RoomActor.clientVersion Doc version with
    | error message => simp [hclient, joinGranted] at hgranted
    | ok client =>
      refine ⟨hready, ⟨client, rfl⟩, ?_⟩
      dsimp only
      split_ifs with hempty
      · rw [exports.applied_of_lenOps a.doc hempty]
        exact Set.empty_subset _
      · have hexport : ∃ update, RoomActor.exportFor a.doc client = .ok update := by
          cases client with
          | none => exact exports.snapshot_total a.doc
          | some named => exact exports.updates_total a.doc named
        have ⟨update, hupdate⟩ := hexport
        rw [hupdate]
        refine (exportFor_covers sem hclient hupdate).trans (Set.union_subset_union_right _ ?_)
        apply S.blobOps_subset_ops
        apply payloads_subset_cons
        rw [← List.append_nil (sendUpdate _ _ _ _)]
        exact mem_payloads_sendUpdate _ fun _ _ => rfl

theorem informed_join (exports : Loro.Exports S) (h : Informed S a events) (connectionId : UInt64)
    (version : Bytes) (peer : PeerSender) :
    Informed S (a.join connectionId version peer).1 (.handled (.join connectionId version peer)
      before a (a.join connectionId version peer).2 after (a.join connectionId version peer).1 ::
        events) := by
  have ⟨peers, ids, hjoin⟩ := a.join_fst connectionId version peer
  have hdoc : (a.join connectionId version peer).1.doc = a.doc := by rw [hjoin]
  apply h.turn (RoomActor.peerTurn_join a connectionId version peer).peers
  · intro hattends _ _ _ heq hgranted
    cases heq
    have ⟨hready, hclient, happlied⟩ := join_informs sem exports hgranted
    rw [hdoc]
    exact Set.union_subset happlied
      ((hattends hready hclient).trans Set.subset_union_left)
  · intro _ _ _ _ _ _ hknown
    rw [hdoc]
    exact hknown

/-- An update that is committed goes to every peer besides its sender, who has it. -/
theorem informed_update (hremembers : a.Remembers S) (h : Informed S a events)
    {connectionId : UInt64} {batchId : BatchId} {updates : List Bytes} (peer : PeerSender)
    {admission : RoomActor.Admission Doc}
    (hadmitted : a.Admitted connectionId batchId updates admission)
    (resolved : Except AppendFailure DurableAppend) :
    Informed S (a.finishUpdate connectionId batchId updates peer admission resolved).1
      (.handled (.update connectionId batchId updates peer) before a
        (a.finishUpdate connectionId batchId updates peer admission resolved).2 after
        (a.finishUpdate connectionId batchId updates peer admission resolved).1 :: events) := by
  have hturn : a.PeerTurn (.update connectionId batchId updates peer)
      (a.finishUpdate connectionId batchId updates peer admission resolved) :=
    RoomActor.peerTurn_finishUpdate hadmitted resolved
  cases resolved with
  | error failure =>
    apply h.same hturn.peers
    · cases failure <;> rfl
    · simp
  | ok proof =>
    apply h.turn hturn.peers
    · intro _ _ _ _ heq
      cases heq
    · intro _ id s s' hs hstays hknown
      show S.known admission.candidate ⊆ s'.ops S
      rw [buildCandidate_eq_union sem hremembers.pending hremembers.known hadmitted.candidate]
      apply Set.union_subset hknown
      by_cases hid : id = connectionId
      · subst hid
        exact Subscriber.ops_sent (hstays.own batchId updates peer rfl)
      · apply Subscriber.ops_received
        intro update hupdate
        apply hstays.heard
        apply mem_payloads_sendUpdates (fun _ _ => rfl)
        have hentry : (id, s.sender) ∈ a.peers.filter fun entry => entry.1 ≠ connectionId := by
          simp [h.joined id s hs, hid]
        exact List.mem_flatMap.2 ⟨_, hentry, List.mem_map.2 ⟨update, hupdate, rfl⟩⟩

end Turns

/-- What is known of an idle actor of a run. -/
structure RoomActor.Informs (S : Loro.Observers Doc Op) (roomId : String) (config : ActorConfig)
    (w : World) (a : RoomActor Doc) : Prop where
  seated : a.Seated roomId config
  remembers : a.Remembers S
  tracks : ∃ seen, a.Live → a.Tracks roomId config.frameLimits w.disk seen

theorem RoomReachable.informs (sem : Loro.Semantics S) {policy : Policy Doc roomId config}
    (quiet : policy.Quiet) (hreach : RoomReachable policy ⟨w, .idle a, events⟩) :
    a.Informs S roomId config w where
  seated := hreach.placed.toSeated
  remembers := hreach.actor (RoomActor.Remembers.invariant sem)
  tracks := by
    have ⟨seen, htracked⟩ := (hreach.tracked sem quiet).blocked
    exact ⟨seen, fun hlive => (htracked hlive).1⟩

section Programs

variable {serve : Serve Request Answer World} (hs : Orderly Doc roomId config serve)

include hs

theorem informed_boot (boot : Boot) (hkept : Kept Doc roomId config w) :
    wp serve (Contract.orderly Doc roomId config fun _ => True)
      (RoomActor.activate roomId config boot)
      (fun (a : RoomActor Doc) t => Informed S a (.booted boot t a :: events)) w := by
  apply hs.boot hkept (fun _ _ _ => trivial)
  · intro _ _ _ t _ _ _
    exact .booted boot t _ events
  · intro a _ _ t _ _ _
    exact .booted boot t a events

variable (ha : a.Informs S roomId config w) (h : Informed S a events)

include ha h

theorem informed_rotate (hkept : Kept Doc roomId config w) :
    wp serve (Contract.orderly Doc roomId config fun _ => True) a.rotateGeneration
      (fun r t => Informed S r.1 (.handled .rotate w a [.respond r.2] t r.1 :: events)) w := by
  have ⟨seen, htracks⟩ := ha.tracks
  apply hs.rotate ha.seated hkept htracks
  · exact fun _ _ _ _ _ => trivial
  · exact fun _ => h.same rfl rfl (by simp)
  · exact fun _ _ _ _ _ _ => h.same rfl rfl (by simp)
  · exact fun _ _ _ _ _ _ _ _ _ _ => h.same rfl rfl (by simp)

/-- A reload brings in the blocked update, and nothing else that the document did not
know. -/
theorem informed_retry (sem : Loro.Semantics S) :
    wp serve (Contract.orderly Doc roomId config fun _ => True) a.retryPending
      (fun r t => Informed S r.1 (.handled .retryAmbiguous w a [.respond r.2] t r.1 :: events)) w := by
  have ⟨seen, htracks⟩ := ha.tracks
  apply hs.retry ha.seated htracks
  · exact fun _ _ _ _ _ => trivial
  · exact fun _ => h.same rfl rfl (by simp)
  · exact fun _ _ _ _ _ _ _ _ _ => h.same rfl rfl (by simp)
  · intro pending endOffset next history doc t hpending _ _ _ _ hhistory hdoc _ _
    apply h.turn rfl
    · intro _ _ _ _ heq
      cases heq
    · intro hattends id s s' hsubscriber hstays hknown
      have ⟨kept, hkept, _⟩ := (htracks (.inr (by simp [hpending]))).history
      have hseen : S.ops (seen.flatMap DeltaFrame.updates) ⊆ S.known a.doc := by
        refine (S.ops_mono ?_).trans ha.remembers.known
        rw [hkept]
        exact List.subset_append_right _ _
      have hblocked : S.ops pending.frame.updates ⊆ s.ops S :=
        hattends pending hpending _ (h.joined id s hsubscriber) s hsubscriber
      show S.known doc ⊆ s'.ops S
      rw [replay_known sem hdoc, collectHistory_eq_ok hhistory, List.nil_append,
        List.flatMap_append, List.flatMap_singleton, Loro.Observers.ops_append]
      exact Set.union_subset (hseen.trans hknown) (hblocked.trans hstays.ops_subset)

/-- One command, whatever the store makes of it. -/
theorem informed_handle (sem : Loro.Semantics S) (exports : Loro.Exports S)
    (hkept : Kept Doc roomId config w) (command : Command) :
    wp serve (Contract.orderly Doc roomId config fun _ => True) (a.handle command)
      (fun r t => Informed S r.1 (.handled command w a r.2 t r.1 :: events)) w := by
  apply RoomActor.wp_handle
  · intro heq
    subst heq
    exact h.same rfl rfl (by simp)
  · intro heq
    subst heq
    exact informed_retry hs ha h sem
  · intro heq
    subst heq
    exact informed_rotate hs ha h hkept
  · intro hclosed
    apply h.turn
    · cases command <;> simp [RoomActor.peersAfter, RoomActor.rejectUnavailable, joinGranted, hclosed]
    · intro _ _ _ _ heq hgranted
      subst heq
      simp [RoomActor.rejectUnavailable, joinGranted] at hgranted
    · exact fun _ _ _ _ _ _ hknown => hknown
  · intro connectionId version peer heq _
    subst heq
    exact informed_join sem exports h connectionId version peer
  · intro connectionId batchId updates peer heq _
    subst heq
    obtain ⟨seen, htracks⟩ := ha.tracks
    apply RoomActor.wp_update
    · exact fun _ _ => h.same rfl rfl (by simp)
    · intro admission hadmitted
      have hresolve := hs.resolve (F := fun _ => True) ha.seated hadmitted.prepares
        (htracks (.inl hadmitted.ready)) fun _ _ _ => trivial
      exact wp_mono (fun r _ _ => informed_update sem ha.remembers h peer hadmitted r) hresolve
  · intro connectionId heq hopen
    subst heq
    have hpeers : a.peers.remove connectionId = a.peersAfter (.leave connectionId) [] := by
      simp [RoomActor.peersAfter, hopen]
    exact h.same hpeers rfl (by simp)

end Programs

/-- Whenever a room of a run is idle. -/
theorem RoomReachable.informed (sem : Loro.Semantics S) (exports : Loro.Exports S)
    {policy : Policy Doc roomId config} (quiet : policy.Quiet)
    (hreach : RoomReachable policy ⟨w, .idle a, events⟩) : Informed S a events := by
  have hpreserved := quiet.preserved (L := RoomActor.Informs S roomId config)
    (J := fun _ => Informed S) (F := fun _ _ => True) (fun _ _ => trivial) (fun _ _ => trivial)
    (fun hs _ hkept _ => informed_boot hs _ hkept)
    (fun hs _ ha hkept h => informed_handle hs ha h sem exports hkept _)
  have hwithin : Reachable (keptWith policy (RoomActor.Informs S roomId config))
      (fun w => w = World.empty) ⟨w, .idle a, events⟩ :=
    Reachable.within (fun h => RoomReachable.kept h)
      (fun h => RoomReachable.informs sem quiet h) hreach
  refine (Reachable.idle_invariant hpreserved ?_ hwithin).2
  intro w hw
  subst hw
  exact ⟨kept_empty, trivial⟩

/-- In every ready room of a run in which no turn has left a subscriber behind, each connection
that has joined and not left has all that the document has applied: its join version names it,
it has sent it, or it has been sent it since its join. -/
theorem subscribers_miss_nothing (sem : Loro.Semantics S) (exports : Loro.Exports S)
    (hreach : RoomReachable (Policy.lossy : Policy Doc roomId config) ⟨w, .idle a, events⟩)
    (hattended : Attended S events) :
    a.lifecycle = .ready → ∀ connectionId s, subscriberOf connectionId events = some s →
      S.applied a.doc ⊆ namedOps S s.version ∪ S.ops s.sent ∪ S.ops s.received := by
  intro _ connectionId s hs
  have hknown := (hreach.informed sem exports Policy.lossy_quiet).known hattended connectionId s hs
  rw [Set.union_assoc, ← Loro.Observers.ops_append]
  exact Loro.Semantics.applied_subset_known.trans hknown

end

open Sample

/-- Does the turn leave no subscriber behind, as nothing waits at a join, and each subscriber
has sent the update that a retry reconciles? -/
def attendsIn (earlier : List (Event (sampleGateway .default) World)) :
    Event (sampleGateway .default) World → Bool
  | .handled (.join _ _ _) _ a _ _ _ => a.doc.received.all (OpDoc.isApplied a.doc.received)
  | .handled .retryAmbiguous _ a [.respond true] _ _ =>
    a.blocked.all fun pending => a.peers.all fun entry =>
      (subscriberOf entry.1 earlier).all fun s => decide (pending.frame.updates ⊆ s.sent)
  | _ => true

def attendedIn : List (Event (sampleGateway .default) World) → Bool
  | [] => true
  | event :: earlier => attendsIn earlier event && attendedIn earlier

theorem attends_of_attendsIn {earlier : List (Event (sampleGateway .default) World)}
    {event : Event (sampleGateway .default) World} (h : attendsIn earlier event = true) :
    Attends OpDoc.observers earlier event := by
  unfold Attends
  split
  · rename_i a _ _ _
    intro _ _ o ho
    have happlied := List.all_eq_true.1 h o ho.1
    rw [ho.2] at happlied
    cases happlied
  · intro pending hpending entry hentry s hs
    simp only [attendsIn, hpending, Option.all_some, List.all_eq_true] at h
    have hsent := h entry hentry
    rw [hs, Option.all_some, decide_eq_true_eq] at hsent
    exact Subscriber.ops_sent hsent
  · trivial

theorem attended_of_attendedIn {events : List (Event (sampleGateway .default) World)}
    (h : attendedIn events = true) : Attended OpDoc.observers events := by
  induction events with
  | nil => trivial
  | cons event earlier ih =>
    have ⟨hevent, hearlier⟩ := Bool.and_eq_true_iff.1 h
    exact ⟨attends_of_attendsIn hevent, ih hearlier⟩

/-- An operation waits for another one, a second connection joins when both are applied, an
update is reconciled while that connection is away, and the room rotates. -/
theorem subscribers_miss_nothing_rotated :
    ∃ (w : World) (a : RoomActor OpDoc) (events : List (Event (sampleGateway .default) World))
      (s₁ s₂ : Subscriber),
      RoomReachable (Policy.lossy : Policy OpDoc "r" .default) ⟨w, .idle a, events⟩ ∧
      a.activeDeltaGeneration = ⟨1⟩ ∧ a.doc.appliedOps = [0, 1, 2, 4, 6] ∧
      subscriberOf 1 events = some s₁ ∧ subscriberOf 2 events = some s₂ ∧
      s₁.received = [[1, 2]] ∧ s₂.received = [[0, 0, 1, 2, 4], [1, 6]] ∧
      OpDoc.observers.applied a.doc ⊆ namedOps OpDoc.observers s₁.version ∪
        OpDoc.observers.ops s₁.sent ∪ OpDoc.observers.ops s₁.received ∧
      OpDoc.observers.applied a.doc ⊆ namedOps OpDoc.observers s₂.version ∪
        OpDoc.observers.ops s₂.sent ∪ OpDoc.observers.ops s₂.received := by
  have hrun : ((lossyDirection .default).director.run
      [.boot (sampleBoot 1) (answeredAll 4), .command (.join 1 [] 7) [],
        .command (.update 1 (sampleBatch 1) [[1, 1]] 7) (answeredAll 1),
        .command (.update 1 (sampleBatch 2) [[1, 0]] 7) (answeredAll 1),
        .command (.join 2 [] 8) [],
        .command (.update 2 (sampleBatch 3) [[1, 2]] 8) (answeredAll 1),
        .command (.leave 2) [],
        .command (.update 1 (sampleBatch 4) [[1, 4]] 7) (List.replicate 6 (.lost "timeout")),
        .command .retryAmbiguous (answeredAll 3), .command (.join 2 [] 8) [],
        .command .rotate (answeredAll 10),
        .command (.update 1 (sampleBatch 5) [[1, 6]] 7) (answeredAll 1)]
      ⟨World.empty, .down, []⟩).any (whenIdle fun _ a events => decide (a.lifecycle = .ready) &&
        decide (a.activeDeltaGeneration = ⟨1⟩) &&
        decide (a.doc.appliedOps = [0, 1, 2, 4, 6]) && attendedIn events &&
        decide (subscriberOf 1 events =
          some ⟨7, [], [[1, 1], [1, 0], [1, 4], [1, 6]], [[1, 2]]⟩) &&
        decide (subscriberOf 2 events = some ⟨8, [], [], [[0, 0, 1, 2, 4], [1, 6]]⟩)) = true := by
    decide +kernel
  have ⟨w, a, events, hreach, hend⟩ := Direction.exists_idle_of_run hrun
  simp only [Bool.and_eq_true, decide_eq_true_eq] at hend
  have ⟨⟨⟨⟨⟨hready, hgeneration⟩, happlied⟩, hattended⟩, hfirst⟩, hsecond⟩ := hend
  have hcovers := subscribers_miss_nothing OpDoc.semantics OpDoc.exports hreach
    (attended_of_attendedIn hattended) hready
  exact ⟨w, a, events, _, _, hreach, hgeneration, happlied, hfirst, hsecond, rfl, rfl,
    hcovers 1 _ hfirst, hcovers 2 _ hsecond⟩

/-- The subscriber has joined without a version, and the operation is applied and in no blob
that it has sent or received. -/
def lacks (a : RoomActor OpDoc) (s : Subscriber) (o : Fin 8) : Bool :=
  decide (s.version = []) && OpDoc.isApplied a.doc.received o &&
    (s.sent ++ s.received).all fun blob => !(OpDoc.opsOf blob).contains o

theorem not_covered_of_lacks {a : RoomActor OpDoc} {s : Subscriber} {o : Fin 8}
    (h : lacks a s o = true) :
    ¬ OpDoc.observers.applied a.doc ⊆ namedOps OpDoc.observers s.version ∪
      OpDoc.observers.ops s.sent ∪ OpDoc.observers.ops s.received := by
  simp only [lacks, Bool.and_eq_true, decide_eq_true_eq, List.all_eq_true] at h
  have ⟨⟨hversion, happlied⟩, hblobs⟩ := h
  intro hcovers
  have hhas : o ∈ namedOps OpDoc.observers s.version ∪
      OpDoc.observers.ops (s.sent ++ s.received) := by
    rw [Loro.Observers.ops_append, ← Set.union_assoc]
    exact hcovers happlied
  rcases hhas with hnamed | hblob
  · have ⟨named, hclient, _⟩ := hnamed
    rw [hversion] at hclient
    cases hclient
  · have ⟨blob, hmem, ho⟩ := hblob
    have hnot := hblobs blob hmem
    rw [List.contains_iff_mem.2 ho] at hnot
    cases hnot

/-- A script after which the second connection lacks an operation. -/
theorem exists_lacking_of_run {moves : List (Move (sampleGateway .default) Fate Append)} {o : Fin 8}
    {received : List Bytes}
    (hrun : ((lossyDirection .default).director.run moves ⟨World.empty, .down, []⟩).any
      (whenIdle fun _ a events => decide (a.lifecycle = .ready) &&
        (subscriberOf 2 events).any fun s => decide (s.received = received) && lacks a s o) = true) :
    ∃ (w : World) (a : RoomActor OpDoc) (events : List (Event (sampleGateway .default) World))
      (s : Subscriber),
      RoomReachable (Policy.lossy : Policy OpDoc "r" .default) ⟨w, .idle a, events⟩ ∧
      a.lifecycle = .ready ∧ subscriberOf 2 events = some s ∧ s.received = received ∧
      ¬ OpDoc.observers.applied a.doc ⊆ namedOps OpDoc.observers s.version ∪
        OpDoc.observers.ops s.sent ∪ OpDoc.observers.ops s.received := by
  have ⟨w, a, events, hreach, hend⟩ := Direction.exists_idle_of_run hrun
  have ⟨hready, hsubscriber⟩ := Bool.and_eq_true_iff.1 hend
  have ⟨s, hs, hsubscriber⟩ := (Option.any_eq_true _ _).1 hsubscriber
  have ⟨hreceived, hlacks⟩ := Bool.and_eq_true_iff.1 hsubscriber
  exact ⟨w, a, events, s, hreach, of_decide_eq_true hready, hs, of_decide_eq_true hreceived,
    not_covered_of_lacks hlacks⟩

/-- An operation that waits when the second connection joins is applied later, and the
connection receives only the update that it has waited for.  An update that a retry
reconciles reaches none of the other connections. -/
theorem subscriber_misses_updates :
    (∃ (w : World) (a : RoomActor OpDoc) (events : List (Event (sampleGateway .default) World))
      (s : Subscriber),
      RoomReachable (Policy.lossy : Policy OpDoc "r" .default) ⟨w, .idle a, events⟩ ∧
      a.lifecycle = .ready ∧ subscriberOf 2 events = some s ∧ s.received = [[1, 0]] ∧
      ¬ OpDoc.observers.applied a.doc ⊆ namedOps OpDoc.observers s.version ∪
        OpDoc.observers.ops s.sent ∪ OpDoc.observers.ops s.received) ∧
    ∃ (w : World) (a : RoomActor OpDoc) (events : List (Event (sampleGateway .default) World))
      (s : Subscriber),
      RoomReachable (Policy.lossy : Policy OpDoc "r" .default) ⟨w, .idle a, events⟩ ∧
      a.lifecycle = .ready ∧ subscriberOf 2 events = some s ∧ s.received = [] ∧
      ¬ OpDoc.observers.applied a.doc ⊆ namedOps OpDoc.observers s.version ∪
        OpDoc.observers.ops s.sent ∪ OpDoc.observers.ops s.received := by
  have hwaiting : ((lossyDirection .default).director.run
      [.boot (sampleBoot 1) (answeredAll 4), .command (.join 1 [] 7) [],
        .command (.update 1 (sampleBatch 1) [[1, 1]] 7) (answeredAll 1),
        .command (.join 2 [] 8) [],
        .command (.update 1 (sampleBatch 2) [[1, 0]] 7) (answeredAll 1)]
      ⟨World.empty, .down, []⟩).any (whenIdle fun _ a events => decide (a.lifecycle = .ready) &&
        (subscriberOf 2 events).any fun s => decide (s.received = [[1, 0]]) && lacks a s 1) =
          true := by
    decide +kernel
  have hreconciled : ((lossyDirection .default).director.run
      [.boot (sampleBoot 1) (answeredAll 4), .command (.join 1 [] 7) [],
        .command (.join 2 [] 8) [],
        .command (.update 1 (sampleBatch 1) [[1, 0]] 7) (List.replicate 6 (.lost "timeout")),
        .command .retryAmbiguous (answeredAll 3)]
      ⟨World.empty, .down, []⟩).any (whenIdle fun _ a events => decide (a.lifecycle = .ready) &&
        (subscriberOf 2 events).any fun s => decide (s.received = []) && lacks a s 0) = true := by
    decide +kernel
  exact ⟨exists_lacking_of_run hwaiting, exists_lacking_of_run hreconciled⟩

end LoroGateway
