import LoroGateway.Sessions
import LoroGateway.UpdateOutcome

/-!
# Every update is answered once, and in order

A client may send many updates before it gets an answer.  Each of them is
acknowledged once, and the acknowledgements of a room come in the order in which the
connection has handed the updates to the room.  This holds for every order of the steps
of the gateway, and whatever the store answers.

`Serves` is the invariant of one connection: the updates that its turns have let out
are those that were posted and the one that waits for a place, and what the room has
sent to it acknowledges the posted ones that were answered.
-/

namespace LoroGateway

open ByteCodec CrashLogic CrashLogic.Server

/-! ## What a command is answered with -/

/-- The acknowledgements that a command has to get in a room. -/
def Command.acksDue (roomId : String) : Command → List (PeerSender × String × BatchId)
  | .update _ batchId _ peer => [(peer, roomId, batchId)]
  | _ => []

/-- The acknowledgements among some outputs, without their statuses. -/
def acksIn (outputs : List Output) : List (PeerSender × String × BatchId) :=
  (outputs.filterMap Output.ack?).map fun ack => (ack.1, ack.2.1, ack.2.2.1)

section Answers

variable [Hashing] {Doc : Type} [Loro Doc]

namespace RoomActor

omit [Hashing] in
theorem acksIn_join (a : RoomActor Doc) (connectionId : UInt64) (version : Bytes)
    (peer : PeerSender) : acksIn (a.join connectionId version peer).2 = [] := by
  unfold join acksIn
  split_ifs
  · rfl
  · cases clientVersion Doc version with
    | error message => rfl
    | ok clientVersion =>
      simp only
      split_ifs
      · rfl
      · cases exportFor a.doc clientVersion with
        | error message => rfl
        | ok update =>
          simp only [List.filterMap_cons, Output.ack?]
          rw [acks_sendUpdate]
          rfl

/-- A command gets the acknowledgements that are due, whatever the store answers. -/
theorem acksIn_handle (a : RoomActor Doc) (command : Command) :
    (a.handle command).Always (fun _ => True) fun r => acksIn r.2 = command.acksDue a.roomId := by
  cases command with
  | waitForActivation => exact rfl
  | retryAmbiguous => exact .bind (Prog.always_true _) fun _ _ => rfl
  | rotate => exact .bind (Prog.always_true _) fun _ _ => rfl
  | join connectionId version peer =>
    unfold handle
    split_ifs
    · exact rfl
    · exact acksIn_join a connectionId version peer
  | update connectionId batchId updates peer =>
    refine (update_ends a connectionId batchId updates peer).mono (fun _ h => h) ?_
    intro r hends
    have ⟨status, hack⟩ := hends
    rw [acksIn, hack.ack]
    rfl
  | leave connectionId =>
    unfold handle
    split_ifs
    · exact rfl
    · exact rfl

end RoomActor

variable {rooms : Set String} {config : ActorConfig}
  {policy : ∀ room : rooms, Policy Doc room.val config}

/-- What a command of a room is answered with. -/
def Due (roomId : String) (command : Command) (_ : RoomActor Doc) (outputs : List Output)
    (_ : RoomActor Doc) : Prop :=
  acksIn outputs = command.acksDue roomId

/-- Every command that a room of a process has in hand or has handled gets the
acknowledgements that are due. -/
theorem ProcessReachable.due {g : RoomManager Doc rooms config} (h : ProcessReachable policy g)
    (room : rooms) :
    (g.member room).phase.Answers (fun a : RoomActor Doc => a.KeepsTo room.val) (Due room.val) ∧
      ∀ event ∈ (g.member room).events, event.Answers (Due room.val) := by
  refine Fleet.Reachable.answers (P := fun room (a : RoomActor Doc) => a.KeepsTo room.val)
    (Q := fun room => Due room.val) ?_ ?_ h room
  · intro room boot
    exact (RoomActor.keeps_activate boot).mono (fun _ _ => trivial) fun _ h => h
  · intro room c a ha
    have hkeeps := (RoomActor.keeps_handle ha c).and (RoomActor.acksIn_handle a c)
    refine hkeeps.mono (fun _ _ => trivial) ?_
    intro r hr
    rw [ha.room] at hr
    exact hr

end Answers

/-! ## What a connection waits for -/

/-- The update that a command brings for a connection. -/
def Command.updateOf (peer : PeerSender) : Command → Option (BatchId × List Bytes)
  | .update _ batchId updates sender => if sender = peer then some (batchId, updates) else none
  | _ => none

/-- The updates of a connection among some commands. -/
def updatesOf (peer : PeerSender) (commands : List Command) : List (BatchId × List Bytes) :=
  commands.filterMap (Command.updateOf peer)

/-- The update that an effect brings to a room. -/
def Effect.updateFor (roomId : String) : Effect → Option (BatchId × List Bytes)
  | .room target (.update _ batchId updates _) =>
    if target = roomId then some (batchId, updates) else none
  | _ => none

namespace Client

variable (serverConfig : ServerConfig) (peer : PeerSender) (client : Client) (roomId : String)

/-- The updates that the turns of a connection have let out for a room. -/
def issued : List (BatchId × List Bytes) :=
  (Connection.new.run (client.session serverConfig peer) client.turns).2.filterMap
    (Effect.updateFor roomId)

/-- The update that waits for a place in the mailbox of a room. -/
def pending : List (BatchId × List Bytes) :=
  match client.stage with
  | .posting target command => if target = roomId then updatesOf peer [command] else []
  | _ => []

end Client

/-- A message of a room that acknowledges a batch to a connection. -/
def Sent.ackTo {rooms : Set String} (room : rooms) (peer : PeerSender) :
    Sent rooms → Option (BatchId × UpdateStatusCode)
  | .room origin (.send target (.ack _ refId status)) =>
    if origin = room ∧ target = peer then some (refId, status) else none
  | _ => none

namespace AppState

variable [Hashing] {Doc : Type} [Loro Doc] {rooms : Set String} {config : ActorConfig}

/-- The acknowledgements that a room has sent to a connection, the oldest first. -/
def acksTo (app : AppState Doc rooms config) (room : rooms) (peer : PeerSender) :
    List (BatchId × UpdateStatusCode) :=
  app.sent.filterMap (Sent.ackTo room peer)

end AppState

section Acks

variable {rooms : Set String} {room room' : rooms} {peer : PeerSender}

theorem ackTo_outputs (outputs : List Output) :
    ((outputs.map (Sent.room room)).filterMap (Sent.ackTo room peer)).map Prod.fst =
      ((acksIn outputs).filter fun ack => ack.1 = peer).map fun ack => ack.2.2 := by
  induction outputs with
  | nil => rfl
  | cons output outputs ih =>
    cases output with
    | respond | activated => exact ih
    | send target message =>
      cases message with
      | ack roomId refId status =>
        have hfirst : acksIn (.send target (.ack roomId refId status) :: outputs) =
            (target, roomId, refId) :: acksIn outputs := rfl
        rw [hfirst, List.map_cons, List.filterMap_cons]
        by_cases htarget : target = peer
        · simpa [Sent.ackTo, htarget] using ih
        · simpa [Sent.ackTo, htarget] using ih
      | _ => exact ih

theorem ackTo_outputs_ne (h : room' ≠ room) (outputs : List Output) :
    (outputs.map (Sent.room room')).filterMap (Sent.ackTo room peer) = [] := by
  apply List.filterMap_eq_nil_iff.mpr
  intro sent hmem
  have ⟨output, _, heq⟩ := List.mem_map.1 hmem
  subst heq
  cases output with
  | send target message => cases message <;> simp [Sent.ackTo, h]
  | respond | activated => rfl

theorem ackTo_effects (effects : List Effect) (sender : PeerSender) :
    (effects.map (Sent.session sender)).filterMap (Sent.ackTo room peer) = [] := by
  apply List.filterMap_eq_nil_iff.mpr
  intro sent hmem
  have ⟨effect, _, heq⟩ := List.mem_map.1 hmem
  subst heq
  rfl

theorem updatesOf_append (commands later : List Command) :
    updatesOf peer (commands ++ later) = updatesOf peer commands ++ updatesOf peer later :=
  List.filterMap_append

/-- The acknowledgements that are due for a command go to its sender. -/
theorem acksDue_filter (roomId : String) (command : Command) :
    ((command.acksDue roomId).filter fun ack => ack.1 = peer).map (fun ack => ack.2.2) =
      (updatesOf peer [command]).map Prod.fst := by
  cases command with
  | update connectionId batchId updates sender =>
    by_cases hsender : sender = peer
    · simp [Command.acksDue, updatesOf, Command.updateOf, hsender]
    · simp [Command.acksDue, updatesOf, Command.updateOf, hsender]
  | join | leave | retryAmbiguous | waitForActivation | rotate => rfl

end Acks

theorem Effect.Refusal.updateFor {effect : Effect} (h : effect.Refusal) (roomId : String) :
    effect.updateFor roomId = none := by
  cases effect with
  | joinError | ack => rfl
  | room => exact h.elim

section Posts

variable {s : Session} {turns : List Input} {roomId : String} {command : Command}

/-- A connection posts updates of its own only. -/
theorem Posts.updatesOf_ne (h : Posts s turns roomId command) {other : PeerSender}
    (hother : other ≠ s.outbound) : updatesOf other [command] = [] := by
  cases h with
  | join | leave => rfl
  | update => simp [updatesOf, Command.updateOf, hother.symm]

theorem Posts.updateFor (h : Posts s turns roomId command) (target : String) :
    [Effect.room roomId command].filterMap (Effect.updateFor target) =
      if roomId = target then updatesOf s.outbound [command] else [] := by
  cases h with
  | join | leave =>
    split_ifs
    · rfl
    · rfl
  | update =>
    by_cases hroom : roomId = target
    · simp [Effect.updateFor, updatesOf, Command.updateOf, hroom]
    · simp [Effect.updateFor, hroom]

end Posts

section Order

variable [Hashing] {Doc : Type} [Loro Doc] {rooms : Set String} {config : ActorConfig}
  {policy : ∀ room : rooms, Policy Doc room.val config} {serverConfig : ServerConfig}
  {commandCapacity : Nat} {app app' : AppState Doc rooms config} {peer : PeerSender}
  {client : Client}

/-- What is known of a connection. -/
structure Serves (serverConfig : ServerConfig) (app : AppState Doc rooms config) (peer : PeerSender)
    (client : Client) : Prop where
  connection : client.connection =
    (Connection.new.run (client.session serverConfig peer) client.turns).1
  sender : ∀ roomId command, client.stage = .posting roomId command →
    ∀ other, other ≠ peer → updatesOf other [command] = []
  issued : ∀ room : rooms, client.issued serverConfig peer room.val =
    updatesOf peer (app.handles.posted room) ++ client.pending peer room.val
  acked : ∀ room : rooms, (app.acksTo room peer).map Prod.fst =
    (updatesOf peer ((app.handles.answered room).map Prod.fst)).map Prod.fst

/-- The connection stands at a place, or the place is still free. -/
def AppState.At (app : AppState Doc rooms config) (peer : PeerSender) (client : Client) : Prop :=
  app.clients[peer]? = some client ∨
    app.clients.length ≤ peer ∧ ∃ connectionId, client = .connected connectionId

theorem Serves.frame (h : Serves serverConfig app peer client)
    (hposted : ∀ room, updatesOf peer (app'.handles.posted room) =
      updatesOf peer (app.handles.posted room))
    (hanswered : ∀ room, app'.handles.answered room = app.handles.answered room)
    (hacks : ∀ room, app'.acksTo room peer = app.acksTo room peer) :
    Serves serverConfig app' peer client where
  connection := h.connection
  sender := h.sender
  issued room := by rw [hposted, h.issued]
  acked room := by rw [hacks, hanswered, h.acked]

/-- What a turn lets out comes from the client. -/
theorem Serves.letsOut (h : Serves serverConfig app peer client) {input : Input} {next : Client}
    {effects : List Effect} (hturned : Client.Turned serverConfig peer client input next effects) :
    Connection.LetsOut (client.session serverConfig peer) next.turns effects := by
  have hgathers := Connection.gathers_run (client.session serverConfig peer) client.turns
  rw [← h.connection] at hgathers
  have hout := (Connection.gathers_step (s := client.session serverConfig peer) hgathers input).2
  rw [hturned.step, ← hturned.turns] at hout
  exact hout

/-- A turn of a connection: what it lets out for a room waits for its place. -/
theorem Serves.turn (h : Serves serverConfig app peer client) (hstage : client.stage = .reading)
    {input : Input} {next : Client} {effects : List Effect}
    (hturned : Client.Turned serverConfig peer client input next effects) :
    Serves serverConfig app peer next := by
  have hsession : next.session serverConfig peer = client.session serverConfig peer := by
    rw [Client.session, hturned.connectionId, Client.session]
  have hrun := Connection.run_turn (s := client.session serverConfig peer) (c := Connection.new)
    client.turns input
  rw [← h.connection, hturned.step, ← hturned.turns] at hrun
  have hconnection : next.connection =
      (Connection.new.run (next.session serverConfig peer) next.turns).1 := by
    rw [hsession, hrun]
  have hissued : ∀ roomId, next.issued serverConfig peer roomId =
      client.issued serverConfig peer roomId ++ effects.filterMap (Effect.updateFor roomId) := by
    intro roomId
    rw [Client.issued, hsession, hrun, List.filterMap_append, Client.issued]
  have hidle : ∀ roomId, client.pending peer roomId = [] := by
    intro roomId
    simp [Client.pending, hstage]
  have hstage' := hturned.stage
  have hout := h.letsOut hturned
  cases hout with
  | refusals hrefusals =>
    have hnone : effects.findSome? Effect.post = none :=
      List.findSome?_eq_none_iff.mpr fun effect heffect => (hrefusals effect heffect).post
    rw [Client.stageAfter, hnone] at hstage'
    refine ⟨hconnection, fun _ _ hposting => ?_, fun room => ?_, h.acked⟩
    · rw [hstage'] at hposting
      cases hposting
    · have hupdates : effects.filterMap (Effect.updateFor room.val) = [] :=
        List.filterMap_eq_nil_iff.mpr fun effect heffect =>
          (hrefusals effect heffect).updateFor room.val
      rw [hissued, h.issued, hidle, hupdates]
      simp [Client.pending, hstage']
  | @post roomId command hposts =>
    have hposting : next.stage = .posting roomId command := hstage'
    refine ⟨hconnection, fun _ _ hsome => ?_, fun room => ?_, h.acked⟩
    · rw [hposting] at hsome
      cases hsome
      exact fun other hother => hposts.updatesOf_ne hother
    · rw [hissued, h.issued, hidle, hposts.updateFor, Client.pending, hposting, List.append_nil]
      rfl

/-- A post brings the update that waited. -/
theorem Serves.post (h : Serves serverConfig app peer client) {room : rooms} {command : Command}
    (hstage : client.stage = .posting room.val command) {handles : RoomHandles Doc rooms config}
    (hnext : Mailroom.Step (processSurroundings policy) commandCapacity app.handles
      (.posted room command) handles) (clients : List Client) :
    Serves serverConfig { app with handles, clients } peer { client with stage := .reading } := by
  cases hnext with
  | posted =>
    refine ⟨h.connection, by simp, fun room' => ?_, h.acked⟩
    have hissued := h.issued room'
    have hpending : client.pending peer room'.val =
        if room.val = room'.val then updatesOf peer [command] else [] := by
      rw [Client.pending, hstage]
    rw [hpending] at hissued
    show client.issued serverConfig peer room'.val =
      updatesOf peer ((app.handles.post room command).posted room') ++ []
    rw [hissued, List.append_nil]
    by_cases hroom : room' = room
    · subst hroom
      rw [Mailroom.posted_post, if_pos rfl, updatesOf_append]
    · have hne : room.val ≠ room'.val := fun heq => hroom (Subtype.ext heq.symm)
      rw [Mailroom.posted_post_ne _ hroom, if_neg hne, List.append_nil]

/-- A post of a command that brings nothing for this connection. -/
theorem Serves.posted (h : Serves serverConfig app peer client) {room : rooms} {command : Command}
    (hcommand : updatesOf peer [command] = []) {handles : RoomHandles Doc rooms config}
    (hnext : Mailroom.Step (processSurroundings policy) commandCapacity app.handles
      (.posted room command) handles) (clients : List Client) :
    Serves serverConfig { app with handles, clients } peer client := by
  cases hnext with
  | posted =>
    refine h.frame (fun room' => ?_) (fun _ => rfl) fun _ => rfl
    show updatesOf peer ((app.handles.post room command).posted room') = _
    by_cases hroom : room' = room
    · subst hroom
      rw [Mailroom.posted_post, updatesOf_append, hcommand, List.append_nil]
    · rw [Mailroom.posted_post_ne _ hroom]

/-- A room answers the command that it has in hand. -/
theorem Serves.answered (h : Serves serverConfig app peer client)
    (hreach : AppReachable policy serverConfig commandCapacity app) {room : rooms}
    {outputs : List Output} {handles : RoomHandles Doc rooms config}
    (hnext : Mailroom.Step (processSurroundings policy) commandCapacity app.handles
      (.answered room outputs) handles) :
    Serves serverConfig { app with handles, sent := app.sent ++ outputs.map (.room room) } peer
      client := by
  have ⟨command, before, a, a', hphase, hposted, hevents, hothers⟩ := hnext.answered_append
  have hdue := (hreach.process.due room).1
  rw [hphase] at hdue
  have hacks : acksIn outputs = command.acksDue room.val := hdue.2
  refine ⟨h.connection, h.sender, fun room' => ?_, fun room' => ?_⟩
  · show _ = updatesOf peer (handles.posted room') ++ _
    rw [hposted, h.issued]
  · show ((app.sent ++ outputs.map (Sent.room room)).filterMap
        (Sent.ackTo room' peer)).map Prod.fst =
      (updatesOf peer ((handles.answered room').map Prod.fst)).map Prod.fst
    have hacked := h.acked room'
    unfold AppState.acksTo at hacked
    rw [List.filterMap_append, List.map_append, hacked]
    by_cases hroom : room' = room
    · subst hroom
      have hanswered : handles.answered room' =
          app.handles.answered room' ++ [(command, outputs)] := by
        rw [Mailroom.answered, hevents]
        rfl
      rw [hanswered, ackTo_outputs, hacks, acksDue_filter, List.map_append, updatesOf_append,
        List.map_append]
      rfl
    · have hanswered : handles.answered room' = app.handles.answered room' := by
        rw [Mailroom.answered, hothers room' hroom, Mailroom.answered]
      rw [ackTo_outputs_ne (Ne.symm hroom), hanswered]
      simp

/-- The stage may change as long as nothing waits to be posted. -/
theorem Serves.restage (h : Serves serverConfig app peer client) {stage : Stage}
    (hold : ∀ roomId command, client.stage ≠ .posting roomId command)
    (hnew : ∀ roomId command, stage ≠ .posting roomId command) :
    Serves serverConfig app peer { client with stage } := by
  have hidle : ∀ (c : Client) roomId, (∀ roomId command, c.stage ≠ .posting roomId command) →
      c.pending peer roomId = [] := by
    intro c roomId hstage
    unfold Client.pending
    cases hc : c.stage with
    | posting target command => exact absurd hc (hstage target command)
    | reading | leaving | lost => rfl
  refine ⟨h.connection, fun roomId command hposting => absurd hposting (hnew roomId command), ?_,
    h.acked⟩
  intro room
  have hissued := h.issued room
  rw [hidle client room.val hold] at hissued
  rw [hidle { client with stage } room.val hnew]
  exact hissued

/-- A connection that has done nothing. -/
theorem serves_connected (connectionId : UInt64)
    (hposted : ∀ room, updatesOf peer (app.handles.posted room) = [])
    (hanswered : ∀ room, updatesOf peer ((app.handles.answered room).map Prod.fst) = [])
    (hacks : ∀ room, app.acksTo room peer = []) :
    Serves serverConfig app peer (.connected connectionId) where
  connection := rfl
  sender := nofun
  issued room := by rw [hposted]; rfl
  acked room := by rw [hacks, hanswered]; rfl

/-- A crash: the next connections find everything empty. -/
theorem serves_crash (hreach : AppReachable policy serverConfig commandCapacity app)
    {connectionId : UInt64} (h : Serves serverConfig app peer (.connected connectionId))
    {handles : RoomHandles Doc rooms config}
    (hnext : Mailroom.Step (processSurroundings policy) commandCapacity app.handles .crashed
      handles)
    (clients : List Client) :
    Serves serverConfig { app with handles, clients } peer (.connected connectionId) := by
  have hbefore : ∀ room, updatesOf peer ((app.handles.answered room).map Prod.fst) = [] := by
    intro room
    have hissued : [] = updatesOf peer (app.handles.posted room) ++ [] := h.issued room
    rw [(hreach.mailroom.orderly room).fifo, updatesOf_append, updatesOf_append] at hissued
    simp only [List.append_nil, List.nil_eq, List.append_eq_nil_iff] at hissued
    exact hissued.1.1
  have hposted : ∀ room, handles.posted room = [] := by
    cases hnext with
    | crash => exact fun _ => rfl
  apply serves_connected
  · intro room
    rw [hposted]
    rfl
  · intro room
    have hfifo := ((hreach.mailroom.step hnext).orderly room).fifo
    rw [hposted] at hfifo
    simp only [List.nil_eq, List.append_eq_nil_iff] at hfifo
    rw [hfifo.1.1]
    rfl
  · intro room
    have hacked := h.acked room
    rw [hbefore] at hacked
    exact List.map_eq_nil_iff.mp hacked

omit [Hashing] in
/-- What a connection lets out itself is no acknowledgement of a room. -/
theorem acks_session (room : rooms) (peer other : PeerSender) (sent : List (Sent rooms))
    (effects : List Effect) :
    (sent ++ effects.map (Sent.session other)).filterMap (Sent.ackTo room peer) =
      sent.filterMap (Sent.ackTo room peer) := by
  rw [List.filterMap_append, ackTo_effects, List.append_nil]

/-- Who stands at a place after a connection has gone on. -/
theorem AppState.At.of_set {other : PeerSender} {held next : Client} {effects : List Effect}
    (hget : app.clients[other]? = some held)
    (h : (app.withClient other next effects).At peer client) :
    other = peer ∧ client = next ∨ other ≠ peer ∧ app.At peer client := by
  unfold AppState.At AppState.withClient at *
  simp only [List.length_set] at h
  by_cases heq : other = peer
  · subst heq
    have hlt := (List.getElem?_eq_some_iff.1 hget).1
    rw [List.getElem?_set_self hlt] at h
    rcases h with hsome | ⟨hle, _⟩
    · exact .inl ⟨rfl, (Option.some.inj hsome).symm⟩
    · omega
  · rw [List.getElem?_set_ne heq] at h
    exact .inr ⟨heq, h⟩

theorem Serves.step (hreach : AppReachable policy serverConfig commandCapacity app)
    (hall : ∀ peer client, app.At peer client → client.stage ≠ .lost →
      Serves serverConfig app peer client)
    (hstep : AppState.Step policy serverConfig commandCapacity app app') (hat : app'.At peer client)
    (hlive : client.stage ≠ .lost) : Serves serverConfig app' peer client := by
  cases hstep with
  | start hstart =>
    have ⟨hposted, hanswered⟩ := hstart.inner trivial
    exact (hall peer client hat hlive).frame (fun room => by rw [hposted]) hanswered fun _ => rfl
  | connect hup =>
    have hbefore : app.At peer client := by
      rcases hat with hsome | ⟨hle, hnew⟩
      · have hsome : (app.clients ++ [.connected app.nextConnectionId])[peer]? = some client :=
          hsome
        by_cases hlt : peer < app.clients.length
        · rw [List.getElem?_append_left hlt] at hsome
          exact .inl hsome
        · rw [List.getElem?_append_right (not_lt.1 hlt), List.getElem?_singleton] at hsome
          split_ifs at hsome
          exact .inr ⟨not_lt.1 hlt, _, (Option.some.inj hsome).symm⟩
      · simp only [List.length_append, List.length_singleton] at hle
        exact .inr ⟨by omega, hnew⟩
    exact (hall peer client hbefore hlive).frame (fun _ => rfl) (fun _ => rfl) fun _ => rfl
  | ping hget hstage =>
    refine (hall peer client hat hlive).frame (fun _ => rfl) (fun _ => rfl) fun room => ?_
    show (app.sent ++ [_]).filterMap _ = app.sent.filterMap _
    rw [List.filterMap_append]
    exact List.append_nil _
  | @turn other held next input effects hget hstage hturn hsilent =>
    rcases hat.of_set hget with ⟨rfl, rfl⟩ | ⟨hne, hat⟩
    · have hnext :=
        (hall other held (.inl hget) (by simp [hstage])).turn hstage (Client.turned hturn)
      exact hnext.frame (fun _ => rfl) (fun _ => rfl) fun _ => acks_session ..
    · exact (hall peer client hat hlive).frame (fun _ => rfl) (fun _ => rfl)
        fun _ => acks_session ..
  | @ask other held next input effects room command handles hget hstage hturn hposts hopen =>
    have ⟨hposted, hanswered⟩ := hopen.inner trivial
    have hframe : ∀ {c}, Serves serverConfig app peer c →
        Serves serverConfig { app.withClient other next effects with handles } peer c := fun hc =>
      hc.frame (fun room => by rw [hposted]) hanswered
        fun _ => acks_session ..
    have hat : (app.withClient other next effects).At peer client := hat
    rcases hat.of_set hget with ⟨rfl, rfl⟩ | ⟨hne, hat⟩
    · have hnext :=
        (hall other held (.inl hget) (by simp [hstage])).turn hstage (Client.turned hturn)
      exact hframe hnext
    · exact hframe (hall peer client hat hlive)
  | @post other held room command handles hget hstage hpost =>
    have hheld := hall other held (.inl hget) (by simp [hstage])
    have hat : (app.withClient other { held with stage := .reading } []).At peer client := hat
    rcases hat.of_set hget with ⟨rfl, rfl⟩ | ⟨hne, hat⟩
    · exact (hheld.post hstage hpost app.clients).frame (fun _ => rfl) (fun _ => rfl)
        fun _ => acks_session ..
    · have hcommand := hheld.sender _ _ hstage peer (Ne.symm hne)
      exact ((hall peer client hat hlive).posted hcommand hpost app.clients).frame (fun _ => rfl)
        (fun _ => rfl) fun _ => acks_session ..
  | @hangUp other held roomIds hget hstage hnodup hrooms =>
    rcases hat.of_set hget with ⟨rfl, rfl⟩ | ⟨hne, hat⟩
    · have hheld := hall other held (.inl hget) (by simp [hstage])
      exact (hheld.restage (by simp [hstage]) (by simp)).frame (fun _ => rfl) (fun _ => rfl)
        fun _ => acks_session ..
    · exact (hall peer client hat hlive).frame (fun _ => rfl) (fun _ => rfl)
        fun _ => acks_session ..
  | @leave other held room roomIds handles hget hstage hpost =>
    have hat : (app.withClient other { held with stage := .leaving roomIds } []).At peer client :=
      hat
    have hframe : ∀ {c}, Serves serverConfig app peer c → Serves serverConfig
        { app.withClient other { held with stage := .leaving roomIds } [] with handles } peer c :=
      fun hc => (hc.posted rfl hpost app.clients).frame (fun _ => rfl) (fun _ => rfl)
        fun _ => acks_session ..
    rcases hat.of_set hget with ⟨rfl, rfl⟩ | ⟨hne, hat⟩
    · have hheld := hall other held (.inl hget) (by simp [hstage])
      exact hframe (hheld.restage (by simp [hstage]) (by simp))
    · exact hframe (hall peer client hat hlive)
  | @operate room command handles hoperates hpost =>
    have hcommand : updatesOf peer [command] = [] := by
      cases command with
      | join | update | leave => exact hoperates.elim
      | retryAmbiguous | waitForActivation | rotate => rfl
    exact (hall peer client hat hlive).posted hcommand hpost app.clients
  | work hwork =>
    have ⟨hposted, hanswered⟩ := hwork.inner trivial
    exact (hall peer client hat hlive).frame (fun room => by rw [hposted]) hanswered fun _ => rfl
  | answer hanswer => exact (hall peer client hat hlive).answered hreach hanswer
  | crash hcrash =>
    rcases hat with hsome | ⟨hle, connectionId, rfl⟩
    · have hsome : (app.clients.map fun c => { c with stage := Stage.lost })[peer]? = some client :=
        hsome
      rw [List.getElem?_map] at hsome
      have ⟨held, _, hheld⟩ := Option.map_eq_some_iff.1 hsome
      rw [← hheld] at hlive
      exact absurd rfl hlive
    · have hle : app.clients.length ≤ peer := by simpa using hle
      have hbefore := hall peer (.connected connectionId) (.inr ⟨hle, _, rfl⟩) hlive
      exact serves_crash hreach hbefore hcrash _

theorem AppReachable.serves (h : AppReachable policy serverConfig commandCapacity app) :
    ∀ peer client, app.At peer client → client.stage ≠ .lost →
      Serves serverConfig app peer client := by
  induction h with
  | init =>
    intro peer client hat _
    rcases hat with hsome | ⟨_, connectionId, rfl⟩
    · simp [AppState.initial] at hsome
    · exact serves_connected connectionId (fun _ => rfl) (fun _ => rfl) fun _ => rfl
  | step hreach hstep ih => exact fun peer client hat hlive => Serves.step hreach ih hstep hat hlive

/-- The updates that a connection has handed to a room are those that the room has
acknowledged to it, each of them once and in this order, and behind them the one in hand,
those in the mailbox, and the one that waits for a place. -/
theorem updates_answered_in_order (h : AppReachable policy serverConfig commandCapacity app)
    (hget : app.clients[peer]? = some client) (hlive : client.stage ≠ .lost) (room : rooms) :
    ∃ answered,
      client.issued serverConfig peer room.val =
        answered ++ updatesOf peer (app.handles.inHand room) ++
          updatesOf peer (app.handles.waiting room) ++ client.pending peer room.val ∧
      (app.acksTo room peer).map Prod.fst = answered.map Prod.fst := by
  have hserves := h.serves peer client (.inl hget) hlive
  refine ⟨updatesOf peer ((app.handles.answered room).map Prod.fst), ?_, hserves.acked room⟩
  rw [hserves.issued, (h.mailroom.orderly room).fifo, updatesOf_append, updatesOf_append]

end Order

section Example

open Sample

/-- A client joins the room `r`, and its update is committed. -/
theorem AppReachable.sample :
    ∃ (app : AppState OpDoc {"r"} .default) (a : RoomActor OpDoc) (w : World) (client : Client),
      AppReachable (fun _ => Policy.lossy) .default 128 app ∧
      Stands app (sampleProcess 1) ⟨"r", rfl⟩ a w client ∧
      client.issued .default 0 "r" = [(sampleBatch 1, [[1, 0]])] ∧
      (.room ⟨"r", rfl⟩ (.send 0 (.ack "r" (sampleBatch 1) .ok)) : Sent {"r"}) ∈ app.sent := by
  have hrun : ((openRoom answeredHost "r" ((sampleProcess 1).ofRoom "r") 0 World.empty).any
      fun r => decide (.send 0 (.ack "r" (sampleBatch 1) .ok) ∈ r.1.2)) = true := by
    decide +kernel
  obtain ⟨⟨⟨a, outputs⟩, w⟩, hopen, hack⟩ := (Option.any_eq_true _ _).mp hrun
  have hhost : ∀ w req x w', answeredHost () w req = some (x, w') → answered w req x w' :=
    fun _ _ _ _ h => (Option.some.inj h).symm
  obtain ⟨a₀, a₁, _, w₁, w₂, hboot, hjoin, hupdate⟩ := runs_of_openRoom hhost hopen
  let policy : ∀ room : ({"r"} : Set String), Policy OpDoc room.val .default := fun _ => .lossy
  let room : ({"r"} : Set String) := ⟨"r", rfl⟩
  have hserve : ∀ task w req x w', answered w req x w' →
      (processSurroundings policy).serve room task w req x w' :=
    fun _ _ _ _ _ hserve => ⟨.answered, trivial, trivial, hserve⟩
  have haccepts : ∀ w a events c, (processSurroundings policy).accepts room w a events c :=
    fun _ _ _ _ => trivial
  have hfresh : ∀ room : ({"r"} : Set String), FreshBoot room.val World.empty
      ((sampleProcess 1).ofRoom room.val) := fun _ attempt hmem => absurd hmem List.not_mem_nil
  have hcapacity : 0 < 128 := by decide
  have hstart : ∃ app, AppReachable policy .default 128 app ∧
      Stands app (sampleProcess 1) room a₀ w₁ (.connected 1) :=
    AppReachable.stands hserve haccepts hcapacity hfresh hboot
  obtain ⟨app₀, hreach₀, hstands₀⟩ := hstart
  let join : Input := .message 0 (.joinRequest .loro "r" [])
  let offer : Input := .message 0 (.docUpdate .loro "r" [[1, 0]] (sampleBatch 1))
  let joined : Connection := ⟨insert "r" ∅, ∅⟩
  let asked : Client := ⟨1, joined, [join], .posting "r" (.join 1 [] 0)⟩
  let offered : Client :=
    ⟨1, joined, [join, offer], .posting "r" (.update 1 (sampleBatch 1) [[1, 0]] 0)⟩
  have hasks : (Client.connected 1).turn .default 0 join =
      (asked, [.room "r" (.join 1 [] 0)]) := rfl
  have hoffers : Client.turn .default 0 { asked with stage := .reading } offer =
      (offered, [.room "r" (.update 1 (sampleBatch 1) [[1, 0]] 0)]) := rfl
  obtain ⟨app₁, hreach₁, hstands₁, _⟩ :=
    hstands₀.delivers hserve haccepts hcapacity hreach₀ hasks rfl hjoin
  obtain ⟨app₂, hreach₂, hstands₂, hsent⟩ :=
    hstands₁.delivers hserve haccepts hcapacity hreach₁ hoffers rfl hupdate
  refine ⟨app₂, a, w, _, hreach₂, hstands₂, rfl, ?_⟩
  rw [hsent, List.mem_append]
  exact .inr (List.mem_map_of_mem (of_decide_eq_true hack))

/-- The update of the sample run was issued once, and it is acknowledged once. -/
theorem updates_answered_in_order_once :
    ∃ app : AppState OpDoc {"r"} .default, AppReachable (fun _ => Policy.lossy) .default 128 app ∧
      (app.acksTo ⟨"r", rfl⟩ 0).map Prod.fst = [sampleBatch 1] := by
  obtain ⟨app, a, w, client, hreach, hstands, hissued, _⟩ := AppReachable.sample
  have hget : app.clients[0]? = some client := by rw [hstands.clients]; rfl
  have hlive : client.stage ≠ .lost := by simp [hstands.stage]
  obtain ⟨answered, hall, hacks⟩ := updates_answered_in_order hreach hget hlive ⟨"r", rfl⟩
  obtain ⟨events, hmember⟩ := hstands.member
  have hhand : app.handles.inHand ⟨"r", rfl⟩ = [] := by
    simp [Mailroom.inHand, hmember, Phase.command]
  have hwaiting : app.handles.waiting ⟨"r", rfl⟩ = [] := by
    simp [Mailroom.waiting, hstands.mailbox]
  rw [hissued, hhand, hwaiting] at hall
  simp only [updatesOf, List.filterMap_nil, List.append_nil, Client.pending, hstands.stage] at hall
  exact ⟨app, hreach, by rw [hacks, ← hall]; rfl⟩

end Example

end LoroGateway
