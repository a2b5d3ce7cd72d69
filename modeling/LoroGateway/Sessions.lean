import LoroGateway.Lib.Mailbox
import LoroGateway.Offers
import LoroGateway.Rooms

/-!
# The gateway with its connections

`connection` of `src/server.rs`, with the mailboxes of `RoomHandle`.  Clients connect
and send messages.  A connection handles one message after the other.  When a message
leads to a command for a room, the connection waits until the mailbox of the room has a
place for it.  When the client hangs up, the connection leaves its rooms in the same
way.

* `AppState` is a state of the gateway.  It remembers all connections of all processes:
  the place of a connection in the list is its `PeerSender`.
* `AppState.Step` are its steps.  A message, a post, a turn of a room and a call of the
  store are steps of their own, so all of them interleave.
* `AppReachable.process` forgets the connections and the mailboxes.

The channel of a connection has no bound.  What is put on it stands in `sent`; what the
client receives is a first part of that.
-/

namespace LoroGateway

open ByteCodec CrashLogic CrashLogic.Server

/-- What is put on the channel of a connection. -/
inductive Outbound
  | protocol (crdt : CrdtType) (message : ProtocolMessage)
  | text (content : String)
  deriving DecidableEq

def Effect.outbound : Effect → Option Outbound
  | .joinError crdt roomId code message receiverVersion appCode =>
    some (.protocol crdt (.joinError roomId code message receiverVersion appCode))
  | .ack crdt roomId refId status => some (.protocol crdt (.ack roomId refId status))
  | .room _ _ => none

def Output.outbound : Output → Option (PeerSender × Outbound)
  | .send peer message => some (peer, .protocol .loro message)
  | .respond _ | .activated => none

/-- What a connection does next. -/
inductive Stage
  /-- It waits for the next message. -/
  | reading
  /-- It waits for a place in the mailbox of a room. -/
  | posting (roomId : String) (command : Command)
  /-- The client has hung up, and these rooms are still to be left. -/
  | leaving (roomIds : List String)
  /-- The process has crashed. -/
  | lost

structure Client where
  connectionId : UInt64
  connection : Connection
  /-- The turns so far, the oldest first. -/
  turns : List Input
  stage : Stage

/-- What a connection or a room has sent. -/
inductive Sent (rooms : Set String)
  | pong (peer : PeerSender)
  | session (peer : PeerSender) (effect : Effect)
  | room (room : rooms) (output : Output)

/-- What goes on the channel of a connection. -/
def Sent.outbound {rooms : Set String} : Sent rooms → Option (PeerSender × Outbound)
  | .pong peer => some (peer, .text "pong")
  | .session peer effect => effect.outbound.map (peer, ·)
  | .room _ output => output.outbound

namespace Client

/-- The start of `connection`. -/
def connected (connectionId : UInt64) : Client := ⟨connectionId, .new, [], .reading⟩

def session (serverConfig : ServerConfig) (peer : PeerSender) (client : Client) : Session :=
  ⟨serverConfig, client.connectionId, peer⟩

/-- What a connection does after a turn with some effects. -/
def stageAfter (effects : List Effect) : Stage :=
  match effects.findSome? Effect.post with
  | some (roomId, command) => .posting roomId command
  | none => .reading

/-- One turn of the loop of `connection`. -/
def turn (serverConfig : ServerConfig) (peer : PeerSender) (client : Client) (input : Input) :
    Client × List Effect :=
  let (connection, effects) := client.connection.step (client.session serverConfig peer) input
  (⟨client.connectionId, connection, client.turns ++ [input], stageAfter effects⟩, effects)

/-- The inversion of a turn. -/
structure Turned (serverConfig : ServerConfig) (peer : PeerSender) (client : Client) (input : Input)
    (next : Client) (effects : List Effect) : Prop where
  connectionId : next.connectionId = client.connectionId
  turns : next.turns = client.turns ++ [input]
  stage : next.stage = stageAfter effects
  step : client.connection.step (client.session serverConfig peer) input =
    (next.connection, effects)

theorem turned {serverConfig : ServerConfig} {peer : PeerSender} {client next : Client}
    {input : Input}
    {effects : List Effect} (h : client.turn serverConfig peer input = (next, effects)) :
    Turned serverConfig peer client input next effects := by
  unfold turn at h
  generalize hresult : client.connection.step (client.session serverConfig peer) input = result at h
  have ⟨hnext, heffects⟩ := Prod.mk.inj h
  subst hnext
  subst heffects
  exact ⟨rfl, rfl, rfl, hresult⟩

end Client

section

variable [Hashing] (Doc : Type) [Loro Doc] (rooms : Set String) (config : ActorConfig)

/-- The rooms of a process with their mailboxes. -/
abbrev RoomHandles : Type :=
  Mailroom (fun room : rooms => gateway Doc room.val config) ProcessBoot World

/-- A state of the gateway. -/
structure AppState where
  handles : RoomHandles Doc rooms config
  /-- `CONNECTION_ID`. -/
  nextConnectionId : UInt64
  /-- The connections of all processes, the oldest first. -/
  clients : List Client
  /-- What was sent, the oldest first. -/
  sent : List (Sent rooms)

end

namespace AppState

variable [Hashing] {Doc : Type} [Loro Doc] {rooms : Set String} {config : ActorConfig}

/-- A connection goes on, and it has let out some effects. -/
def withClient (app : AppState Doc rooms config) (peer : PeerSender) (client : Client)
    (effects : List Effect) : AppState Doc rooms config :=
  { app with
    clients := app.clients.set peer client
    sent := app.sent ++ effects.map (.session peer) }

/-- The operator may speak to a room through its handle. -/
def Operates : Command → Prop
  | .retryAmbiguous | .waitForActivation | .rotate => True
  | _ => False

/-- The steps of the gateway.  The clients speak of the rooms in `rooms` only. -/
inductive Step (policy : ∀ room : rooms, Policy Doc room.val config) (serverConfig : ServerConfig)
    (commandCapacity : Nat) : AppState Doc rooms config → AppState Doc rooms config → Prop
  | start {app : AppState Doc rooms config} {boot : ProcessBoot}
      {handles : RoomHandles Doc rooms config}
      (h : Mailroom.Step (processSurroundings policy) commandCapacity app.handles (.started boot)
        handles) :
      Step policy serverConfig commandCapacity app { app with handles, nextConnectionId := 1 }
  | connect {app : AppState Doc rooms config} {boot : ProcessBoot}
      (hup : app.handles.fleet.process = some boot) :
      Step policy serverConfig commandCapacity app { app with
        nextConnectionId := app.nextConnectionId + 1
        clients := app.clients ++ [.connected app.nextConnectionId] }
  | ping {app : AppState Doc rooms config} {peer : PeerSender} {client : Client}
      (hget : app.clients[peer]? = some client) (hstage : client.stage = .reading) :
      Step policy serverConfig commandCapacity app { app with sent := app.sent ++ [.pong peer] }
  | turn {app : AppState Doc rooms config} {peer : PeerSender} {client next : Client}
      {input : Input} {effects : List Effect} (hget : app.clients[peer]? = some client)
      (hstage : client.stage = .reading)
      (hturn : client.turn serverConfig peer input = (next, effects))
      (hsilent : next.stage = .reading) :
      Step policy serverConfig commandCapacity app (app.withClient peer next effects)
  | ask {app : AppState Doc rooms config} {peer : PeerSender} {client next : Client} {input : Input}
      {effects : List Effect} {room : rooms} {command : Command}
      {handles : RoomHandles Doc rooms config}
      (hget : app.clients[peer]? = some client) (hstage : client.stage = .reading)
      (hturn : client.turn serverConfig peer input = (next, effects))
      (hposts : next.stage = .posting room.val command)
      (h : Mailroom.Step (processSurroundings policy) commandCapacity app.handles (.opened room)
        handles) :
      Step policy serverConfig commandCapacity app
        { app.withClient peer next effects with handles }
  | post {app : AppState Doc rooms config} {peer : PeerSender} {client : Client} {room : rooms}
      {command : Command} {handles : RoomHandles Doc rooms config}
      (hget : app.clients[peer]? = some client) (hstage : client.stage = .posting room.val command)
      (h : Mailroom.Step (processSurroundings policy) commandCapacity app.handles
        (.posted room command) handles) :
      Step policy serverConfig commandCapacity app
        { app.withClient peer { client with stage := .reading } [] with handles }
  | hangUp {app : AppState Doc rooms config} {peer : PeerSender} {client : Client}
      {roomIds : List String} (hget : app.clients[peer]? = some client)
      (hstage : client.stage = .reading) (hnodup : roomIds.Nodup)
      (hrooms : ∀ roomId, roomId ∈ roomIds ↔ roomId ∈ client.connection.joined) :
      Step policy serverConfig commandCapacity app
        (app.withClient peer { client with stage := .leaving roomIds } [])
  | leave {app : AppState Doc rooms config} {peer : PeerSender} {client : Client} {room : rooms}
      {roomIds : List String} {handles : RoomHandles Doc rooms config}
      (hget : app.clients[peer]? = some client)
      (hstage : client.stage = .leaving (room.val :: roomIds))
      (h : Mailroom.Step (processSurroundings policy) commandCapacity app.handles
        (.posted room (.leave client.connectionId)) handles) :
      Step policy serverConfig commandCapacity app
        { app.withClient peer { client with stage := .leaving roomIds } [] with handles }
  | operate {app : AppState Doc rooms config} {room : rooms} {command : Command}
      {handles : RoomHandles Doc rooms config} (hoperates : Operates command)
      (h : Mailroom.Step (processSurroundings policy) commandCapacity app.handles
        (.posted room command) handles) :
      Step policy serverConfig commandCapacity app { app with handles }
  | work {app : AppState Doc rooms config} {handles : RoomHandles Doc rooms config}
      (h : Mailroom.Step (processSurroundings policy) commandCapacity app.handles .quiet handles) :
      Step policy serverConfig commandCapacity app { app with handles }
  | answer {app : AppState Doc rooms config} {room : rooms} {outputs : List Output}
      {handles : RoomHandles Doc rooms config}
      (h : Mailroom.Step (processSurroundings policy) commandCapacity app.handles
        (.answered room outputs) handles) :
      Step policy serverConfig commandCapacity app { app with
        handles
        sent := app.sent ++ outputs.map (.room room) }
  | crash {app : AppState Doc rooms config} {handles : RoomHandles Doc rooms config}
      (h : Mailroom.Step (processSurroundings policy) commandCapacity app.handles .crashed
        handles) :
      Step policy serverConfig commandCapacity app { app with
        handles
        clients := app.clients.map fun client => { client with stage := .lost } }

/-- The gateway before its first process, over an empty store. -/
def initial : AppState Doc rooms config where
  handles := ⟨⟨World.empty, none, fun _ => ⟨.down, []⟩⟩, fun _ => none, fun _ => []⟩
  nextConnectionId := 1
  clients := []
  sent := []

end AppState

section

variable [Hashing] {Doc : Type} [Loro Doc] {rooms : Set String} {config : ActorConfig}

/-- The states that runs of the gateway reach. -/
inductive AppReachable (policy : ∀ room : rooms, Policy Doc room.val config)
    (serverConfig : ServerConfig) (commandCapacity : Nat) : AppState Doc rooms config → Prop
  | init : AppReachable policy serverConfig commandCapacity AppState.initial
  | step {app app' : AppState Doc rooms config}
      (h : AppReachable policy serverConfig commandCapacity app)
      (hstep : AppState.Step policy serverConfig commandCapacity app app') :
      AppReachable policy serverConfig commandCapacity app'

variable {policy : ∀ room : rooms, Policy Doc room.val config} {serverConfig : ServerConfig}
  {commandCapacity : Nat} {app app' : AppState Doc rooms config}

/-- A step of the gateway is a step of the mailboxes, or they stay. -/
theorem AppState.Step.handles (h : Step policy serverConfig commandCapacity app app') :
    app'.handles = app.handles ∨ ∃ sign,
      Mailroom.Step (processSurroundings policy) commandCapacity app.handles sign app'.handles := by
  cases h with
  | connect | ping | turn | hangUp => exact .inl rfl
  | start h | ask _ _ _ _ h | post _ _ h | leave _ _ h | operate _ h | work h | answer h
  | crash h =>
    exact .inr ⟨_, h⟩

theorem AppReachable.mailroom (h : AppReachable policy serverConfig commandCapacity app) :
    Mailroom.Reachable (processSurroundings policy) commandCapacity (fun w => w = World.empty)
      app.handles := by
  induction h with
  | init => exact .init rfl
  | step _ hstep ih =>
    rcases hstep.handles with hsame | ⟨sign, hnext⟩
    · rw [hsame]
      exact ih
    · exact ih.step hnext

/-- The rooms of the gateway are the rooms of a process. -/
theorem AppReachable.process (h : AppReachable policy serverConfig commandCapacity app) :
    ProcessReachable policy app.handles.fleet := h.mailroom.fleet

/-- What one room sees of the gateway. -/
noncomputable def AppState.alone (app : AppState Doc rooms config) (room : rooms) :
    System (gateway Doc room.val config) World :=
  RoomManager.room app.handles.fleet room

/-- Each room is in a state that it reaches alone. -/
theorem AppReachable.alone (h : AppReachable policy serverConfig commandCapacity app)
    (hfree : Set.InjOn Hashing.sha256 (utf8 '' rooms)) (room : rooms) :
    RoomReachable (policy room) (app.alone room) :=
  Fleet.Reachable.reaches (rooms_separate policy hfree) h.process room

/-! ## One client and one room -/

theorem AppReachable.quietly (h : AppReachable policy serverConfig commandCapacity app)
    {handles : RoomHandles Doc rooms config}
    (hquiet : Mailroom.Quietly (processSurroundings policy) commandCapacity app.handles handles) :
    AppReachable policy serverConfig commandCapacity { app with handles } := by
  induction hquiet with
  | refl => exact h
  | @tail middle last _ hlast ih =>
    have hstep : AppState.Step policy serverConfig commandCapacity { app with handles := middle }
        { app with handles := last } := .work hlast
    exact ih.step hstep

/-- One client is connected, one room is idle, and nothing waits. -/
structure Stands (app : AppState Doc rooms config) (boot : ProcessBoot) (room : rooms)
    (a : RoomActor Doc) (w : World) (client : Client) : Prop where
  process : app.handles.fleet.process = some boot
  world : app.handles.fleet.world = w
  member : ∃ events, app.handles.fleet.member room = ⟨.idle a, events⟩
  mailbox : app.handles.mailbox room = some []
  clients : app.clients = [client]
  stage : client.stage = .reading

section Runs

variable {serve : Serve Request Answer World} {boot : ProcessBoot} {room : rooms}
  (hserve : ∀ task w req x w', serve w req x w' →
    (processSurroundings policy).serve room task w req x w')
  (haccepts : ∀ w a events c, (processSurroundings policy).accepts room w a events c)
  (hcapacity : 0 < commandCapacity)

include hserve haccepts

/-- An idle room takes the only command of its mailbox and answers it. -/
theorem AppReachable.answers (h : AppReachable policy serverConfig commandCapacity app)
    (hup : app.handles.fleet.process = some boot) {a a' : RoomActor Doc}
    (hmember : ∃ events, app.handles.fleet.member room = ⟨.idle a, events⟩) {command : Command}
    (hmailbox : app.handles.mailbox room = some [command]) {outputs : List Output} {w' : World}
    (hrun : Runs serve Eq (a.handle command) app.handles.fleet.world (a', outputs) w') :
    ∃ handles, AppReachable policy serverConfig commandCapacity
        { app with handles, sent := app.sent ++ outputs.map (.room room) } ∧
      handles.fleet.process = some boot ∧ handles.fleet.world = w' ∧
      (∃ events, handles.fleet.member room = ⟨.idle a', events⟩) ∧
      handles.mailbox room = some [] := by
  have ⟨events, hidle⟩ := hmember
  have hnext : ∃ m₁ m₂,
      Mailroom.Quietly (processSurroundings policy) commandCapacity app.handles m₁ ∧
      Mailroom.Step (processSurroundings policy) commandCapacity m₁ (.answered room outputs) m₂ ∧
      Mailroom.Apart room app.handles m₂ ∧ m₂.fleet.world = w' ∧ m₂.mailbox room = some [] ∧
      ∃ events', m₂.fleet.member room = ⟨.idle a', events'⟩ :=
    Mailroom.answers_next hup hidle hmailbox (haccepts _ _ _ _)
      (fun w req x w' => hserve _ w req x w')
      hrun
  have ⟨m₁, m₂, hquiet, hanswer, hapart, hworld, hempty, hmember'⟩ := hnext
  exact ⟨m₂, (h.quietly hquiet).step (.answer hanswer), hapart.process.trans hup, hworld, hmember',
    hempty⟩

include hcapacity

/-- A process starts, the operator waits for a room, and a client connects. -/
theorem AppReachable.stands
    (hfresh : ∀ room : rooms, FreshBoot room.val World.empty (boot.ofRoom room.val))
    {a : RoomActor Doc} {w : World}
    (hrun : Runs serve Eq (RoomActor.activate room.val config (boot.ofRoom room.val)) World.empty
      a w) :
    ∃ app, AppReachable policy serverConfig commandCapacity app ∧
      Stands app boot room a w (.connected 1) := by
  let before : AppState Doc rooms config := AppState.initial
  let started : RoomHandles Doc rooms config :=
    ⟨⟨World.empty, some boot, fun _ => ⟨.down, []⟩⟩, fun _ => none, fun _ => []⟩
  let posted := started.post room Command.waitForActivation
  let booted := posted.withSystem room ⟨w, .idle a, [.booted (boot.ofRoom room.val) w a]⟩
  have hstart : AppReachable policy serverConfig commandCapacity
      { before with handles := started } := AppReachable.init.step (.start (.start rfl hfresh))
  have hoperates : AppState.Operates .waitForActivation := trivial
  have hposted : AppReachable policy serverConfig commandCapacity
      { before with handles := posted } :=
    hstart.step (.operate hoperates (.posted rfl hcapacity))
  have hbooted : AppReachable policy serverConfig commandCapacity
      { before with handles := booted } :=
    hposted.quietly (Mailroom.quietly_starts (m := posted) rfl
      (by simp [posted, Mailroom.post, Mailroom.put]) rfl
      (fun w req x w' => hserve _ w req x w') hrun)
  have hqueue : booted.mailbox room = some [Command.waitForActivation] := by
    simp [booted, posted, Mailroom.withSystem, Mailroom.post, Mailroom.put, Mailroom.waiting,
      started]
  obtain ⟨handles, hanswered, hup, hworld, hmember, hempty⟩ := hbooted.answers hserve haccepts rfl
    ⟨_, posted.member_withSystem room _⟩ hqueue
    (.ret (a, [Output.activated]) w)
  exact ⟨_, hanswered.step (.connect hup), hup, hworld, hmember, hempty, rfl, rfl⟩

/-- A client sends a message that leads to a command, and the room answers it. -/
theorem Stands.delivers (h : AppReachable policy serverConfig commandCapacity app)
    {a a' : RoomActor Doc} {w w' : World} {client next : Client}
    (hstands : Stands app boot room a w client) {input : Input} {effects : List Effect}
    (hturn : client.turn serverConfig 0 input = (next, effects)) {command : Command}
    (hposts : next.stage = .posting room.val command) {outputs : List Output}
    (hrun : Runs serve Eq (a.handle command) w (a', outputs) w') :
    ∃ app', AppReachable policy serverConfig commandCapacity app' ∧
      Stands app' boot room a' w' { next with stage := .reading } ∧
      app'.sent = app.sent ++ effects.map (.session 0) ++ outputs.map (.room room) := by
  have hget : app.clients[0]? = some client := by rw [hstands.clients]; rfl
  have hclients : app.clients.set 0 next = [next] := by rw [hstands.clients]; rfl
  have hwaiting : app.handles.waiting room = [] := by
    rw [Mailroom.waiting, hstands.mailbox, Option.getD_some]
  let opened := app.handles.put room (app.handles.waiting room)
  let posted := opened.post room command
  let asked : AppState Doc rooms config :=
    ⟨opened, app.nextConnectionId, [next], app.sent ++ effects.map (.session 0)⟩
  have hasked : AppReachable policy serverConfig commandCapacity asked := by
    have hstep := h.step (.ask hget hstands.stage hturn hposts (.opened hstands.process))
    rw [AppState.withClient, hclients] at hstep
    exact hstep
  have hplace : (opened.waiting room).length < commandCapacity := by
    simp [opened, hwaiting, hcapacity]
  have hzero : asked.clients[0]? = some next := rfl
  have hposted := hasked.step (.post hzero hposts (.posted (b := boot) hstands.process hplace))
  have hqueue : posted.mailbox room = some [command] := by
    simp [posted, opened, Mailroom.post, Mailroom.put, Mailroom.waiting, hstands.mailbox]
  obtain ⟨handles, hanswered, hup, hworld, hmember, hempty⟩ :=
    hposted.answers hserve haccepts hstands.process hstands.member hqueue
      (hstands.world.symm ▸ hrun)
  refine ⟨_, hanswered, ⟨hup, hworld, hmember, hempty, rfl, rfl⟩, ?_⟩
  simp [asked, AppState.withClient]

end Runs

end

end LoroGateway
