import LoroGateway.Acknowledged
import LoroGateway.AnswerOrder
import LoroGateway.Quiet

/-!
# What a client is told is in the logs

The gateway tells a client that a batch is stored.  The theorem of the module says what
is in the store then: a frame with the batch id, and with the updates that this very
client has offered under that id, in one message or in fragments.  Two
acknowledgements never stand for one frame.  It holds for all rooms and all clients of
the gateway at once, over all processes.

The proof joins three facts: the acknowledgements on the channels are those of the rooms
(`AppReachable.tells`), a command that a room knows was posted by its client
(`AppReachable.offered`), and the acknowledged frames of a room are in its logs
(`RoomReachable.acked`).
-/

namespace LoroGateway

open ByteCodec CrashLogic CrashLogic.Server

/-! ## The acknowledgements of success -/

/-- A message on a channel that says that a batch of a room is stored. -/
def Outbound.grant (roomId : String) : PeerSender × Outbound → Option (PeerSender × BatchId)
  | (peer, .protocol .loro (.ack target refId .ok)) =>
    if target = roomId then some (peer, refId) else none
  | _ => none

namespace AppState

variable [Hashing] {Doc : Type} [Loro Doc] {rooms : Set String} {config : ActorConfig}

/-- All that was put on the channels of the connections, the oldest first. -/
def channels (app : AppState Doc rooms config) : List (PeerSender × Outbound) :=
  app.sent.filterMap Sent.outbound

/-- Who was told that which batch of a room is stored. -/
def granted (app : AppState Doc rooms config) (roomId : String) : List (PeerSender × BatchId) :=
  app.channels.filterMap (Outbound.grant roomId)

end AppState

/-- An output that says that a batch is stored. -/
def Output.grant : Output → Option (PeerSender × BatchId)
  | .send peer (.ack _ refId .ok) => some (peer, refId)
  | _ => none

def grantsIn (outputs : List Output) : List (PeerSender × BatchId) := outputs.filterMap Output.grant

theorem ackedIn_eq (outputs : List Output) : ackedIn outputs = (grantsIn outputs).map Prod.snd := by
  unfold ackedIn grantsIn
  rw [List.map_filterMap]
  congr 1
  funext output
  cases output with
  | respond | activated => rfl
  | send peer message =>
    cases message with
    | ack roomId refId status => cases status <;> rfl
    | _ => rfl

section Outputs

variable {outputs : List Output} {peer : PeerSender} {refId : BatchId}

/-- A batch that is said to be stored is acknowledged. -/
theorem mem_acksIn_of_grant (h : (peer, refId) ∈ grantsIn outputs) :
    ∃ roomId, (peer, roomId, refId) ∈ acksIn outputs := by
  have ⟨output, hmem, hgrant⟩ := List.mem_filterMap.1 h
  cases output with
  | respond | activated => simp [Output.grant] at hgrant
  | send target message =>
    cases message with
    | ack roomId batchId status =>
      cases status with
      | ok =>
        simp only [Output.grant, Option.some.injEq, Prod.mk.injEq] at hgrant
        refine ⟨roomId, List.mem_map.2 ⟨(target, roomId, batchId, .ok), ?_, by simp [hgrant]⟩⟩
        exact List.mem_filterMap.2 ⟨_, hmem, rfl⟩
      | _ => simp [Output.grant] at hgrant
    | _ => simp [Output.grant] at hgrant

/-- A command that is answered as it is due stands behind each success. -/
theorem grant_of_due {roomId : String} {command : Command}
    (hdue : acksIn outputs = command.acksDue roomId)
    (h : (peer, refId) ∈ grantsIn outputs) :
    ∃ connectionId, command = .update connectionId refId command.updates peer := by
  have ⟨target, hmem⟩ := mem_acksIn_of_grant h
  rw [hdue] at hmem
  cases command with
  | update connectionId batchId updates sender =>
    simp only [Command.acksDue, List.mem_singleton, Prod.mk.injEq] at hmem
    exact ⟨connectionId, by rw [hmem.1, hmem.2.2]; rfl⟩
  | join | leave | retryAmbiguous | waitForActivation | rotate => simp [Command.acksDue] at hmem

/-- The acknowledgements of a room name the room. -/
theorem room_of_due {roomId target : String} {command : Command} {status : UpdateStatusCode}
    (hdue : acksIn outputs = command.acksDue roomId)
    (h : .send peer (.ack target refId status) ∈ outputs) : target = roomId := by
  have hack : (peer, target, refId) ∈ acksIn outputs :=
    List.mem_map.2 ⟨(peer, target, refId, status), List.mem_filterMap.2 ⟨_, h, rfl⟩, rfl⟩
  rw [hdue] at hack
  cases command with
  | update => simp_all [Command.acksDue]
  | join | leave | retryAmbiguous | waitForActivation | rotate => simp [Command.acksDue] at hack

/-- What the outputs of a room put on the channels about a room. -/
theorem grants_outputs {rooms : Set String} (room : rooms) {roomId : String} {command : Command}
    (hdue : acksIn outputs = command.acksDue room.val) :
    ((outputs.map (Sent.room room)).filterMap Sent.outbound).filterMap (Outbound.grant roomId) =
      if room.val = roomId then grantsIn outputs else [] := by
  have heach : ∀ output ∈ outputs, (output.outbound.bind (Outbound.grant roomId)) =
      if room.val = roomId then output.grant else none := by
    intro output hmem
    cases output with
    | respond | activated => simp [Output.outbound, Output.grant]
    | send sender message =>
      cases message with
      | ack target batchId status =>
        have htarget := room_of_due hdue hmem
        subst htarget
        cases status <;> simp [Output.outbound, Outbound.grant, Output.grant]
      | _ => simp [Output.outbound, Outbound.grant, Output.grant]
  rw [List.filterMap_map, List.filterMap_filterMap]
  show outputs.filterMap (fun output => output.outbound.bind (Outbound.grant roomId)) = _
  rw [List.filterMap_congr heach]
  split_ifs
  · rfl
  · exact List.filterMap_eq_nil_iff.mpr fun _ _ => rfl

/-- The successes are some of the acknowledgements. -/
theorem grantsIn_eq (outputs : List Output) : grantsIn outputs =
    (outputs.filterMap Output.ack?).filterMap fun ack =>
      if ack.2.2.2 = .ok then some (ack.1, ack.2.2.1) else none := by
  rw [List.filterMap_filterMap]
  unfold grantsIn
  congr 1
  funext output
  cases output with
  | respond | activated => rfl
  | send peer message =>
    cases message with
    | ack roomId refId status => cases status <;> rfl
    | _ => rfl

/-- A command is told of one success at most. -/
theorem grantsIn_reverse {roomId : String} {command : Command}
    (hdue : acksIn outputs = command.acksDue roomId) :
    (grantsIn outputs).reverse = grantsIn outputs := by
  have hlength : (grantsIn outputs).length ≤ 1 := by
    rw [grantsIn_eq]
    refine (List.length_filterMap_le _ _).trans ?_
    have hacks := congrArg List.length hdue
    unfold acksIn at hacks
    rw [List.length_map] at hacks
    rw [hacks]
    cases command <;> simp [Command.acksDue]
  cases hgrants : grantsIn outputs with
  | nil => rfl
  | cons grant rest =>
    rw [hgrants, List.length_cons] at hlength
    rw [List.length_eq_zero_iff.1 (show rest.length = 0 by omega)]
    rfl

/-- What a connection lets out itself says of no batch that it is stored. -/
theorem grants_session {rooms : Set String} {s : Session} {turns : List Input}
    {effects : List Effect}
    (hout : Connection.LetsOut s turns effects) (roomId : String) :
    ((effects.map (Sent.session peer : Effect → Sent rooms)).filterMap Sent.outbound).filterMap
      (Outbound.grant roomId) = [] := by
  rw [List.filterMap_map, List.filterMap_filterMap]
  apply List.filterMap_eq_nil_iff.mpr
  intro effect hmem
  have hrefusal : effect.Refusal ∨ ∃ target command, effect = .room target command := by
    cases hout with
    | refusals h => exact .inl (h effect hmem)
    | post => exact .inr ⟨_, _, List.mem_singleton.1 hmem⟩
  rcases hrefusal with hrefusal | ⟨target, command, rfl⟩
  · cases effect with
    | joinError crdt => cases crdt <;> rfl
    | ack crdt target refId status =>
      cases crdt with
      | other tag => rfl
      | loro =>
        cases status with
        | ok => exact absurd rfl hrefusal
        | _ => rfl
    | room => exact hrefusal.elim
  · rfl

end Outputs

/-- The connections of which one has gone on. -/
theorem getElem?_set_cases {α : Type} {l : List α} {i j : Nat} {held next x : α}
    (hget : l[i]? = some held) (h : (l.set i next)[j]? = some x) :
    i = j ∧ x = next ∨ l[j]? = some x := by
  by_cases heq : i = j
  · subst heq
    rw [List.getElem?_set_self (List.getElem?_eq_some_iff.1 hget).1] at h
    exact .inl ⟨rfl, (Option.some.inj h).symm⟩
  · rw [List.getElem?_set_ne heq] at h
    exact .inr h

/-! ## The channels and the rooms -/

section Rooms

variable [Hashing] {Doc : Type} [Loro Doc]

/-- The batches that a room has said to be stored, with their updates, the newest
first. -/
def grants {roomId : String} {config : ActorConfig}
    (events : List (Event (gateway Doc roomId config) World)) :
    List (PeerSender × BatchId × List Bytes) :=
  events.flatMap fun
    | .handled command _ _ outputs _ _ =>
      (grantsIn outputs).map fun grant => (grant.1, grant.2, command.updates)
    | _ => []

variable {rooms : Set String} {config : ActorConfig}
  {policy : ∀ room : rooms, Policy Doc room.val config} {serverConfig : ServerConfig}
  {commandCapacity : Nat} {app app' : AppState Doc rooms config}

omit [Hashing] in
theorem granted_append (sent later : List (Sent rooms)) (roomId : String) :
    ((sent ++ later).filterMap Sent.outbound).filterMap (Outbound.grant roomId) =
      (sent.filterMap Sent.outbound).filterMap (Outbound.grant roomId) ++
        (later.filterMap Sent.outbound).filterMap (Outbound.grant roomId) := by
  rw [List.filterMap_append, List.filterMap_append]

/-- The successes on the channels are those of the rooms. -/
def Tells (app : AppState Doc rooms config) (room : rooms) : Prop :=
  app.granted room.val =
    ((grants (app.handles.fleet.member room).events).map fun grant => (grant.1, grant.2.1)).reverse

/-- A step at which the room answers nothing and nobody is told of a success. -/
theorem Tells.frame {room : rooms} (h : Tells app room)
    (hgranted : app'.granted room.val = app.granted room.val)
    (hevents : grants (app'.handles.fleet.member room).events =
      grants (app.handles.fleet.member room).events) : Tells app' room := by
  unfold Tells at *
  rw [hgranted, hevents, h]

/-- In a step of the mailboxes that answers nothing, no room tells of a success. -/
theorem grants_history {sign : Sign (fun room : rooms => gateway Doc room.val config) ProcessBoot}
    {handles handles' : RoomHandles Doc rooms config}
    (h : Mailroom.Step (processSurroundings policy) commandCapacity handles sign handles')
    {room : rooms} (hsign : ∀ outputs, sign ≠ .answered room outputs) :
    grants (handles'.fleet.member room).events = grants (handles.fleet.member room).events :=
  h.history hsign (fun _ _ _ => rfl) rfl

theorem Tells.step (hreach : AppReachable policy serverConfig commandCapacity app)
    (hstep : AppState.Step policy serverConfig commandCapacity app app') {room : rooms}
    (h : Tells app room) : Tells app' room := by
  cases hstep with
  | start hnext | work hnext | crash hnext | operate _ hnext =>
    exact h.frame rfl (grants_history hnext (by simp))
  | connect => exact h.frame rfl rfl
  | ping =>
    refine h.frame ?_ rfl
    refine (granted_append app.sent _ _).trans ?_
    exact List.append_nil _
  | turn hget hstage hturn =>
    have hserves := hreach.serves _ _ (.inl hget) (by simp [hstage])
    refine h.frame ?_ rfl
    refine (granted_append app.sent _ _).trans ?_
    rw [grants_session (hserves.letsOut (Client.turned hturn))]
    exact List.append_nil _
  | ask hget hstage hturn hposts hnext =>
    have hserves := hreach.serves _ _ (.inl hget) (by simp [hstage])
    refine h.frame ?_ (grants_history hnext (by simp))
    refine (granted_append app.sent _ _).trans ?_
    rw [grants_session (hserves.letsOut (Client.turned hturn))]
    exact List.append_nil _
  | post hget hstage hnext | leave hget hstage hnext =>
    refine h.frame ?_ (grants_history hnext (by simp))
    refine (granted_append app.sent _ _).trans ?_
    exact List.append_nil _
  | hangUp =>
    refine h.frame ?_ rfl
    refine (granted_append app.sent _ _).trans ?_
    exact List.append_nil _
  | @answer room' outputs handles hnext =>
    have ⟨command, before, a, a', hphase, _, hevents, hothers⟩ := hnext.answered_append
    have hphases := (hreach.process.due room').1
    rw [hphase] at hphases
    have hdue : acksIn outputs = command.acksDue room'.val := hphases.2
    unfold Tells at *
    refine (granted_append app.sent _ _).trans ?_
    rw [grants_outputs room' hdue]
    show app.granted room.val ++ _ = ((grants (handles.fleet.member room).events).map _).reverse
    rw [h]
    by_cases hroom : room = room'
    · subst hroom
      rw [if_pos rfl, hevents, ← grantsIn_reverse hdue, ← List.reverse_append]
      congr 1
      simp [grants, Function.comp_def]
    · have hne : room'.val ≠ room.val := fun heq => hroom (Subtype.ext heq.symm)
      rw [if_neg hne, hothers room hroom, List.append_nil]

theorem AppReachable.tells (h : AppReachable policy serverConfig commandCapacity app)
    (room : rooms) :
    Tells app room := by
  induction h with
  | init => rfl
  | step hreach hstep ih => exact Tells.step hreach hstep ih

/-! ## The commands and the clients -/

/-- An update that a command brings was offered by its client. -/
def FromClient (app : AppState Doc rooms config) (roomId : String) (command : Command) : Prop :=
  ∀ connectionId batchId updates peer, command = .update connectionId batchId updates peer →
    ∃ client, app.clients[peer]? = some client ∧ Offers client.turns { roomId, batchId } updates

/-- Every connection keeps its place and its turns. -/
def AppState.Extends (app app' : AppState Doc rooms config) : Prop :=
  ∀ (peer : PeerSender) client, app.clients[peer]? = some client →
    ∃ client', app'.clients[peer]? = some client' ∧ client.turns ⊆ client'.turns

theorem FromClient.mono (hext : app.Extends app') {roomId : String} {command : Command}
    (h : FromClient app roomId command) : FromClient app' roomId command := by
  intro connectionId batchId updates peer hcommand
  have ⟨client, hget, hoffers⟩ := h connectionId batchId updates peer hcommand
  have ⟨client', hget', hsub⟩ := hext peer client hget
  exact ⟨client', hget', hoffers.mono hsub⟩

theorem AppState.Extends.of_eq (h : app'.clients = app.clients) : app.Extends app' :=
  fun _ client hget => ⟨client, by rw [h, hget], List.Subset.refl _⟩

theorem AppState.Extends.of_set {peer : PeerSender} {client next : Client}
    (hget : app.clients[peer]? = some client) (hsub : client.turns ⊆ next.turns)
    (h : app'.clients = app.clients.set peer next) : app.Extends app' := by
  intro other held hheld
  by_cases heq : peer = other
  · subst heq
    have hlt := (List.getElem?_eq_some_iff.1 hget).1
    rw [hget] at hheld
    refine ⟨next, by rw [h, List.getElem?_set_self hlt], ?_⟩
    rwa [← Option.some.inj hheld]
  · exact ⟨held, by rw [h, List.getElem?_set_ne heq, hheld], List.Subset.refl _⟩

theorem AppState.Step.extends (h : Step policy serverConfig commandCapacity app app') :
    app.Extends app' := by
  cases h with
  | start | ping | operate | work | answer => exact .of_eq rfl
  | connect =>
    intro peer client hget
    have hlt := (List.getElem?_eq_some_iff.1 hget).1
    exact ⟨client, by rw [List.getElem?_append_left hlt, hget], List.Subset.refl _⟩
  | turn hget hstage hturn =>
    exact .of_set hget (by rw [(Client.turned hturn).turns]; exact List.subset_append_left _ _) rfl
  | ask hget hstage hturn =>
    exact .of_set hget (by rw [(Client.turned hturn).turns]; exact List.subset_append_left _ _) rfl
  | post hget | hangUp hget | leave hget =>
    refine .of_set hget ?_ rfl
    exact List.Subset.refl _
  | crash =>
    intro peer client hget
    refine ⟨{ client with stage := .lost }, ?_, List.Subset.refl _⟩
    show (app.clients.map _)[peer]? = _
    rw [List.getElem?_map, hget]
    rfl

/-- What the rooms know, and what waits to be posted, comes from the clients. -/
structure Genuine (app : AppState Doc rooms config) : Prop where
  known : ∀ room command, app.handles.Known room command → FromClient app room.val command
  posting : ∀ (peer : PeerSender) client roomId command, app.clients[peer]? = some client →
    client.stage = .posting roomId command → FromClient app roomId command

/-- The commands after a step of the mailboxes. -/
theorem Genuine.knows (h : Genuine app) (hext : app.Extends app')
    {sign : Sign (fun room : rooms => gateway Doc room.val config) ProcessBoot}
    (hnext : Mailroom.Step (processSurroundings policy) commandCapacity app.handles sign
      app'.handles)
    (hsign : ∀ room command, sign = .posted room command → FromClient app room.val command)
    (room : rooms) (command : Command) (hknown : app'.handles.Known room command) :
    FromClient app' room.val command := by
  rcases hnext.known hknown with hold | hposted
  · exact (h.known room command hold).mono hext
  · exact (hsign room command hposted).mono hext

/-- A command that is no update needs no source. -/
theorem FromClient.of_operates {roomId : String} {command : Command}
    (h : AppState.Operates command) :
    FromClient app roomId command := by
  intro connectionId batchId updates peer hcommand
  rw [hcommand] at h
  exact h.elim

theorem FromClient.leave {roomId : String} {connectionId : UInt64} :
    FromClient app roomId (.leave connectionId) := by
  intro _ _ _ _ hcommand
  cases hcommand

/-- A command that a connection lets out was offered on it. -/
theorem FromClient.of_posts {s : Session} {client : Client} {roomId : String} {command : Command}
    (hget : app.clients[s.outbound]? = some client) (h : Posts s client.turns roomId command) :
    FromClient app roomId command := by
  intro connectionId batchId updates peer hcommand
  cases h with
  | join | leave => cases hcommand
  | update hoffers =>
    cases hcommand
    exact ⟨client, hget, hoffers⟩

theorem Genuine.stages (h : Genuine app) (hext : app.Extends app')
    (hstages : ∀ (peer : PeerSender) client roomId command, app'.clients[peer]? = some client →
      client.stage = .posting roomId command →
      app.clients[peer]? = some client ∨ FromClient app' roomId command) :
    ∀ (peer : PeerSender) client roomId command, app'.clients[peer]? = some client →
      client.stage = .posting roomId command → FromClient app' roomId command := by
  intro peer client roomId command hget hstage
  rcases hstages peer client roomId command hget hstage with hold | hnew
  · exact (h.posting peer client roomId command hold hstage).mono hext
  · exact hnew

theorem Genuine.step (hreach : AppReachable policy serverConfig commandCapacity app)
    (hstep : AppState.Step policy serverConfig commandCapacity app app') (h : Genuine app) :
    Genuine app' := by
  have hext := hstep.extends
  cases hstep with
  | start hnext | work hnext | answer hnext =>
    refine ⟨h.knows hext hnext (by simp), h.stages hext fun peer client roomId command hget _ => ?_⟩
    exact .inl hget
  | ping =>
    refine ⟨fun room command hknown => (h.known room command hknown).mono hext,
      h.stages hext fun peer client roomId command hget _ => ?_⟩
    exact .inl hget
  | connect =>
    refine ⟨fun room command hknown => (h.known room command hknown).mono hext,
      h.stages hext fun peer client roomId command hget hstage => ?_⟩
    by_cases hlt : peer < app.clients.length
    · rw [List.getElem?_append_left hlt] at hget
      exact .inl hget
    · rw [List.getElem?_append_right (not_lt.1 hlt), List.getElem?_singleton] at hget
      split_ifs at hget
      rw [← Option.some.inj hget] at hstage
      cases hstage
  | turn hget hstage hturn hsilent =>
    refine ⟨fun room command hknown => (h.known room command hknown).mono hext,
      h.stages hext fun peer client roomId command hclient hposting => ?_⟩
    rcases getElem?_set_cases hget hclient with ⟨_, hnext⟩ | hold
    · rw [hnext, hsilent] at hposting
      cases hposting
    · exact .inl hold
  | @ask peer held next input effects room command handles hget hstage hturn hposts hopen =>
    refine ⟨h.knows hext hopen (by simp),
      h.stages hext fun other client roomId c hclient hposting => ?_⟩
    rcases getElem?_set_cases hget hclient with ⟨hpeer, hnext⟩ | hold
    · subst hpeer hnext
      have hturned := Client.turned hturn
      have hout := (hreach.serves _ _ (.inl hget) (by simp [hstage])).letsOut hturned
      have hafter := hturned.stage
      rw [hposting] at hafter
      cases hout with
      | refusals hrefusals =>
        have hnone : effects.findSome? Effect.post = none :=
          List.findSome?_eq_none_iff.mpr fun effect heffect => (hrefusals effect heffect).post
        rw [Client.stageAfter, hnone] at hafter
        cases hafter
      | post hfrom =>
        cases hafter
        exact .inr (FromClient.of_posts (s := held.session serverConfig peer) hclient hfrom)
    · exact .inl hold
  | @post peer held room command handles hget hstage hnext =>
    constructor
    · refine h.knows hext hnext ?_
      intro room' command' hsign
      cases hsign
      exact h.posting peer held room.val command hget hstage
    · refine h.stages hext fun other client roomId c hclient hposting => ?_
      rcases getElem?_set_cases hget hclient with ⟨_, hnext⟩ | hold
      · rw [hnext] at hposting
        cases hposting
      · exact .inl hold
  | hangUp hget hstage =>
    refine ⟨fun room command hknown => (h.known room command hknown).mono hext,
      h.stages hext fun peer client roomId command hclient hposting => ?_⟩
    rcases getElem?_set_cases hget hclient with ⟨_, hnext⟩ | hold
    · rw [hnext] at hposting
      cases hposting
    · exact .inl hold
  | leave hget hstage hnext =>
    constructor
    · refine h.knows hext hnext ?_
      intro room' command' hsign
      cases hsign
      exact FromClient.leave
    · refine h.stages hext fun other client roomId c hclient hposting => ?_
      rcases getElem?_set_cases hget hclient with ⟨_, hnext⟩ | hold
      · rw [hnext] at hposting
        cases hposting
      · exact .inl hold
  | operate hoperates hnext =>
    refine ⟨h.knows hext hnext ?_, h.stages hext fun peer client roomId command hget _ => .inl hget⟩
    intro room' command' hsign
    cases hsign
    exact FromClient.of_operates hoperates
  | crash hnext =>
    refine ⟨h.knows hext hnext (by simp),
      h.stages hext fun peer client roomId command hget hstage => ?_⟩
    have hget : (app.clients.map fun c => { c with stage := Stage.lost })[peer]? = some client :=
      hget
    rw [List.getElem?_map] at hget
    obtain ⟨held, _, hheld⟩ := Option.map_eq_some_iff.1 hget
    rw [← hheld] at hstage
    cases hstage

theorem AppReachable.genuine (h : AppReachable policy serverConfig commandCapacity app) :
    Genuine app := by
  induction h with
  | init =>
    constructor
    · intro room command hknown
      simp [Mailroom.Known, AppState.initial, Mailroom.inHand, Mailroom.waiting, Phase.command]
        at hknown
    · intro peer client roomId command hget
      simp [AppState.initial] at hget
  | step hreach hstep ih => exact ih.step hreach hstep

/-- Each success belongs to a frame that the actor made of the batch. -/
theorem grants_forall₂_ackedFrames {roomId : String} (view : World → World)
    (events : List (Event (gateway Doc roomId config) World)) :
    List.Forall₂ (fun grant entry => entry.2.batchId = grant.2.1 ∧ entry.2.updates = grant.2.2)
      (grants events) (ackedFrames (events.map (Event.map view))) := by
  induction events with
  | nil => exact .nil
  | cons event events ih =>
    rw [List.map_cons, grants, ackedFrames, List.flatMap_cons, List.flatMap_cons]
    refine List.rel_append ?_ ih
    cases event with
    | handled command before a outputs after a' =>
      show List.Forall₂ _ _ ((ackedIn outputs).map _)
      rw [ackedIn_eq, List.map_map, List.forall₂_map_left_iff, List.forall₂_map_right_iff,
        List.forall₂_same]
      exact fun grant _ => ⟨rfl, rfl⟩
    | booted b after a => exact .nil
    | crashed => exact .nil

/-- Behind each success stands an update that the client has offered. -/
theorem AppReachable.offered (h : AppReachable policy serverConfig commandCapacity app)
    {room : rooms}
    {peer : PeerSender} {refId : BatchId} {updates : List Bytes}
    (hgrant : (peer, refId, updates) ∈ grants (app.handles.fleet.member room).events) :
    ∃ client, app.clients[peer]? = some client ∧
      Offers client.turns { roomId := room.val, batchId := refId } updates := by
  have ⟨event, hevent, hmem⟩ := List.mem_flatMap.1 hgrant
  cases event with
  | booted | crashed => simp at hmem
  | handled command before a outputs after a' =>
    have ⟨grant, hin, heq⟩ := List.mem_map.1 hmem
    obtain ⟨sender, batchId⟩ := grant
    cases heq
    have hdue : acksIn outputs = command.acksDue room.val := (h.process.due room).2 _ hevent
    have ⟨connectionId, hcommand⟩ := grant_of_due hdue hin
    have hknown : app.handles.Known room command :=
      .inl (List.mem_filterMap.2 ⟨_, hevent, rfl⟩)
    exact h.genuine.known room command hknown connectionId _ _ _ hcommand

/-- In every state of the gateway, the successes that the clients were told about a room
stand for different frames in the logs of the room.  The frame of a success carries its
batch id and the updates that its client has offered under that id. -/
theorem client_acks_are_frames (honest : ∀ room, (policy room).Honest)
    (hproducers : ∀ room : rooms, Set.InjOn Hashing.sha256
      {input | ∃ bootId generation, input = producerInput bootId room.val generation})
    (hfree : Set.InjOn Hashing.sha256 (utf8 '' rooms))
    (h : AppReachable policy serverConfig commandCapacity app) (room : rooms) :
    ∃ logs : GenerationId → List DeltaFrame,
      (∀ generation, (logs generation).Nodup ∧
        (∀ frame ∈ logs generation, frame.Valid config.frameLimits) ∧
        app.handles.fleet.world.disk.read (deltaStreamForGeneration room.val generation).physical =
          logBytes config.frameLimits (logs generation)) ∧
      ∃ entries : List (GenerationId × DeltaFrame), entries.Nodup ∧
        List.Forall₂ (fun grant entry => entry.2 ∈ logs entry.1 ∧ entry.2.batchId = grant.2 ∧
          ∃ client, app.clients[grant.1]? = some client ∧
            Offers client.turns { roomId := room.val, batchId := grant.2 } entry.2.updates)
          (app.granted room.val) entries := by
  have hreach := h.alone hfree room
  choose logs hlogs using hreach.kept.delta.logs
  have hacked := hreach.acked (honest room) (hproducers room)
  have hread : ∀ generation,
      (app.alone room).world.disk.read
        (deltaStreamForGeneration room.val generation).physical =
      app.handles.fleet.world.disk.read (deltaStreamForGeneration room.val generation).physical :=
    fun generation => Disk.read_part (ofRoom_delta generation)
  refine ⟨logs, fun generation => ⟨(hlogs generation).nodup, (hlogs generation).valid, ?_⟩,
    (ackedFrames (app.alone room).events).reverse,
    List.nodup_reverse.2 hacked.nodup, ?_⟩
  · rw [← hread]
    exact (hlogs generation).content
  · rw [h.tells room, List.forall₂_reverse_iff, List.forall₂_map_left_iff]
    have hmade := grants_forall₂_ackedFrames (World.ofRoom room.val)
      (app.handles.fleet.member room).events
    have hstored := hacked.mem_logs hlogs
    have hoffered : ∀ grant ∈ grants (app.handles.fleet.member room).events,
        ∃ client, app.clients[grant.1]? = some client ∧
          Offers client.turns { roomId := room.val, batchId := grant.2.1 } grant.2.2 :=
      fun grant hmem => h.offered hmem
    have hleft := (List.forall₂_and_left _ _).2 ⟨hoffered, hmade⟩
    have hboth := (List.forall₂_and_left _ _).2 ⟨hstored, hleft.flip⟩
    refine hboth.flip.imp ?_
    intro grant entry hentry
    obtain ⟨hmem, ⟨client, hget, hoffers⟩, hbatch, hupdates⟩ := hentry
    refine ⟨hmem, hbatch, client, hget, ?_⟩
    rw [hupdates]
    exact hoffers

end Rooms

section Example

open Sample

/-- The client of the sample run was told that its batch is stored. -/
theorem client_acks_are_frames_once :
    ∃ (app : AppState OpDoc {"r"} .default) (logs : GenerationId → List DeltaFrame)
      (entries : List (GenerationId × DeltaFrame)),
      AppReachable (fun _ => Policy.lossy) .default 128 app ∧
      (0, sampleBatch 1) ∈ app.granted "r" ∧ entries.Nodup ∧
      (∀ generation, app.handles.fleet.world.disk.read
        (deltaStreamForGeneration "r" generation).physical = logBytes .default (logs generation)) ∧
      List.Forall₂ (fun grant entry => entry.2 ∈ logs entry.1 ∧ entry.2.batchId = grant.2 ∧
        ∃ client, app.clients[grant.1]? = some client ∧
          Offers client.turns { roomId := "r", batchId := grant.2 } entry.2.updates)
        (app.granted "r") entries := by
  obtain ⟨app, _, _, _, hreach, _, _, hsent⟩ := AppReachable.sample
  have hgranted : (0, sampleBatch 1) ∈ app.granted "r" :=
    List.mem_filterMap.2 ⟨_, List.mem_filterMap.2 ⟨_, hsent, rfl⟩, rfl⟩
  have hfree : Set.InjOn Hashing.sha256 (utf8 '' {"r"}) := by
    rw [Set.image_singleton]
    exact Set.injOn_singleton _ _
  have honest : ∀ room : ({"r"} : Set String),
      (Policy.lossy : Policy OpDoc room.val .default).Honest := fun _ => Policy.lossy_quiet.honest
  have hproducers : ∀ room : ({"r"} : Set String), Set.InjOn Hashing.sha256
      {input | ∃ bootId generation, input = producerInput bootId room.val generation} := by
    intro room
    have hroom : room.val = "r" := room.property
    rw [hroom]
    exact injOn_producerInput
  obtain ⟨logs, hlogs, entries, hnodup, hentries⟩ :=
    client_acks_are_frames honest hproducers hfree hreach ⟨"r", rfl⟩
  exact ⟨app, logs, entries, hreach, hgranted, hnodup, fun generation => (hlogs generation).2.2,
    hentries⟩

end Example

end LoroGateway
