import LoroGateway.Answered
import LoroGateway.Lib.Fleet
import LoroGateway.OwnStreams
import LoroGateway.Scripted

/-!
# The rooms of one process

`RoomManager` of `src/actor.rs`.  One process hosts an actor for each room that
was asked for.  All actors share the store, the boot id and the counter for the
batch ids of the server, an actor is started at most once by a process, and a crash
of the process is a crash of all actors.  Which batch ids come to an actor depends
on the other rooms; they may be any (`ProcessBoot`), together and alone.

`World.ofRoom` is what a room has to do with the store: its streams, and the
appends to them that are under way or in the journal.  Whatever one room does and
whatever becomes of its calls, the part of every other room stays as it is
(`World.part_serve_other`); and a call is served in the part of its room as it
is served in the whole store (`World.part_serve`).  So every room of a process
behaves as if it was alone (`rooms_reach_alone`).
-/

namespace LoroGateway

open ByteCodec CrashLogic CrashLogic.Server

open scoped Classical in
/-- The part of a disk that holds some of its streams. -/
noncomputable def Disk.part (streams : String → Prop) (d : Disk) : Disk where
  content s := if streams s then d.content s else none
  last s id := if streams s then d.last s id else none

open scoped Classical in
/-- The part of a world that is about some of its streams. -/
noncomputable def World.part (streams : String → Prop) (w : World) : World where
  disk := w.disk.part streams
  inflight := w.inflight.filter fun app => streams app.stream
  orphans := w.orphans.filter fun app => streams app.stream
  journal := w.journal.filter fun attempt => streams attempt.app.stream

namespace Disk

variable {streams : String → Prop} {d d' : Disk} {s : String} {app : Append}

theorem eq_of_streams (hcontent : ∀ s, d.content s = d'.content s)
    (hlast : ∀ s id, d.last s id = d'.last s id) : d = d' := by
  obtain ⟨content, last⟩ := d
  obtain ⟨content', last'⟩ := d'
  obtain rfl : content = content' := funext hcontent
  obtain rfl : last = last' := funext fun s => funext (hlast s)
  rfl

theorem content_part (h : streams s) : (d.part streams).content s = d.content s := if_pos h

theorem content_part_other (h : ¬ streams s) : (d.part streams).content s = none := if_neg h

theorem last_part (h : streams s) (id : String) : (d.part streams).last s id = d.last s id :=
  if_pos h

theorem last_part_other (h : ¬ streams s) (id : String) : (d.part streams).last s id = none :=
  if_neg h

theorem read_part (h : streams s) : (d.part streams).read s = d.read s := by
  unfold Disk.read
  rw [content_part h]

/-- Two disks have the same part when they agree on its streams. -/
theorem part_congr (hcontent : ∀ s, streams s → d.content s = d'.content s)
    (hlast : ∀ s id, streams s → d.last s id = d'.last s id) :
    d.part streams = d'.part streams := by
  apply eq_of_streams
  · intro s
    by_cases h : streams s
    · rw [content_part h, content_part h, hcontent s h]
    · rw [content_part_other h, content_part_other h]
  · intro s id
    by_cases h : streams s
    · rw [last_part h, last_part h, hlast s id h]
    · rw [last_part_other h, last_part_other h]

theorem part_ensure (h : streams s) : (d.ensure s).part streams = (d.part streams).ensure s := by
  apply eq_of_streams
  · intro s'
    by_cases heq : s' = s
    · subst heq
      rw [content_part h, content_ensure_self, content_ensure_self, read_part h]
    · rw [content_ensure_ne _ heq]
      by_cases hs' : streams s'
      · rw [content_part hs', content_part hs', content_ensure_ne _ heq]
      · rw [content_part_other hs', content_part_other hs']
  · exact fun _ _ => rfl

theorem part_ensure_other (h : ¬ streams s) : (d.ensure s).part streams = d.part streams := by
  apply part_congr
  · intro s' hs'
    apply content_ensure_ne
    rintro rfl
    exact h hs'
  · exact fun _ _ _ => rfl

theorem accepts_part (h : streams app.stream) : (d.part streams).Accepts app ↔ d.Accepts app := by
  unfold Accepts
  rw [last_part h, read_part h]

theorem endOffset_part (h : streams app.stream) :
    (d.part streams).endOffset app = d.endOffset app := by
  unfold endOffset
  rw [read_part h]

theorem part_accept (h : streams app.stream) :
    (d.accept app).part streams = (d.part streams).accept app := by
  apply eq_of_streams
  · intro s
    by_cases heq : s = app.stream
    · subst heq
      rw [content_part h]
      simp [accept, read_part h]
    · rw [content_accept_ne heq]
      by_cases hs : streams s
      · rw [content_part hs, content_part hs, content_accept_ne heq]
      · rw [content_part_other hs, content_part_other hs]
  · intro s id
    by_cases heq : s = app.stream ∧ id = app.producer.id
    · obtain ⟨rfl, rfl⟩ := heq
      rw [last_part h, last_accept_self, last_accept_self, endOffset_part h]
    · rw [last_accept_ne heq]
      by_cases hs : streams s
      · rw [last_part hs, last_part hs, last_accept_ne heq]
      · rw [last_part_other hs, last_part_other hs]

theorem part_append (h : streams app.stream) :
    (d.append app).part streams = (d.part streams).append app := by
  unfold append
  simp only [accepts_part h]
  split_ifs
  · exact part_accept h
  · rfl

theorem part_append_other (h : ¬ streams app.stream) :
    (d.append app).part streams = d.part streams := by
  by_cases haccepts : d.Accepts app
  · rw [append_of_accepts haccepts]
    apply part_congr
    · intro s' hs'
      apply content_accept_ne
      rintro rfl
      exact h hs'
    · intro s' id hs'
      apply last_accept_ne
      rintro ⟨rfl, _⟩
      exact h hs'
  · rw [append_of_not_accepts haccepts]

theorem appendAnswer_part (h : streams app.stream) :
    (d.part streams).appendAnswer app = d.appendAnswer app := by
  unfold appendAnswer refusal
  simp only [accepts_part h, endOffset_part h, last_part h]

theorem rangeAnswer_part (h : streams s) (offset : UInt64) (length : Nat) :
    (d.part streams).rangeAnswer s offset length = d.rangeAnswer s offset length := by
  unfold rangeAnswer
  rw [read_part h]

end Disk

namespace World

variable {streams : String → Prop} {w : World} {req : Request} {app : Append}

/-- A call is served in the part of its stream as in the whole store. -/
theorem part_serve (h : streams req.stream) (fate : Fate) :
    (w.part streams).serve fate req =
      ((w.serve fate req).1, (w.serve fate req).2.part streams) := by
  cases req with
  | ensureStream stream =>
    have hensure : (w.disk.ensure stream).part streams = (w.disk.part streams).ensure stream :=
      Disk.part_ensure h
    unfold serve
    cases fate.acts
    · rfl
    · simp only [if_true, part, hensure]
  | readAll stream =>
    have hread : (w.part streams).disk.read stream = w.disk.read stream := Disk.read_part h
    unfold serve
    simp only [hread]
  | readRange stream offset length =>
    have hrange : (w.part streams).disk.rangeAnswer stream offset length =
        w.disk.rangeAnswer stream offset length := Disk.rangeAnswer_part h offset length
    unfold serve
    simp only [hrange]
  | append stream producer body =>
    have hstream : streams (Append.mk stream producer body).stream := h
    have hstream' : streams stream := h
    have hanswer := w.disk.appendAnswer_part hstream
    have haccepts := w.disk.accepts_part hstream
    have happend := w.disk.part_append hstream
    unfold serve
    cases fate <;>
      simp only [part, Fate.acts, hanswer, haccepts, happend, hstream', List.filter_cons,
        decide_true, if_true, if_false, Bool.false_eq_true]

/-- A call about another stream does not reach the part. -/
theorem part_serve_other (h : ¬ streams req.stream) (fate : Fate) :
    (w.serve fate req).2.part streams = w.part streams := by
  cases req with
  | ensureStream stream =>
    have hensure : (w.disk.ensure stream).part streams = w.disk.part streams :=
      Disk.part_ensure_other h
    unfold serve
    cases fate.acts
    · rfl
    · simp only [if_true, part, hensure]
  | readAll stream => rfl
  | readRange stream offset length => rfl
  | append stream producer body =>
    have hstream : ¬ streams (Append.mk stream producer body).stream := h
    have hstream' : ¬ streams stream := h
    have happend := w.disk.part_append_other hstream
    unfold serve
    cases fate <;>
      simp only [part, Fate.acts, happend, hstream', List.filter_cons, decide_false, if_true,
        if_false, Bool.false_eq_true]

theorem part_deliver (h : streams app.stream) :
    (w.deliver app).part streams = (w.part streams).deliver app := by
  unfold deliver part
  rw [Disk.part_append h]

theorem part_deliver_other (h : ¬ streams app.stream) :
    (w.deliver app).part streams = w.part streams := by
  unfold deliver part
  rw [Disk.part_append_other h]

theorem mem_underWay_part (h : streams app.stream) (hmem : app ∈ w.underWay) :
    app ∈ (w.part streams).underWay := by
  unfold underWay at hmem ⊢
  simp only [part, List.mem_append, List.mem_filter, decide_eq_true_eq] at hmem ⊢
  exact hmem.imp (fun h' => ⟨h', h⟩) fun h' => ⟨h', h⟩

theorem part_crashedWorld : (crashedWorld w).part streams = crashedWorld (w.part streams) := by
  unfold crashedWorld part
  rw [List.filter_append]
  rfl

theorem part_empty : World.empty.part streams = World.empty := by
  have hdisk : Disk.empty.part streams = Disk.empty := by
    apply Disk.eq_of_streams
    · exact fun s => ite_self none
    · exact fun s id => ite_self none
  show World.mk (Disk.empty.part streams) _ _ _ = World.empty
  rw [hdisk]
  rfl

end World

/-! ## Alone -/

section Alone

variable [Hashing] {Doc : Type} [Loro Doc] {roomId : String} {config : ActorConfig}

/-- The calls of an actor are those of its room. -/
theorem RoomReachable.asks {policy : Policy Doc roomId config}
    {g : System (gateway Doc roomId config) World} (h : RoomReachable policy g) :
    g.phase.Asks (Request.In (OfRoom roomId)) := by
  have hstays : g.phase.Stays (Request.In (OfRoom roomId))
      fun a : RoomActor Doc => a.KeepsTo roomId :=
    Reachable.stays RoomActor.keeps_activate (fun c a ha => RoomActor.keeps_handle ha c) h
  exact hstays.asks

omit [Hashing] in
theorem crashedWorld_of_inflight {w : World} (h : w.inflight = []) : crashedWorld w = w := by
  obtain ⟨disk, inflight, orphans, journal⟩ := w
  cases h
  rfl

end Alone

/-! ## Together -/

section Together

variable [Hashing] {Doc : Type} [Loro Doc] {rooms : Set String} {config : ActorConfig}

/-- What a room has to do with a world. -/
noncomputable def World.ofRoom (roomId : String) (w : World) : World := w.part (OfRoom roomId)

/-- What a start gives a process: the boot id that all its actors share, and the batch ids
that will come to the actor of each room.  The counter of the process hands them out in the
order in which the actors ask, which is any order. -/
structure ProcessBoot where
  bootId : ByteArr 16
  serverBatchIds : String → Stream' UInt64

def ProcessBoot.ofRoom (boot : ProcessBoot) (roomId : String) : Boot :=
  ⟨boot.bootId, boot.serverBatchIds roomId⟩

/-- A process with its actors. -/
abbrev RoomManager (Doc : Type) [Loro Doc] (rooms : Set String) (config : ActorConfig) : Type :=
  Fleet (fun room : rooms => gateway Doc room.val config) ProcessBoot World

/-- The surroundings of a process.  Each room has a policy of its own, which speaks
of the part of the store that is the room's. -/
noncomputable def processSurroundings (policy : ∀ room : rooms, Policy Doc room.val config) :
    Fleet.Surroundings (fun room : rooms => gateway Doc room.val config) ProcessBoot World where
  serve room task w req x w' :=
    ∃ fate, (policy room).fate req fate ∧ (policy room).answer task (w.ofRoom room) req x ∧
      (x, w') = w.serve fate req
  accepts room w a events command :=
    (policy room).accept (w.ofRoom room) a (events.map (Event.map (World.ofRoom room))) command
  drift up w w' :=
    ∃ room : rooms, ∃ app ∈ w.underWay, OfRoom room.val app.stream ∧
      (policy room).deliver (up room) (w.ofRoom room) app ∧ w' = w.deliver app
  starts w boot := ∀ room : rooms, FreshBoot room.val w (boot.ofRoom room.val)
  bootOf room boot := boot.ofRoom room.val
  crash w w' := w' = crashedWorld w

/-- The runs of a process whose store holds nothing at the start. -/
def ProcessReachable (policy : ∀ room : rooms, Policy Doc room.val config) :
    RoomManager Doc rooms config → Prop :=
  Fleet.Reachable (processSurroundings policy) fun w => w = World.empty

/-- What one room sees of a process. -/
noncomputable def RoomManager.room (g : RoomManager Doc rooms config) (room : rooms) :
    System (gateway Doc room.val config) World :=
  (g.system room).map (World.ofRoom room.val)

theorem freshBoot_ofRoom {roomId : String} {w : World} {boot : Boot}
    (h : FreshBoot roomId w boot) : FreshBoot roomId (w.ofRoom roomId) boot :=
  fun attempt hmem => h attempt (List.mem_filter.1 hmem).1

/-- The rooms of a process do not meet. -/
theorem rooms_separate (policy : ∀ room : rooms, Policy Doc room.val config)
    (hfree : Set.InjOn Hashing.sha256 (utf8 '' rooms)) :
    Fleet.Separates (processSurroundings policy) (fun w => w = World.empty)
      (fun room => World.ofRoom room.val) (fun room => environment (policy room))
      (fun _ w => w = World.empty) fun room => Request.In (OfRoom room.val) := by
  have hapart : ∀ {room room' : rooms} {stream : String}, room ≠ room' →
      OfRoom room'.val stream → ¬ OfRoom room.val stream := by
    intro room room' stream hne hother hown
    apply hne
    apply Subtype.ext
    refine ofRoom_unique (hfree.mono ?_) hown hother
    rintro bytes (rfl | rfl)
    · exact ⟨_, room.property, rfl⟩
    · exact ⟨_, room'.property, rfl⟩
  constructor
  case init =>
    rintro w room rfl
    exact World.part_empty
  case asks => exact fun h => RoomReachable.asks h
  case serve =>
    rintro room task w req x w' hmine ⟨fate, hfate, hanswer, hserve⟩
    refine ⟨fate, hfate, hanswer, ?_⟩
    unfold World.ofRoom
    rw [World.part_serve hmine.stream, ← hserve]
  case apart =>
    rintro room room' task w req x w' hne hmine ⟨fate, _, _, hserve⟩
    have hnot : ¬ OfRoom room.val req.stream := hapart hne hmine.stream
    rw [(Prod.mk.inj hserve).2]
    exact World.part_serve_other hnot fate
  case accepts => exact fun h => h
  case drift =>
    rintro up w w' room ⟨room', app, hmem, hstream, hdeliver, rfl⟩
    by_cases heq : room = room'
    · subst heq
      exact .inr ⟨app, World.mem_underWay_part hstream hmem, hdeliver, World.part_deliver hstream⟩
    · exact .inl (World.part_deliver_other (hapart heq hstream))
  case starts => exact fun room events h => freshBoot_ofRoom (h room)
  case boots_drift =>
    rintro room v v' events boot hfresh ⟨app, _, _, rfl⟩
    exact hfresh
  case crash =>
    rintro w w' room rfl
    exact World.part_crashedWorld
  case crash_down =>
    rintro room w w' events hreach rfl
    unfold World.ofRoom
    rw [World.part_crashedWorld]
    exact crashedWorld_of_inflight (RoomReachable.inflight_down hreach rfl)

/-- Whatever the rooms of a process do, and in whatever order, each of them is in a
state that it reaches alone. -/
theorem rooms_reach_alone {policy : ∀ room : rooms, Policy Doc room.val config}
    (hfree : Set.InjOn Hashing.sha256 (utf8 '' rooms)) {g : RoomManager Doc rooms config}
    (h : ProcessReachable policy g) (room : rooms) : RoomReachable (policy room) (g.room room) :=
  Fleet.Reachable.reaches (rooms_separate policy hfree) h room

end Together

/-! ## Two rooms -/

section Example

open Sample

/-- A start, a join and an update, with the calls served by a host. -/
def openRoom (host : Host Request Answer World Unit) (roomId : String) (boot : Boot)
    (peer : PeerSender) (w : World) : Option ((RoomActor OpDoc × List Output) × World) :=
  match (RoomActor.activate roomId .default boot).play host [(), (), (), ()] w with
  | some (.ret a, w₁) =>
    match (RoomActor.handle (.join 1 [] peer) a).play host [] w₁ with
    | some (.ret (a₁, _), w₂) =>
      match (RoomActor.handle (.update 1 (sampleBatch 1) [[1, 0]] peer) a₁).play host [()] w₂ with
      | some (.ret r, w₃) => some (r, w₃)
      | _ => none
    | _ => none
  | _ => none

/-- The runs of an open room. -/
theorem runs_of_openRoom {host : Host Request Answer World Unit}
    {serve : Serve Request Answer World}
    {roomId : String} {boot : Boot} {peer : PeerSender} {r : RoomActor OpDoc × List Output}
    {w w' : World} (hserve : ∀ w req x w', host () w req = some (x, w') → serve w req x w')
    (hopen : openRoom host roomId boot peer w = some (r, w')) :
    ∃ a₀ a₁ outputs w₁ w₂,
      Runs serve Eq (RoomActor.activate roomId .default boot) w a₀ w₁ ∧
      Runs serve Eq (RoomActor.handle (.join 1 [] peer) a₀) w₁ (a₁, outputs) w₂ ∧
      Runs serve Eq (RoomActor.handle (.update 1 (sampleBatch 1) [[1, 0]] peer) a₁) w₂ r w' := by
  unfold openRoom at hopen
  split at hopen
  · rename_i a₀ w₁ hboot
    split at hopen
    · rename_i a₁ outputs w₂ hjoin
      split at hopen
      · rename_i r₂ w₃ hupdate
        obtain ⟨rfl, rfl⟩ := Prod.mk.inj (Option.some.inj hopen)
        refine ⟨a₀, a₁, outputs, w₁, w₂, ?_, ?_, ?_⟩
        · exact Runs.of_play (fun _ => hserve) hboot
        · exact Runs.of_play (fun _ => hserve) hjoin
        · exact Runs.of_play (fun _ => hserve) hupdate
      · cases hopen
    · cases hopen
  · cases hopen

variable {rooms : Set String}

/-- A process opens a room. -/
theorem ProcessReachable.opens {boot : ProcessBoot} (room : rooms)
    {g : RoomManager OpDoc rooms .default} {r : RoomActor OpDoc × List Output} {w : World}
    (h : ProcessReachable (fun _ => Policy.lossy) g) (hup : g.process = some boot)
    (hnew : g.member room = ⟨.down, []⟩)
    (hopen : openRoom answeredHost room.val (boot.ofRoom room.val) 7 g.world = some (r, w)) :
    ∃ events, ProcessReachable (fun _ => Policy.lossy)
      (g.withSystem room ⟨w, .idle r.1, events⟩) := by
  let policy : ∀ room : rooms, Policy OpDoc room.val .default := fun _ => .lossy
  let env := (processSurroundings policy).member boot room
  have hserve : ∀ task w req x w', answered w req x w' → env.serve task w req x w' :=
    fun _ _ _ _ _ hserve => ⟨.answered, trivial, trivial, hserve⟩
  have hhost : ∀ w req x w', answeredHost () w req = some (x, w') → answered w req x w' :=
    fun _ _ _ _ h => (Option.some.inj h).symm
  obtain ⟨a₀, a₁, _, w₁, w₂, hboot, hjoin, hupdate⟩ := runs_of_openRoom hhost hopen
  have hdown : Server.Reachable env (fun w => w = g.world) ⟨g.world, .down, []⟩ := .init rfl
  have hbooted : Server.Reachable env (fun w => w = g.world) ⟨w₁, .idle a₀, _⟩ :=
    hdown.starts (hserve _ _ _ _ _) rfl hboot
  have hjoined : Server.Reachable env (fun w => w = g.world) ⟨w₂, .idle a₁, _⟩ :=
    hbooted.handles (hserve (.command (.join 1 [] 7) a₀) _ _ _ _) trivial hjoin
  exact ⟨_, Fleet.Reachable.hosts h hup hnew (hjoined.handles
    (hserve (.command (.update 1 (sampleBatch 1) [[1, 0]] 7) a₁) _ _ _ _) trivial hupdate)⟩

theorem collisionFree_rs : Set.InjOn Hashing.sha256 (utf8 '' {"r", "s"}) := by
  have hne : Hashing.sha256 (utf8 "r") ≠ Hashing.sha256 (utf8 "s") := by decide
  rintro _ ⟨room, hroom, rfl⟩ _ ⟨room', hroom', rfl⟩ heq
  rcases hroom with rfl | rfl <;> rcases hroom' with rfl | rfl
  · rfl
  · exact absurd heq hne
  · exact absurd heq.symm hne
  · rfl

/-- The batch ids of the room `r` are odd and those of the other rooms are even, as if the
rooms drew from the counter by turns. -/
def sampleProcess (byte : UInt8) : ProcessBoot where
  bootId := (sampleBoot byte).bootId
  serverBatchIds room n := UInt64.ofNat (if room = "r" then 2 * n + 1 else 2 * n + 2)

/-- Two rooms of one process, both with an update. -/
theorem rooms_reach_alone_two :
    ∃ g : RoomManager OpDoc {"r", "s"} .default,
      ProcessReachable (fun _ => Policy.lossy) g ∧
      (∀ room, ∃ a, (g.member room).phase = .idle a ∧ a.history ≠ []) ∧
      ∀ room, RoomReachable Policy.lossy (g.room room) := by
  let boot := sampleProcess 1
  have hrun : ((openRoom answeredHost "r" (boot.ofRoom "r") 7 World.empty).any fun r =>
      decide (r.1.1.history ≠ []) && (openRoom answeredHost "s" (boot.ofRoom "s") 7 r.2).any
        fun s => decide (s.1.1.history ≠ [])) = true := by
    decide +kernel
  obtain ⟨⟨⟨a, _⟩, w⟩, hr, hrest⟩ := (Option.any_eq_true _ _).mp hrun
  obtain ⟨hhistory, hrest⟩ := Bool.and_eq_true_iff.mp hrest
  obtain ⟨⟨⟨a', _⟩, w'⟩, hs, hhistory'⟩ := (Option.any_eq_true _ _).mp hrest
  let rooms : Set String := {"r", "s"}
  let r : rooms := ⟨"r", .inl rfl⟩
  let s : rooms := ⟨"s", .inr rfl⟩
  have hne : s ≠ r := by
    intro heq
    exact absurd (congrArg Subtype.val heq) (by decide)
  let policy : ∀ room : rooms, Policy OpDoc room.val .default := fun _ => .lossy
  have hinit : ProcessReachable policy ⟨World.empty, none, fun _ => ⟨.down, []⟩⟩ := .init rfl
  have hstart : ProcessReachable policy ⟨World.empty, some boot, fun _ => ⟨.down, []⟩⟩ :=
    hinit.step (.start rfl fun room attempt hmem => absurd hmem List.not_mem_nil)
  obtain ⟨events, hfirst⟩ := ProcessReachable.opens r hstart rfl rfl hr
  obtain ⟨events', hsecond⟩ := ProcessReachable.opens s hfirst rfl
    (Fleet.member_withSystem_ne _ hne _) hs
  refine ⟨_, hsecond, ?_, rooms_reach_alone collisionFree_rs hsecond⟩
  rintro ⟨room, rfl | rfl⟩
  · refine ⟨a, ?_, of_decide_eq_true hhistory⟩
    rw [Fleet.member_withSystem_ne _ hne.symm, Fleet.member_withSystem_self]
  · refine ⟨a', ?_, of_decide_eq_true hhistory'⟩
    rw [Fleet.member_withSystem_self]

end Example

end LoroGateway
