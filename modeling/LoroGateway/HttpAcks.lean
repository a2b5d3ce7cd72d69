import LoroGateway.Acknowledged
import LoroGateway.HttpGateway
import LoroGateway.Quiet

/-!
# What is acknowledged over HTTP is at the nodes

A room over HTTP acknowledges a batch.  The frame of the batch is then on the disk of the
nodes, in the stream of its generation, and two acknowledgements never stand for one frame.
Redirects, retries, lost answers and appends that arrive late do not change this.

The state of the room is one that it reaches over the trait (`nodes_carry`), where the
acknowledged frames are in their logs (`RoomReachable.acked`); the nodes show the same
streams.
-/

namespace LoroGateway

open ByteCodec CrashLogic CrashLogic.Server

section

variable [Reqwest] [Hashing] {Doc : Type} [Loro Doc] {roomId : String} {config : ActorConfig}
  {client : HttpUrsula} {late : Bool}

/-- The acknowledged batches of a run over HTTP with their updates, the newest first. -/
def acksOverHttp (events : List (Event (httpGateway Doc roomId config client) Cluster)) :
    List (BatchId × List Bytes) :=
  events.flatMap fun
    | .handled command _ _ outputs _ _ =>
      (ackedIn outputs).map fun refId => (refId, Command.updates command)
    | _ => []

/-- The same batches are acknowledged over HTTP and over the trait. -/
theorem acksOverHttp_eq {R : Cluster → World → Prop}
    {events : List (Event (httpGateway Doc roomId config client) Cluster)}
    {events' : List (Event (gateway Doc roomId config) World)}
    (h : List.Forall₂ (Event.Like R) events events') : acksOverHttp events = acks events' := by
  induction h with
  | nil => rfl
  | cons hevent _ ih =>
    rw [acksOverHttp, acks, List.flatMap_cons, List.flatMap_cons]
    refine congrArg₂ (· ++ ·) ?_ ih
    cases hevent with
    | booted | handled | crashed => rfl

omit [Reqwest] in
theorem nodesPolicy_honest : (nodesPolicy late : Policy Doc roomId config).Honest := by
  cases late with
  | true => exact Policy.late_honest
  | false => exact Policy.lossy_quiet.honest

/-- In every state that a room reaches over HTTP, the acknowledged batches stand for
different frames, and the nodes hold these frames in the delta streams of the room. -/
theorem http_acks_are_frames (hpaths : DistinctPaths client roomId)
    (hinj : Set.InjOn Hashing.sha256
      {input | ∃ bootId generation, input = producerInput bootId roomId generation})
    {g : System (httpGateway Doc roomId config client) Cluster} (h : HttpReachable client late g) :
    ∃ logs : GenerationId → List DeltaFrame,
      (∀ generation, (logs generation).Nodup ∧
        (∀ frame ∈ logs generation, frame.Valid config.frameLimits) ∧
        g.world.disk.read
            (client.streamUrl (deltaStreamForGeneration roomId generation).physical).path =
          logBytes config.frameLimits (logs generation)) ∧
      ∃ entries : List (GenerationId × DeltaFrame), entries.Nodup ∧
        List.Forall₂ (fun ack entry => entry.2 ∈ logs entry.1 ∧ entry.2.batchId = ack.1 ∧
          entry.2.updates = ack.2) (acksOverHttp g.events) entries := by
  have hstart : ∀ {n : Cluster}, n = .empty →
      ∃ w, w = World.empty ∧ ShowsRoom client roomId n w := by
    rintro n rfl
    exact ⟨.empty, rfl, Cluster.shows_empty _ _⟩
  obtain ⟨g', hreach, hlike⟩ :=
    Reachable.carried (fun h => RoomReachable.asks h) (nodes_carry hpaths) hstart h
  have hacked : Acked g'.world g'.events := RoomReachable.acked nodesPolicy_honest hinj hreach
  choose logs hlogs using (RoomReachable.kept hreach).delta.logs
  refine ⟨logs, fun generation => ⟨(hlogs generation).nodup, (hlogs generation).valid, ?_⟩,
    ackedFrames g'.events, hacked.nodup, ?_⟩
  · rw [hlike.world.read _ (ofRoom_delta generation)]
    exact (hlogs generation).content
  · rw [acksOverHttp_eq hlike.events]
    have hstored := hacked.mem_logs hlogs
    have hmade := (acks_forall₂_ackedFrames g'.events).flip
    exact ((List.forall₂_and_left _ _).2 ⟨hstored, hmade⟩).flip

end

section Example

open Sample

/-- The update of the sample run is acknowledged, and its frame is at the nodes. -/
theorem http_acks_are_frames_once :
    ∃ (g : System (httpGateway OpDoc "r" .default sampleClient) Cluster)
      (logs : GenerationId → List DeltaFrame) (entries : List (GenerationId × DeltaFrame)),
      HttpReachable sampleClient true g ∧ (sampleBatch 1, [[1, 0]]) ∈ acksOverHttp g.events ∧
      entries.Nodup ∧
      (∀ generation, g.world.disk.read
          (sampleClient.streamUrl (deltaStreamForGeneration "r" generation).physical).path =
        logBytes .default (logs generation)) ∧
      List.Forall₂ (fun ack entry => entry.2 ∈ logs entry.1 ∧ entry.2.batchId = ack.1 ∧
        entry.2.updates = ack.2) (acksOverHttp g.events) entries := by
  have hrun : ((openRoom (promptHost sampleClient) "r" (sampleBoot 1) 7 World.empty).any fun r =>
      decide (sampleBatch 1 ∈ ackedIn r.1.2)) = true := by
    decide +kernel
  obtain ⟨⟨⟨a, outputs⟩, w⟩, hopen, hacked⟩ := (Option.any_eq_true _ _).mp hrun
  have hpaths : DistinctPaths sampleClient "r" := sampleClient_paths
  obtain ⟨g, hreach, _, before, a₀, events, hevents⟩ := HttpReachable.opens true hpaths hopen
  have hmem : (sampleBatch 1, [[1, 0]]) ∈ acksOverHttp g.events := by
    rw [hevents, acksOverHttp, List.flatMap_cons, List.mem_append]
    exact .inl (List.mem_map_of_mem (of_decide_eq_true hacked))
  obtain ⟨logs, hlogs, entries, hnodup, hentries⟩ :=
    http_acks_are_frames hpaths injOn_producerInput hreach
  exact ⟨g, logs, entries, hreach, hmem, hnodup, fun generation => (hlogs generation).2.2, hentries⟩

end Example

end LoroGateway
