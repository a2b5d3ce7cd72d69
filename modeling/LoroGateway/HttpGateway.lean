import LoroGateway.HttpCalls

/-!
# A room over HTTP

Every state of a room over HTTP is one that the room reaches over the trait
(`http_reaches`).  Nodes that answer let the room get as far as over a store that
answers, as long as a stream fits into a window (`nodes_prompt`).
-/

namespace LoroGateway

open ByteCodec CrashLogic CrashLogic.Server

/-- Every state that a room reaches over HTTP, between any two requests, is one that it
reaches over the trait. -/
theorem http_reaches [Reqwest] [Hashing] {Doc : Type} [Loro Doc] {roomId : String}
    {config : ActorConfig} {client : HttpUrsula} {late : Bool}
    (hpaths : DistinctPaths client roomId)
    {g : System (httpGateway Doc roomId config client) Cluster} (h : HttpReachable client late g) :
    ∃ g' : System (gateway Doc roomId config) World,
      RoomReachable (nodesPolicy late) g' ∧ System.Like (ShowsRoom client roomId) g g' := by
  refine Reachable.carried (fun h => RoomReachable.asks h) (nodes_carry hpaths) ?_ h
  rintro n rfl
  exact ⟨.empty, rfl, Cluster.shows_empty _ _⟩

/-! ## Nodes that answer -/

/-- A number in a header. -/
def decimalHeader (n : Nat) : HeaderValue := ⟨n.repr.toList.map fun c => UInt8.ofNat c.toNat⟩

theorem toStr_decimalHeader (n : Nat) : (decimalHeader n).toStr = some n.repr := by
  have hdigit : ∀ c ∈ n.repr.toList, 48 ≤ c.toNat ∧ c.toNat ≤ 57 := by
    intro c hc
    rw [Nat.toList_repr] at hc
    exact Char.isDigit_iff_toNat.1 (Nat.isDigit_of_mem_toDigits (by decide) (by decide) hc)
  have hbyte : ∀ c ∈ n.repr.toList, (UInt8.ofNat c.toNat).toNat = c.toNat := by
    intro c hc
    have hsmall : c.toNat < 256 := by
      have := hdigit c hc
      omega
    exact UInt8.toNat_ofNat_of_lt' hsmall
  have hchars : (n.repr.toList.map fun c => UInt8.ofNat c.toNat).map
      (fun b => Char.ofNat b.toNat) = n.repr.toList := by
    rw [List.map_map]
    refine (List.map_congr_left fun c hc => ?_).trans (List.map_id _)
    show Char.ofNat (UInt8.ofNat c.toNat).toNat = c
    rw [hbyte c hc, Char.ofNat_toNat]
  have hplain : (n.repr.toList.map fun c => UInt8.ofNat c.toNat).all
      (fun b => (32 ≤ b.toNat && b.toNat < 127) || b.toNat == 9) = true := by
    rw [List.all_map, List.all_eq_true]
    intro c hc
    obtain ⟨hge, hle⟩ := hdigit c hc
    show ((32 ≤ (UInt8.ofNat c.toNat).toNat && (UInt8.ofNat c.toNat).toNat < 127) ||
      (UInt8.ofNat c.toNat).toNat == 9) = true
    rw [hbyte c hc]
    simp only [Bool.or_eq_true, Bool.and_eq_true, decide_eq_true_eq]
    omega
  unfold decimalHeader HeaderValue.toStr
  rw [if_pos hplain, hchars, String.ofList_toList]

theorem u64FromStr_repr (n : UInt64) : u64FromStr n.toNat.repr = some n := by
  have hdigit : ∀ c ∈ Nat.toDigits 10 n.toNat, c.isDigit = true :=
    fun c hc => Nat.isDigit_of_mem_toDigits (by decide) (by decide) hc
  have hsign : (Nat.toDigits 10 n.toNat).head? ≠ some '+' := by
    intro hhead
    exact absurd (hdigit '+' (List.mem_of_mem_head? hhead)) (by decide)
  have hvalue : (Nat.toDigits 10 n.toNat).foldl (fun n c => n * 10 + (c.toNat - '0'.toNat)) 0 =
      n.toNat := by
    have hparse := Nat.ofDigitChars_ten_toDigits (n := n.toNat)
    rw [Nat.ofDigitChars_eq_foldl] at hparse
    simp only [Nat.mul_comm 10] at hparse
    exact hparse
  unfold u64FromStr
  rw [Nat.toList_repr]
  simp only [if_neg hsign]
  rw [if_pos ⟨Nat.toDigits_ne_nil, List.all_eq_true.2 hdigit⟩, hvalue, if_pos n.toNat_lt]
  rw [UInt64.ofNat_toNat]

/-- The answer of a node, with the end of a stream. -/
def nodeResponse (status : Nat) (next : UInt64) (body : Bytes) : Response where
  status
  headers name :=
    if name = headerNextOffset then some (decimalHeader next.toNat)
    else if name = headerUpToDate then some (textHeader "true")
    else none
  chunks := [body]
  bodyEnd := .complete

section Answering

variable {status : Nat} {next : UInt64} {body : Bytes}

theorem parseOffset_nodeResponse :
    parseOffset (nodeResponse status next body) headerNextOffset = .ok next := by
  show okOr (((some (decimalHeader next.toNat)).bind HeaderValue.toStr).bind u64FromStr) _ = _
  rw [Option.bind_some, toStr_decimalHeader, Option.bind_some, u64FromStr_repr]
  rfl

theorem isUpToDate_nodeResponse : (nodeResponse status next body).isUpToDate = true := by
  have hname : headerUpToDate ≠ headerNextOffset := by decide
  have hheader : (nodeResponse status next body).headers headerUpToDate =
      some (textHeader "true") := by
    simp [nodeResponse, hname]
  rw [Response.isUpToDate, hheader]
  decide +kernel

variable [Reqwest] {client : HttpUrsula} {σ : Type} {operation : String} {url : Url} {call : Call}
  {serve : Serve HttpRequest (fun _ => Except SendError Response) σ} {n n' : σ}
  {response : Response}

theorem appended_nodeResponse :
    (nodeResponse 200 next body).appended = .ok (.committed next) := by
  have hstatus : (nodeResponse 200 next body).status = 200 := rfl
  rw [Response.appended, if_pos (.inl hstatus), bind_of_ok parseOffset_nodeResponse, if_pos hstatus]
  rfl

/-- A request that is answered, and not by a redirect. -/
theorem HttpUrsula.runs_follow (hserve : serve n ⟨call, url⟩ (.ok response) n')
    (hstatus : response.status ≠ 307) :
    Runs serve Eq (client.sendFollowingRedirects operation url call).run n (.ok response) n' := by
  have hsend : Runs serve Eq (send ⟨call, url⟩).run n (.ok response) n' :=
    .call rfl hserve (.ret _ _)
  have hleader : leaderRedirect response = none := if_neg hstatus
  rw [sendFollowingRedirects, sendFollowingFrom, ExceptT.run_bind]
  refine hsend.bind ?_
  dsimp only
  rw [hleader]
  exact .ret _ _

theorem HttpUrsula.runs_sendSafe (hserve : serve n ⟨call, url⟩ (.ok response) n')
    (hstatus : 200 ≤ response.status ∧ response.status < 300) :
    Runs serve Eq (client.sendSafe operation url call).run n (.ok response) n' := by
  have hretry : ¬ (isRetryableStatus response.status ∧ 0 < client.config.safeRetries) := by
    rintro ⟨hretry, _⟩
    unfold isRetryableStatus isUnknownStatus at hretry
    simp only [Bool.or_eq_true, Bool.and_eq_true, decide_eq_true_eq, beq_iff_eq] at hretry
    omega
  rw [sendSafe, sendSafeFrom]
  refine (runs_follow hserve (by omega)).bind ?_
  dsimp only
  rw [if_neg hretry]
  exact .ret _ _

/-- A stream that fits into one window. -/
theorem HttpUrsula.runs_readAll {stream : String}
    (hserve : serve n ⟨.get, client.windowUrl stream 0 client.config.readChunkBytes⟩
      (.ok (nodeResponse 200 next body)) n)
    (hnext : next.toNat = body.length) (hchunk : body.length ≤ client.config.readChunkBytes)
    (hmax : body.length ≤ client.config.maxStreamBytes) :
    Runs serve Eq (client.readAll stream).run n (.ok body) n := by
  have hhonest : HonestAnswer body 0 client.config.readChunkBytes body
      (nodeResponse 200 next body) := by
    constructor
    · rfl
    · simp [nodeResponse]
    · rfl
    · exact ⟨next, parseOffset_nodeResponse, by simpa using hnext⟩
    · exact List.prefix_refl _
    · exact hchunk
    · simp
    · rw [isUpToDate_nodeResponse]
      simp
  obtain ⟨window, hwindow, hbody, hdone⟩ := window_of_honest hhonest
  rw [isUpToDate_nodeResponse] at hdone
  have honce : Runs serve Eq
      (client.readExactWindowOnce stream 0 client.config.readChunkBytes).run n (.ok window) n := by
    rw [readExactWindowOnce, ExceptT.run_bind]
    refine (runs_follow hserve (by decide : (200 : Nat) ≠ 307)).bind ?_
    show Runs _ _ (liftM (Response.window _ 0 _) : ExceptT StoreError HttpM _).run _ _ _
    rw [hwindow]
    exact .ret _ _
  have hread : Runs serve Eq (client.readExactWindow stream 0 client.config.readChunkBytes).run n
      (.ok window) n := honce.bind (.ret _ _)
  have hend := window.next_eq
  have hword : window.nextOffset.toNat < wordSize := window.nextOffset.toNat_lt
  have hprogress : ¬ (window.nextOffset < 0 ∨ window.nextOffset = 0 ∧ ¬ window.upToDate) := by
    rw [UInt64.lt_iff_toNat_lt]
    simp [hdone]
  have hadd : checkedAdd ([] : Bytes).length window.body.length = some window.body.length := by
    refine checkedAdd_eq_some.2 ⟨(Nat.zero_add _).symm, ?_⟩
    show 0 + window.body.length < wordSize
    omega
  rw [readAll, readAllObserved, readAllFrom, ExceptT.run_bind]
  refine hread.bind ?_
  dsimp only
  rw [dif_neg hprogress]
  split
  · rename_i hnone
    cases hadd.symm.trans hnone
  · rename_i nextLen hsome
    cases hadd.symm.trans hsome
    rw [dif_neg (by rw [hbody]; omega), dif_pos hdone, hbody]
    exact .ret _ _

end Answering

section Prompt

variable [Reqwest] [Hashing] {roomId : String} {n : Cluster} {w w' : World} {req : Request}

/-- The calls that the nodes of the example answer: reads of one window, and appends that
are accepted. -/
def promptly (client : HttpUrsula) (w : World) : Request → Bool
  | .ensureStream _ => true
  | .readAll stream =>
    (w.disk.read stream).length ≤ client.config.readChunkBytes &&
      (w.disk.read stream).length ≤ client.config.maxStreamBytes &&
      decide ((w.disk.read stream).length < wordSize)
  | .readRange _ _ _ => false
  | .append stream producer body => decide (w.disk.Accepts ⟨stream, producer, body⟩)

def promptHost (client : HttpUrsula) : Host Request Answer World Unit := fun _ w req =>
  if promptly client w req then some (w.serve .answered req) else none

omit [Reqwest] [Hashing] in
theorem serve_of_promptHost {client : HttpUrsula} {x : Answer req}
    (h : promptHost client () w req = some (x, w')) :
    promptly client w req ∧ (x, w') = w.serve .answered req := by
  unfold promptHost at h
  split_ifs at h with hprompt
  exact ⟨hprompt, (Option.some.inj h).symm⟩

/-- The nodes can answer these calls as the store does. -/
theorem nodes_prompt {client : HttpUrsula} (late : Bool) (hpaths : DistinctPaths client roomId)
    {x : Answer req} (hmine : Request.In (OfRoom roomId) req)
    (hshows : ShowsRoom client roomId n w) (h : promptHost client () w req = some (x, w')) :
    ∃ n', Runs (fun n request x n' => n.Serves late request x n') Eq (client.serve req) n x n' ∧
      ShowsRoom client roomId n' w' := by
  obtain ⟨hprompt, hserve⟩ := serve_of_promptHost h
  obtain ⟨rfl, rfl⟩ := Prod.mk.inj hserve
  cases req with
  | ensureStream stream =>
    have hbucket : n.Serves late ⟨.put none, client.bucketUrl⟩ (.ok (nodeResponse 200 0 [])) n :=
      .bucket
    have hcreated : n.Serves late ⟨.put (some contentType), client.streamUrl stream⟩
        (.ok (nodeResponse 201 0 [])) _ := .created
    refine ⟨_, ?_, (hshows.created (client.streamUrl stream).path).ensured ?_⟩
    · show Runs _ _ (client.ensureStream stream).run _ _ _
      rw [HttpUrsula.ensureStream, ExceptT.run_bind]
      refine (HttpUrsula.runs_sendSafe hbucket (by decide : 200 ≤ 200 ∧ 200 < 300)).bind ?_
      refine (HttpUrsula.runs_sendSafe hcreated (by decide : 200 ≤ 201 ∧ 201 < 300)).bind ?_
      exact .ret _ _
    · show (n.disk.ensure _).content _ ≠ none
      rw [Disk.content_ensure_self]
      exact Option.some_ne_none _
  | readAll stream =>
    unfold promptly at hprompt
    simp only [Bool.and_eq_true, decide_eq_true_eq] at hprompt
    obtain ⟨⟨hchunk, hmax⟩, hword⟩ := hprompt
    have hnext : (UInt64.ofNat (w.disk.read stream).length).toNat = (w.disk.read stream).length :=
      UInt64.toNat_ofNat_of_lt' hword
    refine ⟨n, HttpUrsula.runs_readAll (.read ?_) hnext hchunk hmax, hshows⟩
    intro response heq _ offset maxBytes hquery
    cases heq
    obtain ⟨rfl, _⟩ := HttpUrsula.windowQuery_inj (Option.some.inj hquery)
    have hbytes : n.disk.read (client.windowUrl stream 0 client.config.readChunkBytes).path =
        w.disk.read stream := hshows.read stream hmine.stream
    rw [hbytes]
    constructor
    · simp [nodeResponse]
    · intro _ next hparse
      cases parseOffset_nodeResponse.symm.trans hparse
      exact hnext
  | readRange => cases hprompt
  | append stream producer body =>
    have happ : OfRoom roomId (Append.mk stream producer body).stream := hmine.stream
    have haccepts : w.disk.Accepts ⟨stream, producer, body⟩ := of_decide_eq_true hprompt
    have haccepts' : n.disk.Accepts ⟨(client.streamUrl stream).path, producer, body⟩ :=
      (hshows.accepts happ).2 haccepts
    have hposted : n.Serves late ⟨.post contentType producer body, client.streamUrl stream⟩
        (.ok (nodeResponse 200 (n.disk.endOffset
          ⟨(client.streamUrl stream).path, producer, body⟩) []))
        { n with
          disk := n.disk.accept ⟨(client.streamUrl stream).path, producer, body⟩
          sent := producer.id :: n.sent } := by
      refine .committed haccepts' rfl fun next hparse => ?_
      cases parseOffset_nodeResponse.symm.trans hparse
      rfl
    have hanswer : (w.serve .answered (.append stream producer body)).1 =
        .ok (.committed (w.disk.endOffset ⟨stream, producer, body⟩)) := if_pos haccepts
    have htaken : ShowsRoom client roomId
        { n with
          disk := n.disk.append ⟨(client.streamUrl stream).path, producer, body⟩
          sent := producer.id :: n.sent } (w.serve .answered (.append stream producer body)).2 :=
      shows_taken hpaths hmine.stream hshows rfl
    rw [Disk.append_of_accepts haccepts'] at htaken
    refine ⟨_, ?_, htaken⟩
    show Runs _ _ (client.append stream producer body).run _
      (w.serve .answered (.append stream producer body)).1 _
    rw [hanswer, ← hshows.endOffset happ, HttpUrsula.append, ExceptT.run_bind]
    refine (HttpUrsula.runs_follow hposted (by decide : (200 : Nat) ≠ 307)).bind ?_
    show Runs _ _ (liftM (Response.appended _) : ExceptT StoreError HttpM _).run _ _ _
    rw [appended_nodeResponse]
    exact .ret _ _

end Prompt

section Example

open Sample

/-- What a room does with calls that the nodes can answer, it does over HTTP. -/
theorem HttpReachable.opens [Reqwest] {client : HttpUrsula} (late : Bool)
    (hpaths : DistinctPaths client "r") {r : RoomActor OpDoc × List Output} {w : World}
    (hopen : openRoom (promptHost client) "r" (sampleBoot 1) 7 World.empty = some (r, w)) :
    ∃ g : System (httpGateway OpDoc "r" .default client) Cluster,
      HttpReachable client late g ∧ g.phase = .idle r.1 ∧ ∃ before a events,
        g.events =
          .handled (.update 1 (sampleBatch 1) [[1, 0]] 7) before a r.2 g.world r.1 :: events := by
  let env := nodesEnvironment OpDoc "r" .default client late
  let serve : Serve Request Answer World :=
    fun w req x w' => promptHost client () w req = some (x, w')
  have hserve : ∀ task n request x n', n.Serves late request x n' → env.serve task n request x n' :=
    fun _ _ _ _ _ h => h
  have hcall : ∀ (n : Cluster) (w : World) (req : Request) (x : Answer req) (w' : World),
      Request.In (OfRoom "r") req → ShowsRoom client "r" n w → serve w req x w' →
        ∃ n', Runs (fun n request x n' => n.Serves late request x n') Eq (client.serve req) n x n' ∧
          ShowsRoom client "r" n' w' :=
    fun _ _ _ _ _ hmine hshows h => nodes_prompt late hpaths hmine hshows h
  obtain ⟨a₀, a₁, _, w₁, w₂, hboot, hjoin, hupdate⟩ := runs_of_openRoom (fun _ _ _ _ h => h) hopen
  have hkeeps₀ : a₀.KeepsTo "r" := hboot.always (RoomActor.keeps_activate _)
  have hkeeps₁ : a₁.KeepsTo "r" := hjoin.always (RoomActor.keeps_handle hkeeps₀ _)
  obtain ⟨n₁, hboot, hshows₁⟩ :=
    hboot.layered (hcall _ _ _ _ _) (RoomActor.keeps_activate _) (Cluster.shows_empty _ _)
  obtain ⟨n₂, hjoin, hshows₂⟩ :=
    hjoin.layered (hcall _ _ _ _ _) (RoomActor.keeps_handle hkeeps₀ _) hshows₁
  obtain ⟨n₃, hupdate, _⟩ :=
    hupdate.layered (hcall _ _ _ _ _) (RoomActor.keeps_handle hkeeps₁ _) hshows₂
  have hdown : Reachable env (fun n => n = .empty) ⟨.empty, .down, []⟩ := .init rfl
  have hbooted : Reachable env (fun n => n = .empty) ⟨n₁, .idle a₀, _⟩ :=
    hdown.starts (hserve _ _ _ _ _) (fun _ => List.not_mem_nil) hboot
  have hjoined : Reachable env (fun n => n = .empty) ⟨n₂, .idle a₁, _⟩ :=
    hbooted.handles (hserve (.command (.join 1 [] 7) a₀) _ _ _ _) trivial hjoin
  exact ⟨_, hjoined.handles (hserve (.command (.update 1 (sampleBatch 1) [[1, 0]] 7) a₁) _ _ _ _)
    trivial hupdate, rfl, _, _, _, rfl⟩

/-- The client of the default configuration tells the streams of a room apart. -/
theorem sampleClient_paths : DistinctPaths sampleClient "r" := by
  intro stream _ stream' _ heq
  have heq' : "/qloro/" ++ stream = "/qloro/" ++ stream' := heq
  exact String.append_right_inj _ |>.1 heq'

/-- A room with an update, over the client of the default configuration. -/
theorem http_reaches_update :
    ∃ (g : System (httpGateway OpDoc "r" .default sampleClient) Cluster) (a : RoomActor OpDoc),
      HttpReachable sampleClient true g ∧ g.phase = .idle a ∧ a.history ≠ [] ∧
        ∃ g' : System (gateway OpDoc "r" .default) World,
          RoomReachable (nodesPolicy true) g' ∧ System.Like (ShowsRoom sampleClient "r") g g' := by
  have hrun : ((openRoom (promptHost sampleClient) "r" (sampleBoot 1) 7 World.empty).any fun r =>
      decide (r.1.1.history ≠ [])) = true := by
    decide +kernel
  obtain ⟨⟨⟨a, _⟩, w⟩, hopen, hhistory⟩ := (Option.any_eq_true _ _).mp hrun
  have hpaths := sampleClient_paths
  obtain ⟨g, hreach, hphase, _⟩ := HttpReachable.opens true hpaths hopen
  exact ⟨g, a, hreach, hphase, of_decide_eq_true hhistory, http_reaches hpaths hreach⟩

end Example

end LoroGateway
