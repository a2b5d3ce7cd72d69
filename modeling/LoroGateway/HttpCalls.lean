import LoroGateway.Cluster
import LoroGateway.Lib.Layers
import LoroGateway.Rooms

/-!
# The calls of a room over HTTP

The gateway reaches its store through the client of `src/ursula.rs`: each call of the
trait is a sequence of requests, over redirects, retries and windows, and a crash
may come between any two of them.  `nodesEnvironment` is the room with its nodes.

The requests of a call take effect at one moment or not at all, and the answer of the
client is one that a store gives which loses answers, garbles them or is late
(`nodes_carry`).
-/

namespace LoroGateway

open ByteCodec CrashLogic CrashLogic.Server

section

variable [Reqwest] [Hashing]

/-- The server of one room, whose store is behind HTTP. -/
@[reducible]
def httpGateway (Doc : Type) [Loro Doc] (roomId : String) (config : ActorConfig)
    (client : HttpUrsula) : Server HttpRequest fun _ => Except SendError Response :=
  (gateway Doc roomId config).layered client.serve

variable {Doc : Type} [Loro Doc] {roomId : String} {config : ActorConfig} {client : HttpUrsula}
  {late : Bool}

/-- What the surroundings of a room over HTTP may do.  With `late` an append that was given
up may still be carried out. -/
def nodesEnvironment (Doc : Type) [Loro Doc] (roomId : String) (config : ActorConfig)
    (client : HttpUrsula) (late : Bool) :
    Environment (httpGateway Doc roomId config client) Cluster where
  serve _ n request x n' := n.Serves late request x n'
  drift _ n n' := late ∧ ∃ app ∈ n.underWay, n' = n.deliver app
  boots n _ boot := ∀ generation, producerIdForGeneration boot.bootId roomId generation ∉ n.sent
  accepts _ _ _ _ := True
  crash n n' := n' = n.orphaned

/-- The runs of a room over HTTP whose nodes hold nothing at the start. -/
def HttpReachable (client : HttpUrsula) (late : Bool) :
    System (httpGateway Doc roomId config client) Cluster → Prop :=
  Reachable (nodesEnvironment Doc roomId config client late) fun n => n = .empty

/-- What the nodes amount to for the trait. -/
def nodesPolicy (late : Bool) : Policy Doc roomId config := if late then .late else .lossy

/-- The room over the trait. -/
abbrev storeEnvironment (Doc : Type) [Loro Doc] (roomId : String) (config : ActorConfig)
    (late : Bool) : Environment (gateway Doc roomId config) World :=
  environment (nodesPolicy late)

/-- The nodes show the streams of the room. -/
abbrev ShowsRoom (client : HttpUrsula) (roomId : String) (n : Cluster) (w : World) : Prop :=
  n.Shows (fun stream => (client.streamUrl stream).path) (OfRoom roomId) w

/-- No two streams of the room have one path. -/
abbrev DistinctPaths (client : HttpUrsula) (roomId : String) : Prop :=
  Set.InjOn (fun stream => (client.streamUrl stream).path) {stream | OfRoom roomId stream}

section Calls

variable {task : Task (gateway Doc roomId config)} {n n' : Cluster} {w : World}

omit [Reqwest] in
/-- A fate that the nodes can bring about. -/
theorem serve_of_fate (fate : Fate)
    (hfate : fate.Prompt ∨ late ∧ ∃ message, fate = .delayed message) (req : Request) :
    (storeEnvironment Doc roomId config late).serve task w req
      (w.serve fate req).1 (w.serve fate req).2 := by
  refine ⟨fate, ?_, ?_, rfl⟩
  · cases late with
    | true =>
      rintro next rfl
      rcases hfate with hprompt | ⟨_, message, heq⟩
      · exact hprompt
      · cases heq
    | false =>
      rcases hfate with hprompt | ⟨hlate, _⟩
      · exact hprompt
      · cases hlate
  · cases late <;> trivial

/-- What is delivered at the nodes is delivered at the store. -/
theorem nodes_drift (hpaths : DistinctPaths client roomId) {up : Bool}
    (hshows : ShowsRoom client roomId n w)
    (hdrift : (nodesEnvironment Doc roomId config client late).drift up n n') :
    ∃ w', Relation.ReflTransGen ((storeEnvironment Doc roomId config late).drift up) w w' ∧
      ShowsRoom client roomId n' w' := by
  obtain ⟨rfl, app, hmem, rfl⟩ := hdrift
  rw [hshows.underWay_eq] at hmem
  obtain ⟨own, hown, rfl⟩ := List.mem_map.1 hmem
  refine ⟨w.deliver own, .single ⟨own, hown, trivial, rfl⟩, ?_⟩
  exact hshows.append hpaths (hshows.mine own hown)

/-- The contract of a call. -/
abbrev nodesContract (client : HttpUrsula) (late : Bool) (task : Task (gateway Doc roomId config))
    (w : World) (req : Request) : Contract Cluster :=
  callContract (nodesEnvironment Doc roomId config client late)
    (Within (storeEnvironment Doc roomId config late) (ShowsRoom client roomId) task w req)

variable {req : Request}

theorem unsent_stable (hpaths : DistinctPaths client roomId) :
    (nodesContract client late task w req).Stable
      (Pending (storeEnvironment Doc roomId config late) (ShowsRoom client roomId) w) := by
  rintro n n' ⟨w', hshows, hothers⟩ hrely
  obtain ⟨w'', hrely', hshows'⟩ := rely_of_drift (nodes_drift hpaths) hshows hrely
  exact ⟨w'', hshows', hothers.trans hrely'⟩

theorem nodes_grow (hrely : (nodesEnvironment Doc roomId config client late).rely n n') :
    n.disk.Grows n'.disk := by
  induction hrely with
  | refl => exact Disk.Grows.refl _
  | tail _ hdrift ih =>
    obtain ⟨_, app, _, rfl⟩ := hdrift
    exact ih.trans (Disk.grows_append _ app)

/-- A call that the nodes have not seen may fail. -/
theorem over_of_failed
    (h : Pending (storeEnvironment Doc roomId config late) (ShowsRoom client roomId) w n)
    (error : StoreError) (hshows : ∀ w', ShowsRoom client roomId n w' →
      ShowsRoom client roomId n' (w'.serve (.failed error) req).2) :
    After (storeEnvironment Doc roomId config late) (ShowsRoom client roomId) task w req
      (w.serve (.failed error) req).1 n' := by
  apply h.after
  intro w' hw'
  refine ⟨(w'.serve (.failed error) req).2, ?_, hshows w' hw'⟩
  have hserve : (storeEnvironment Doc roomId config late).serve task w' req _ _ :=
    serve_of_fate (.failed error) (.inl trivial) req
  cases req <;> exact hserve

/-- The nodes are truthful about the streams of the room. -/
theorem nodes_truthful (hpaths : DistinctPaths client roomId) (stream : String) :
    client.Truthful (fun n request x n' => n.Serves late request x n')
      (nodesContract client late task w req) stream
      (fun n => n.disk.read (client.streamUrl stream).path)
      (Pending (storeEnvironment Doc roomId config late) (ShowsRoom client roomId) w) where
  stays := unsent_stable hpaths
  grows hrely := (nodes_grow hrely _).1
  read := by
    intro n url x n' hpath hunsent hserve
    cases hserve with
    | read h =>
      refine ⟨hunsent.within, trivial, hunsent, rfl, ?_⟩
      rw [← hpath]
      exact h

/-! ### Reads -/

theorem nodes_readAll (hpaths : DistinctPaths client roomId) {stream : String}
    (hstream : OfRoom roomId stream) (hshows : ShowsRoom client roomId n w) :
    wp (fun n request x n' => n.Serves late request x n')
      (nodesContract client late task w (.readAll stream)) (client.readAll stream).run
      (fun r => After (storeEnvironment Doc roomId config late) (ShowsRoom client roomId) task w
        (.readAll stream) r) n := by
  refine wp_mono ?_ (HttpUrsula.wp_readAll (nodes_truthful hpaths stream) ⟨w, hshows, .refl⟩)
  rintro r n' ⟨hunsent, hbytes⟩
  cases r with
  | error error => exact over_of_failed hunsent error fun _ h => h
  | ok bytes =>
    apply hunsent.after
    intro w' hw'
    refine ⟨w', ?_, hw'⟩
    rw [hbytes bytes rfl, hw'.read stream hstream]
    exact serve_of_fate .answered (.inl trivial) (.readAll stream)

theorem nodes_readRange (hpaths : DistinctPaths client roomId) {stream : String}
    {offset : UInt64} {length : Nat} (hlength : length ≠ 0)
    (hstream : OfRoom roomId stream) (hshows : ShowsRoom client roomId n w) :
    wp (fun n request x n' => n.Serves late request x n')
      (nodesContract client late task w (.readRange stream offset length))
      (client.readRange stream offset length).run
      (fun r => After (storeEnvironment Doc roomId config late) (ShowsRoom client roomId) task w
        (.readRange stream offset length) r) n := by
  refine wp_mono ?_
    (HttpUrsula.wp_readRange (nodes_truthful hpaths stream) hlength ⟨w, hshows, .refl⟩)
  rintro r n' ⟨hunsent, hbytes⟩
  cases r with
  | error error => exact over_of_failed hunsent error fun _ h => h
  | ok bytes =>
    apply hunsent.after
    intro w' hw'
    obtain ⟨hfits, rfl⟩ := hbytes bytes rfl
    rw [hw'.read stream hstream] at hfits ⊢
    refine ⟨w', ?_, hw'⟩
    have hserve : (storeEnvironment Doc roomId config late).serve task w' _ _ _ :=
      serve_of_fate .answered (.inl trivial) (.readRange stream offset length)
    have hanswer : (w'.serve .answered (.readRange stream offset length)).1 =
        .ok (((w'.disk.read stream).drop offset.toNat).take length) := if_pos hfits
    rwa [hanswer] at hserve

/-! ### Streams -/

theorem hop_bucket (hpaths : DistinctPaths client roomId) (initialUrl : Url) :
    HttpUrsula.Hop (fun n request x n' => n.Serves late request x n')
      (nodesContract client late task w req) initialUrl (.put none)
      (Pending (storeEnvironment Doc roomId config late) (ShowsRoom client roomId) w)
      fun _ => Pending (storeEnvironment Doc roomId config late) (ShowsRoom client roomId) w where
  stays := unsent_stable hpaths
  hop := by
    intro n url x n' _ _ hunsent hserve
    cases hserve
    exact ⟨hunsent.within, trivial, hunsent⟩
  redirected := by
    intro n url response n' _ hunsent hserve _
    cases hserve
    exact ⟨hunsent, fun _ => hunsent⟩

/-- A created stream exists.  That it may exist before the call is over is no matter. -/
theorem hop_stream (hpaths : DistinctPaths client roomId) (stream type : String) :
    HttpUrsula.Hop (fun n request x n' => n.Serves late request x n')
      (nodesContract client late task w req) (client.streamUrl stream) (.put (some type))
      (Pending (storeEnvironment Doc roomId config late) (ShowsRoom client roomId) w)
      fun r n => Pending (storeEnvironment Doc roomId config late) (ShowsRoom client roomId) w n ∧
        ∀ response, r = .ok response → response.status = 201 ∨ response.status = 200 →
          n.disk.content (client.streamUrl stream).path ≠ none where
  stays := unsent_stable hpaths
  hop := by
    intro n url x n' hpath _ hunsent hserve
    cases hserve with
    | created =>
      obtain ⟨w', hshows, hothers⟩ := hunsent
      have hunsent' : Pending (storeEnvironment Doc roomId config late) (ShowsRoom client roomId) w
          { n with disk := n.disk.ensure url.path } := ⟨w', hshows.created _, hothers⟩
      refine ⟨hunsent'.within, trivial, hunsent', fun _ _ _ => ?_⟩
      show (n.disk.ensure url.path).content _ ≠ none
      rw [hpath, Disk.content_ensure_self]
      exact Option.some_ne_none _
    | notCreated h =>
      refine ⟨hunsent.within, trivial, hunsent, fun response heq hstatus => ?_⟩
      obtain ⟨h201, h200⟩ := h response (HttpUrsula.received_eq_ok.1 heq)
      exact absurd hstatus (not_or.2 ⟨h201, h200⟩)
  redirected := by
    intro n url response n' hpath hunsent hserve hstatus
    cases hserve with
    | created =>
      obtain ⟨w', hshows, hothers⟩ := hunsent
      have hunsent' : Pending (storeEnvironment Doc roomId config late) (ShowsRoom client roomId) w
          { n with disk := n.disk.ensure url.path } := ⟨w', hshows.created _, hothers⟩
      exact ⟨hunsent', fun _ => ⟨hunsent', nofun⟩⟩
    | notCreated h => exact ⟨hunsent, fun _ => ⟨hunsent, nofun⟩⟩

theorem nodes_ensureStream (hpaths : DistinctPaths client roomId) {stream : String}
    (hshows : ShowsRoom client roomId n w) :
    wp (fun n request x n' => n.Serves late request x n')
      (nodesContract client late task w (.ensureStream stream)) (client.ensureStream stream).run
      (fun r => After (storeEnvironment Doc roomId config late) (ShowsRoom client roomId) task w
        (.ensureStream stream) r) n := by
  have hfails : ∀ (error : StoreError) {n' : Cluster},
      Pending (storeEnvironment Doc roomId config late) (ShowsRoom client roomId) w n' →
        After (storeEnvironment Doc roomId config late) (ShowsRoom client roomId) task w
          (.ensureStream stream) (.error error) n' :=
    fun error _ hunsent => over_of_failed hunsent error fun _ h => h
  rw [HttpUrsula.ensureStream]
  apply wp_run_seq (HttpUrsula.wp_sendSafe (hop_bucket hpaths _) (fun _ _ h => h)
    (fun _ _ h => h) ⟨w, hshows, .refl⟩)
  · intro bucket n₁ hunsent₁
    by_cases hbucket : 200 ≤ bucket.status ∧ bucket.status < 300
    · rw [if_neg (not_not.2 hbucket)]
      apply wp_run_seq
        (HttpUrsula.wp_sendSafe (hop_stream hpaths stream contentType) (fun _ _ h => h.1)
          (fun _ _ h => ⟨h, nofun⟩) hunsent₁)
      · rintro response n₂ ⟨hunsent₂, hexists⟩
        split_ifs with hstatus
        · apply hunsent₂.after
          intro w' hw'
          refine ⟨_, serve_of_fate .answered (.inl trivial) (.ensureStream stream), ?_⟩
          exact hw'.ensured (hexists response rfl hstatus)
        · exact hfails _ hunsent₂
        · exact hfails _ hunsent₂
      · exact fun error _ h => hfails error h.1
    · rw [if_pos hbucket]
      split_ifs
      · exact hfails _ hunsent₁
      · exact hfails _ hunsent₁
  · exact fun error _ h => hfails error h

/-! ### Appends -/

variable {stream : String} {producer : ProducerTuple} {body : Bytes}

/-- An append that the nodes have carried out is one that the store has. -/
theorem shows_taken (hpaths : DistinctPaths client roomId) (hstream : OfRoom roomId stream)
    (hshows : ShowsRoom client roomId n w) {fate : Fate} (hacts : fate.acts) :
    ShowsRoom client roomId
      { n with
        disk := n.disk.append ⟨(client.streamUrl stream).path, producer, body⟩
        sent := producer.id :: n.sent }
      (w.serve fate (.append stream producer body)).2 := by
  have happ : OfRoom roomId (Append.mk stream producer body).stream := hstream
  have hsent := (hshows.append hpaths happ).sending producer.id
  unfold World.serve
  cases fate with
  | answered | misreported | lost | garbled => exact hsent.journaled List.mem_cons_self
  | failed | delayed => cases hacts

/-- The answer of the store to an append that the nodes have carried out. -/
theorem over_of_taken (hpaths : DistinctPaths client roomId) (hstream : OfRoom roomId stream)
    (hunsent : Pending (storeEnvironment Doc roomId config late) (ShowsRoom client roomId) w n)
    {x : Except StoreError AppendOutcome}
    (hx : ∀ w', ShowsRoom client roomId n w' → ∃ fate : Fate, fate.acts ∧ fate.Prompt ∧
      x = fate.replyAppend (w'.disk.appendAnswer ⟨stream, producer, body⟩)) :
    After (storeEnvironment Doc roomId config late) (ShowsRoom client roomId) task w
      (.append stream producer body) x
      { n with
        disk := n.disk.append ⟨(client.streamUrl stream).path, producer, body⟩
        sent := producer.id :: n.sent } := by
  apply hunsent.after
  intro w' hw'
  obtain ⟨fate, hacts, hprompt, rfl⟩ := hx w' hw'
  exact ⟨_, serve_of_fate fate (.inl hprompt) (.append stream producer body),
    shows_taken hpaths hstream hw' hacts⟩

omit [Hashing] in
theorem appended_of_unclear {x : Except SendError Response} (h : Unclear x) :
    ∃ message, (HttpUrsula.received x).bind Response.appended = .error (.ambiguous message) := by
  cases x with
  | error error => cases error <;> exact ⟨_, rfl⟩
  | ok response =>
    have hstatus : isUnknownStatus response.status = true := h
    unfold isUnknownStatus at hstatus
    simp only [Bool.or_eq_true, Bool.and_eq_true, decide_eq_true_eq, beq_iff_eq] at hstatus
    show ∃ message, response.appended = .error (.ambiguous message)
    have hother : ¬ (response.status = 200 ∨ response.status = 204) := by omega
    rw [Response.appended, if_neg hother, if_pos hstatus]
    exact ⟨_, rfl⟩

omit [Hashing] in
theorem appended_of_definite {response : Response} {outcome : UInt64 → AppendOutcome}
    (h : response.status = 200 ∧ outcome = .committed ∨ response.status = 204 ∧ outcome = .duplicate) :
    (∃ next, parseOffset response headerNextOffset = .ok next ∧
      response.appended = .ok (outcome next)) ∨
    ∃ message, response.appended = .error (.integrity message) := by
  have hstatus : response.status = 200 ∨ response.status = 204 := by omega
  rw [Response.appended, if_pos hstatus]
  cases hparse : parseOffset response headerNextOffset with
  | ok next =>
    refine .inl ⟨next, rfl, ?_⟩
    rcases h with ⟨h200, rfl⟩ | ⟨h204, rfl⟩
    · exact if_pos h200
    · exact if_neg (by omega)
  | error error => exact .inr (okOr_eq_error hparse ▸ ⟨_, rfl⟩)

omit [Hashing] in
theorem appended_of_refused {response : Response}
    (hstatus : response.status ≠ 200 ∧ response.status ≠ 204) :
    ∃ error, response.appended = .error error := by
  have hdefinite : ¬ (response.status = 200 ∨ response.status = 204) := not_or.2 hstatus
  rw [Response.appended, if_neg hdefinite]
  split_ifs
  · exact ⟨_, rfl⟩
  · exact ⟨_, rfl⟩

/-- An append that the nodes have not carried out. -/
theorem over_of_refused
    (hunsent : Pending (storeEnvironment Doc roomId config late) (ShowsRoom client roomId) w n)
    (error : StoreError) :
    After (storeEnvironment Doc roomId config late) (ShowsRoom client roomId) task w
      (.append stream producer body) (.error error) { n with sent := producer.id :: n.sent } :=
  over_of_failed hunsent error fun _ hw' => (hw'.sending producer.id).journaled List.mem_cons_self

/-- An append that the nodes may still carry out. -/
theorem over_of_delayed (hstream : OfRoom roomId stream) (hlate : late)
    (hunsent : Pending (storeEnvironment Doc roomId config late) (ShowsRoom client roomId) w n)
    (message : String) :
    After (storeEnvironment Doc roomId config late) (ShowsRoom client roomId) task w
      (.append stream producer body) (.error (.ambiguous message))
      { n with
        inflight := ⟨(client.streamUrl stream).path, producer, body⟩ :: n.inflight
        sent := producer.id :: n.sent } := by
  apply hunsent.after
  intro w' hw'
  have happ : OfRoom roomId (Append.mk stream producer body).stream := hstream
  exact ⟨_, serve_of_fate (.delayed message) (.inr ⟨hlate, message, rfl⟩)
    (.append stream producer body),
    ((hw'.submitted happ).sending producer.id).journaled List.mem_cons_self⟩

/-- An append whose outcome nobody knows may be over for the store. -/
theorem hop_append (hpaths : DistinctPaths client roomId) (hstream : OfRoom roomId stream)
    (type : String) :
    HttpUrsula.Hop (fun n request x n' => n.Serves late request x n')
      (nodesContract client late task w (.append stream producer body)) (client.streamUrl stream)
      (.post type producer body)
      (Pending (storeEnvironment Doc roomId config late) (ShowsRoom client roomId) w)
      fun r n => After (storeEnvironment Doc roomId config late) (ShowsRoom client roomId) task w
        (.append stream producer body) (r.bind Response.appended) n where
  stays := unsent_stable hpaths
  hop := by
    intro n url x n' hpath _ hunsent hserve
    suffices hover : After (storeEnvironment Doc roomId config late) (ShowsRoom client roomId) task w
        (.append stream producer body) ((HttpUrsula.received x).bind Response.appended) n' from
      ⟨hover.within, trivial, hover⟩
    have happ : OfRoom roomId (Append.mk stream producer body).stream := hstream
    cases hserve with
    | committed haccepts hstatus hnext =>
      rename_i response
      rw [← Disk.append_of_accepts haccepts]
      rw [hpath] at haccepts hnext ⊢
      apply over_of_taken hpaths hstream hunsent
      intro w' hw'
      have haccepts' := (hw'.accepts happ).1 haccepts
      have hanswer : w'.disk.appendAnswer ⟨stream, producer, body⟩ = .ok (.committed _) :=
        if_pos haccepts'
      rcases appended_of_definite (.inl ⟨hstatus, rfl⟩) with
        ⟨next, hparse, happended⟩ | ⟨message, happended⟩
      · refine ⟨.answered, rfl, trivial, ?_⟩
        rw [hanswer, ← hw'.endOffset happ]
        have hcommitted := hnext next hparse
        subst hcommitted
        exact happended
      · exact ⟨.garbled message, rfl, trivial, happended⟩
    | duplicate haccepts hrefusal hstatus hnext =>
      rename_i response endOffset
      rw [hpath] at haccepts hrefusal
      have hover : After (storeEnvironment Doc roomId config late) (ShowsRoom client roomId) task w
          (.append stream producer body) response.appended
          { n with
            disk := n.disk.append ⟨(client.streamUrl stream).path, producer, body⟩
            sent := producer.id :: n.sent } := by
        apply over_of_taken hpaths hstream hunsent
        intro w' hw'
        have hanswer : w'.disk.appendAnswer ⟨stream, producer, body⟩ = .ok (.duplicate endOffset) := by
          rw [Disk.appendAnswer, if_neg (mt (hw'.accepts happ).2 haccepts), ← hw'.refusal happ]
          exact hrefusal
        rcases appended_of_definite (.inr ⟨hstatus, rfl⟩) with
          ⟨next, hparse, happended⟩ | ⟨message, happended⟩
        · refine ⟨.answered, rfl, trivial, ?_⟩
          rw [hanswer, ← hnext next hparse]
          exact happended
        · exact ⟨.garbled message, rfl, trivial, happended⟩
      rw [Disk.append_of_not_accepts haccepts] at hover
      exact hover
    | refused hstatus hclear =>
      obtain ⟨error, happended⟩ := appended_of_refused hstatus
      have hover : After (storeEnvironment Doc roomId config late) (ShowsRoom client roomId) task w
          (.append stream producer body) (.error error) { n with sent := producer.id :: n.sent } :=
        over_of_refused hunsent error
      rw [← happended] at hover
      exact hover
    | failed hx =>
      obtain ⟨message, happended⟩ := appended_of_unclear hx
      rw [happended]
      exact over_of_refused hunsent _
    | unheard hx =>
      obtain ⟨message, happended⟩ := appended_of_unclear hx
      rw [happended, hpath]
      apply over_of_taken hpaths hstream hunsent
      exact fun w' hw' => ⟨.lost message, rfl, trivial, rfl⟩
    | delayed hx hlate =>
      obtain ⟨message, happended⟩ := appended_of_unclear hx
      rw [happended, hpath]
      exact over_of_delayed hstream hlate hunsent message
  redirected := by
    intro n url response n' _ hunsent hserve hstatus
    have hclear : ¬ Unclear (.ok response) := by
      show ¬ isUnknownStatus response.status = true
      rw [hstatus]
      decide
    have hagain : Pending (storeEnvironment Doc roomId config late) (ShowsRoom client roomId) w
        { n with sent := producer.id :: n.sent } := by
      obtain ⟨w', hshows, hothers⟩ := hunsent
      exact ⟨w', hshows.sending _, hothers⟩
    cases hserve with
    | committed _ h200 _ => omega
    | duplicate _ _ h204 _ => omega
    | refused => exact ⟨hagain, fun message => over_of_refused hunsent _⟩
    | failed hx => exact absurd hx hclear
    | unheard hx => exact absurd hx hclear
    | delayed hx => exact absurd hx hclear

theorem nodes_append (hpaths : DistinctPaths client roomId) (hstream : OfRoom roomId stream)
    (hshows : ShowsRoom client roomId n w) :
    wp (fun n request x n' => n.Serves late request x n')
      (nodesContract client late task w (.append stream producer body))
      (client.append stream producer body).run
      (fun r => After (storeEnvironment Doc roomId config late) (ShowsRoom client roomId) task w
        (.append stream producer body) r) n := by
  rw [HttpUrsula.append]
  apply wp_run_seq (HttpUrsula.wp_sendFollowingRedirects (hop_append hpaths hstream contentType)
    ⟨w, hshows, .refl⟩)
  · intro response n' hover
    rw [wp_run_lift]
    exact hover
  · exact fun error n' hover => hover

end Calls

/-- The nodes carry the calls of the room. -/
theorem nodes_carry (hpaths : DistinctPaths client roomId) :
    Carries (nodesEnvironment Doc roomId config client late) (storeEnvironment Doc roomId config late)
      (ShowsRoom client roomId) (Request.In (OfRoom roomId)) where
  call := by
    intro task n w req hmine hshows
    cases req with
    | ensureStream stream => exact nodes_ensureStream hpaths hshows
    | readAll stream => exact nodes_readAll hpaths hmine.stream hshows
    | readRange stream offset length =>
      exact nodes_readRange hpaths hmine.proper hmine.stream hshows
    | append stream producer body => exact nodes_append hpaths hmine.stream hshows
  drift := nodes_drift hpaths
  boots hshows hboots := fun attempt hattempt generation heq =>
    hboots generation (heq ▸ hshows.sent attempt hattempt)
  accepts _ _ := by cases late <;> trivial
  crash := by
    rintro n n' w hshows rfl
    refine ⟨_, rfl, ?_⟩
    exact { hshows with inflight := rfl, orphans := hshows.underWay_eq, mine := hshows.mine }

end

end LoroGateway
