import LoroGateway.WindowedReads
import LoroGateway.World

/-!
# The client over a store of several nodes

The nodes of the store keep one state, and answer for it over HTTP.

* `HttpUrsula.Hop` says what one request of the client needs; `wp_sendFollowingFrom`,
  `wp_sendSafeFrom` and `wp_readExactWindowFrom` are the loops over it.
* `Cluster` is the state of the nodes, and `Cluster.Serves` what they may answer.  They
  know a stream by its path.  A request whose answer is lost, or has one of the unknown
  statuses, may have been carried out all the same, or may still be.
* `Cluster.Shows` relates the nodes to the store of the trait.
-/

namespace LoroGateway

open ByteCodec CrashLogic

/-- The response is a window of a stream that holds `bytes`, if it is one. -/
structure Response.Truthful (response : Response) (bytes : Bytes) (offset : UInt64) : Prop where
  body : response.chunks.flatten <+: bytes.drop offset.toNat
  up_to_date : response.isUpToDate → ∀ next, parseOffset response headerNextOffset = .ok next →
    next.toNat = bytes.length

theorem readChunks_eq_ok {maxBytes : Nat} {bodyEnd : BodyEnd} {output bytes : Bytes}
    {chunks : List Bytes} (h : readChunks maxBytes bodyEnd output chunks = .ok bytes) :
    bytes = output ++ chunks.flatten := by
  induction chunks generalizing output with
  | nil =>
    cases bodyEnd with
    | complete =>
      cases h
      simp
    | failed error => cases h
    | timedOut => cases h
  | cons chunk chunks ih =>
    rw [readChunks] at h
    obtain ⟨nextLen, _, h⟩ := okOr_bind_eq_ok.1 h
    obtain ⟨_, h⟩ := check_bind_eq_ok.1 h
    rw [ih h, List.flatten_cons, List.append_assoc]

/-- A window that the client takes from a truthful response. -/
theorem Response.Truthful.window [Reqwest] {response : Response} {bytes : Bytes} {offset : UInt64}
    {maxBytes : Nat} {window : Window offset}
    (h : response.status = 200 → response.Truthful bytes offset)
    (hwindow : response.window offset maxBytes = .ok window) :
    window.body <+: bytes.drop offset.toNat ∧
      (window.upToDate → window.nextOffset.toNat = bytes.length) := by
  have hstatus := HttpUrsula.status_of_window hwindow
  have htruthful := h hstatus
  unfold Response.window at hwindow
  rw [if_neg (not_not.2 hstatus)] at hwindow
  obtain ⟨next, hnext, hwindow⟩ := bind_eq_ok.1 hwindow
  obtain ⟨body, hbody, hwindow⟩ := bind_eq_ok.1 hwindow
  obtain ⟨_, _, hwindow⟩ := okOr_bind_eq_ok.1 hwindow
  obtain ⟨_, _, hwindow⟩ := okOr_bind_eq_ok.1 hwindow
  split_ifs at hwindow with hoffset
  cases hwindow
  refine ⟨?_, fun hdone => htruthful.up_to_date hdone next hnext⟩
  show body <+: _
  rw [readChunks_eq_ok hbody]
  exact htruthful.body

namespace HttpUrsula

variable [Reqwest] {client : HttpUrsula} {σ : Type}
  {serve : Serve HttpRequest (fun _ => Except SendError Response) σ} {c : Contract σ} {s : σ}

omit [Reqwest] in
theorem wp_send {request : HttpRequest} {post : Except StoreError Response → σ → Prop}
    (h : ∀ s₁, c.rely s s₁ → c.inv s₁ → ∀ x t, serve s₁ request x t →
      c.inv t ∧ c.guar s₁ t ∧ post (received x) t) :
    wp serve c (send request).run post s := by
  intro s₁ hrely hinv x t hserve
  obtain ⟨hinv', hguar, hpost⟩ := h s₁ hrely hinv x t hserve
  refine ⟨hinv', hguar, ?_⟩
  cases x with
  | ok response => exact hpost
  | error error => cases error <;> exact hpost

/-- One request of a chain: before each of them `P` holds, and `post` after the last one. -/
structure Hop (serve : Serve HttpRequest (fun _ => Except SendError Response) σ) (c : Contract σ)
    (initialUrl : Url) (call : Call) (P : σ → Prop)
    (post : Except StoreError Response → σ → Prop) : Prop where
  stays : c.Stable P
  hop : ∀ {s url x t}, url.path = initialUrl.path → url.query = initialUrl.query → P s →
    serve s ⟨call, url⟩ x t → c.inv t ∧ c.guar s t ∧ post (received x) t
  redirected : ∀ {s url response t}, url.path = initialUrl.path → P s →
    serve s ⟨call, url⟩ (.ok response) t → response.status = 307 →
      P t ∧ ∀ message, post (.error (.ambiguous message)) t

/-- A redirect that is not followed leaves open what the request has done. -/
theorem ambiguous_of_redirectTarget {operation : String} {initialUrl : Url} {response : Response}
    {error : StoreError} (h : client.redirectTarget operation initialUrl response = .error error) :
    ∃ message, error = .ambiguous message := by
  unfold redirectTarget at h
  rcases bind_eq_error.1 h with hstep | ⟨location, _, h⟩
  · exact okOr_eq_error hstep ▸ ⟨_, rfl⟩
  rcases bind_eq_error.1 h with hstep | ⟨target, _, h⟩
  · cases hparse : Reqwest.parse location with
    | ok url => simp [hparse, Except.mapError] at hstep
    | error text =>
      rw [hparse] at hstep
      cases hstep
      exact ⟨_, rfl⟩
  rcases bind_eq_error.1 h with hstep | ⟨_, _, h⟩
  · exact check_eq_error hstep ▸ ⟨_, rfl⟩
  rcases bind_eq_error.1 h with hstep | ⟨_, _, h⟩
  · exact check_eq_error hstep ▸ ⟨_, rfl⟩
  rcases bind_eq_error.1 h with hstep | ⟨_, _, h⟩
  · exact check_eq_error hstep ▸ ⟨_, rfl⟩
  · cases h

section Chain

variable {initialUrl currentUrl : Url} {call : Call} {P : σ → Prop} {operation : String}
  {post : Except StoreError Response → σ → Prop}

theorem wp_sendFollowingFrom (h : Hop serve c initialUrl call P post) (rounds redirects : Nat)
    (visited : List Url) (hcurrent : currentUrl.path = initialUrl.path ∧
      currentUrl.query = initialUrl.query) (hP : P s)
    (hlost : rounds = 0 → ∀ message, post (.error (.ambiguous message)) s) :
    wp serve c (client.sendFollowingFrom operation initialUrl call rounds redirects currentUrl
      visited).run post s := by
  induction rounds generalizing redirects currentUrl visited s with
  | zero => exact hlost rfl _
  | succ rounds ih =>
    rw [sendFollowingFrom]
    have hsend : wp serve c (send ⟨call, currentUrl⟩).run (fun r t => post r t ∧
        ∀ response, r = .ok response → response.status = 307 →
          P t ∧ ∀ message, post (.error (.ambiguous message)) t) s := by
      apply wp_send
      intro s₁ hrely hinv x t hserve
      have hP₁ := h.stays _ _ hP hrely
      obtain ⟨hinv', hguar, hpost⟩ := h.hop hcurrent.1 hcurrent.2 hP₁ hserve
      refine ⟨hinv', hguar, hpost, fun response heq hstatus => ?_⟩
      obtain rfl := received_eq_ok.1 heq
      exact h.redirected hcurrent.1 hP₁ hserve hstatus
    apply wp_run_seq hsend
    · rintro response t ⟨hpost, hredirected⟩
      cases hleader : leaderRedirect response with
      | none => exact hpost
      | some leaderId =>
        have hstatus : response.status = 307 := status_of_leaderRedirect (by simp [hleader])
        obtain ⟨hPt, hlost'⟩ := hredirected response rfl hstatus
        apply wp_okOr_bind
        · intro _ _
          apply wp_check_bind
          · intro _
            apply wp_lift_bind
            · intro target htarget
              apply wp_check_bind
              · intro _
                exact ih _ _ (permitted_of_redirectTarget htarget).same hPt fun _ => hlost'
              · exact fun _ => hlost' _
            · intro error herror
              obtain ⟨message, rfl⟩ := ambiguous_of_redirectTarget herror
              exact hlost' _
          · exact fun _ => hlost' _
        · exact fun _ => hlost' _
    · exact fun e t ht => ht.1

theorem wp_sendFollowingRedirects (h : Hop serve c initialUrl call P post) (hP : P s) :
    wp serve c (client.sendFollowingRedirects operation initialUrl call).run post s :=
  wp_sendFollowingFrom h _ _ _ ⟨rfl, rfl⟩ hP nofun

/-- Chains that are tried again: `P` holds after each of them. -/
theorem wp_sendSafeFrom (h : Hop serve c initialUrl call P post) (hkeep : ∀ r t, post r t → P t)
    (hlost : ∀ message t, P t → post (.error (.ambiguous message)) t) (attempts attempt : Nat) (hP : P s) :
    wp serve c (client.sendSafeFrom operation initialUrl call attempts attempt).run post s := by
  induction attempts generalizing attempt s with
  | zero => exact hlost _ _ hP
  | succ attempts ih =>
    rw [sendSafeFrom]
    refine wp_bind.2 (wp_mono (fun r t hpost => ?_) (wp_sendFollowingRedirects h hP))
    have hP' := hkeep r t hpost
    cases r with
    | ok response =>
      dsimp only
      split_ifs
      · exact ih _ hP'
      · exact hpost
    | error error =>
      cases error with
      | ambiguous message =>
        dsimp only
        split_ifs
        · exact ih _ hP'
        · exact hpost
      | rejected kind message => exact hpost
      | integrity message => exact hpost

theorem wp_sendSafe (h : Hop serve c initialUrl call P post) (hkeep : ∀ r t, post r t → P t)
    (hlost : ∀ message t, P t → post (.error (.ambiguous message)) t) (hP : P s) :
    wp serve c (client.sendSafe operation initialUrl call).run post s :=
  wp_sendSafeFrom h hkeep hlost _ _ hP

end Chain

section Windows

variable {stream : String} {offset : UInt64} {maxBytes : Nat} {P : σ → Prop}
  {post : Except StoreError (Window offset) → σ → Prop}

/-- What one request for a window needs. -/
abbrev WindowHop (client : HttpUrsula) (serve : Serve HttpRequest (fun _ => Except SendError Response) σ)
    (c : Contract σ) (stream : String) (offset : UInt64) (maxBytes : Nat) (P : σ → Prop)
    (post : Except StoreError (Window offset) → σ → Prop) : Prop :=
  Hop serve c (client.windowUrl stream offset maxBytes) .get P
    fun r t => post (r.bind fun response => response.window offset maxBytes) t

theorem wp_readExactWindowFrom (h : client.WindowHop serve c stream offset maxBytes P post)
    (hkeep : ∀ r t, post r t → P t)
    (hlost : ∀ message t, P t → post (.error (.ambiguous message)) t) (attempts attempt : Nat)
    (hP : P s) :
    wp serve c (client.readExactWindowFrom stream offset maxBytes attempts attempt).run post s := by
  induction attempts generalizing attempt s with
  | zero => exact hlost _ _ hP
  | succ attempts ih =>
    rw [readExactWindowFrom]
    have honce : wp serve c (client.readExactWindowOnce stream offset maxBytes).run post s := by
      apply wp_run_seq (wp_sendFollowingRedirects h hP)
      · intro response t hpost
        rw [wp_run_lift]
        exact hpost
      · exact fun e t hpost => hpost
    refine wp_bind.2 (wp_mono (fun r t hpost => ?_) honce)
    cases r with
    | ok window => exact hpost
    | error error =>
      dsimp only
      split_ifs
      · exact ih _ (hkeep _ t hpost)
      · exact hpost

theorem wp_readExactWindow (h : client.WindowHop serve c stream offset maxBytes P post)
    (hkeep : ∀ r t, post r t → P t)
    (hlost : ∀ message t, P t → post (.error (.ambiguous message)) t) (hP : P s) :
    wp serve c (client.readExactWindow stream offset maxBytes).run post s :=
  wp_readExactWindowFrom h hkeep hlost _ _ hP

end Windows

/-! ## The two reads -/

/-- A host that serves the bytes of a stream, which only grow. -/
structure Truthful (client : HttpUrsula)
    (serve : Serve HttpRequest (fun _ => Except SendError Response) σ) (c : Contract σ)
    (stream : String) (view : σ → Bytes) (P : σ → Prop) : Prop where
  stays : c.Stable P
  grows : ∀ {s t}, c.rely s t → Grows (view s) (view t)
  read : ∀ {s url x t}, url.path = (client.streamUrl stream).path → P s → serve s ⟨.get, url⟩ x t →
    c.inv t ∧ c.guar s t ∧ P t ∧ view t = view s ∧
      ∀ response, x = .ok response → response.status = 200 → ∀ offset maxBytes,
        url.query = some (windowQuery offset maxBytes) → response.Truthful (view s) offset

section Reads

variable {stream : String} {view : σ → Bytes} {P : σ → Prop}

/-- The bytes read so far, from a position on. -/
def HasRead (view : σ → Bytes) (P : σ → Prop) (start : Nat) (output : Bytes) (s : σ) : Prop :=
  P s ∧ output <+: (view s).drop start

omit [Reqwest] in
theorem HasRead.window {start : Nat} {output body : Bytes} (h : HasRead view P start output s)
    (hbody : body <+: (view s).drop (start + output.length)) :
    HasRead view P start (output ++ body) s := by
  obtain ⟨hP, rest, hrest⟩ := h
  refine ⟨hP, ?_⟩
  rw [← List.drop_drop, ← hrest, List.drop_left] at hbody
  rw [← hrest]
  exact List.prefix_append_right_inj output |>.2 hbody

/-- One window, after the bytes read so far. -/
theorem wp_window (h : client.Truthful serve c stream view P) {offset : UInt64} (maxBytes : Nat)
    {start : Nat} {output : Bytes} (hoffset : offset.toNat = start + output.length)
    (hread : HasRead view P start output s) :
    wp serve c (client.readExactWindow stream offset maxBytes).run
      (fun r t => HasRead view P start output t ∧ ∀ window, r = .ok window →
        HasRead view P start (output ++ window.body) t ∧
          (window.upToDate → window.nextOffset.toNat = (view t).length)) s := by
  apply wp_readExactWindow (P := HasRead view P start output) ?_ (fun r t ht => ht.1)
    (fun message t ht => ⟨ht, nofun⟩) hread
  constructor
  · intro s t hs hrely
    exact ⟨h.stays s t hs.1 hrely, hs.2.trans ((h.grows hrely).drop start)⟩
  · intro s url x t hpath hquery hs hserve
    obtain ⟨hinv, hguar, hP, hview, htruthful⟩ := h.read hpath hs.1 hserve
    have ht : HasRead view P start output t := ⟨hP, hview ▸ hs.2⟩
    refine ⟨hinv, hguar, ht, fun window hwindow => ?_⟩
    obtain ⟨response, hx, hwindow⟩ := bind_eq_ok.1 hwindow
    obtain rfl := received_eq_ok.1 hx
    obtain ⟨hbody, hdone⟩ := Response.Truthful.window
      (fun hstatus => htruthful response rfl hstatus offset maxBytes hquery) hwindow
    rw [← hview] at hbody hdone
    rw [hoffset] at hbody
    exact ⟨ht.window hbody, hdone⟩
  · intro s url response t hpath hs hserve _
    obtain ⟨_, _, hP, hview, _⟩ := h.read hpath hs.1 hserve
    have ht : HasRead view P start output t := ⟨hP, hview ▸ hs.2⟩
    exact ⟨ht, fun message => ⟨ht, nofun⟩⟩

omit [Reqwest] in
theorem failed_read {holds : Prop} {post : Bytes → Prop} {error : StoreError} (h : holds) :
    holds ∧ ∀ bytes, (Except.error error : Except StoreError Bytes) = .ok bytes → post bytes := by
  refine ⟨h, fun bytes hbytes => ?_⟩
  cases hbytes

/-- What `read_all` answers is all that the stream holds at that moment. -/
theorem wp_readAllFrom (h : client.Truthful serve c stream view P) {output : Bytes} {offset : UInt64}
    (hoffset : offset.toNat = output.length) (hread : HasRead view P 0 output s) :
    wp serve c (client.readAllFrom stream output offset).run
      (fun r t => P t ∧ ∀ bytes, r = .ok bytes → bytes = view t) s := by
  induction hmeasure : client.config.maxStreamBytes - output.length using Nat.strong_induction_on
    generalizing output offset s with
  | _ n ih =>
  rw [readAllFrom]
  apply wp_run_seq (wp_window h client.config.readChunkBytes (by omega) hread)
  · intro window t ht
    have hP := ht.1.1
    obtain ⟨hread', hend⟩ := ht.2 window rfl
    have hnext := window.next_eq
    by_cases hprogress : window.nextOffset < offset ∨
        window.nextOffset = offset ∧ ¬ window.upToDate
    · rw [dif_pos hprogress]
      exact failed_read hP
    rw [dif_neg hprogress]
    split
    · exact failed_read hP
    rename_i nextLen hlen
    split_ifs with hmax hdone
    · exact failed_read hP
    · refine ⟨hP, fun bytes hbytes => ?_⟩
      cases hbytes
      have hlength := hend hdone
      have hprefix := hread'.2
      rw [List.drop_zero] at hprefix
      refine hprefix.eq_of_length ?_
      rw [List.length_append]
      omega
    · have hbody := window.length_pos_of_progress hprogress hdone
      obtain ⟨rfl, _⟩ := checkedAdd_eq_some.1 hlen
      refine ih _ ?_ ?_ hread' rfl
      · rw [List.length_append]
        omega
      · rw [List.length_append]
        omega
  · exact fun error t ht => failed_read ht.1.1

theorem wp_readAll (h : client.Truthful serve c stream view P) (hP : P s) :
    wp serve c (client.readAll stream).run
      (fun r t => P t ∧ ∀ bytes, r = .ok bytes → bytes = view t) s :=
  wp_readAllFrom h rfl ⟨hP, List.nil_prefix⟩

/-- What `read_range` answers is the range of the stream. -/
theorem wp_readRangeFrom (h : client.Truthful serve c stream view P) {start length : Nat}
    {output : Bytes} {next : UInt64} (hnext : next.toNat = start + output.length)
    (hread : HasRead view P start output s) (hnonempty : start < next.toNat ∨ output.length < length) :
    wp serve c (client.readRangeFrom stream length output next).run
      (fun r t => P t ∧ ∀ bytes, r = .ok bytes → start + length ≤ (view t).length ∧
        bytes = ((view t).drop start).take length) s := by
  induction hmeasure : length - output.length using Nat.strong_induction_on
    generalizing output next s with
  | _ n ih =>
  rw [readRangeFrom]
  split_ifs with hmore hlength
  · apply wp_run_seq (wp_window h (length - output.length) hnext hread)
    · intro window t ht
      have hread' := (ht.2 window rfl).1
      have hnext' := window.next_eq
      split_ifs with hprogress
      · exact failed_read ht.1.1
      · have hbody := List.length_pos_iff.2 (not_or.1 hprogress).2
        refine ih _ ?_ ?_ hread' (.inl ?_) rfl
        · rw [List.length_append]
          omega
        · rw [List.length_append]
          omega
        · omega
    · exact fun error t ht => failed_read ht.1.1
  · exact failed_read hread.1
  · refine ⟨hread.1, fun bytes hbytes => ?_⟩
    cases hbytes
    have hle := hread.2.length_le
    rw [List.length_drop] at hle
    refine ⟨by omega, ?_⟩
    have htake := List.prefix_iff_eq_take.1 hread.2
    rwa [not_not.1 hlength] at htake

theorem wp_readRange (h : client.Truthful serve c stream view P) {offset : UInt64} {length : Nat}
    (hlength : length ≠ 0) (hP : P s) :
    wp serve c (client.readRange stream offset length).run
      (fun r t => P t ∧ ∀ bytes, r = .ok bytes → offset.toNat + length ≤ (view t).length ∧
        bytes = ((view t).drop offset.toNat).take length) s := by
  rw [readRange, if_neg hlength]
  exact wp_readRangeFrom h rfl ⟨hP, List.nil_prefix⟩ (.inr (Nat.pos_of_ne_zero hlength))

end Reads

end HttpUrsula

/-! ## The nodes -/

/-- The nodes of the store.  The streams of their disk are named by paths. -/
structure Cluster where
  disk : Disk
  /-- Appends under way that this process has sent. -/
  inflight : List Append
  /-- Appends under way whose sender has crashed. -/
  orphans : List Append
  /-- The producer ids that requests have carried. -/
  sent : List String

/-- Nobody can tell from the answer whether the request has been carried out. -/
def Unclear : Except SendError Response → Prop
  | .error _ => True
  | .ok response => isUnknownStatus response.status

namespace Cluster

def empty : Cluster := ⟨.empty, [], [], []⟩

def underWay (n : Cluster) : List Append := n.inflight ++ n.orphans

def deliver (n : Cluster) (app : Append) : Cluster := { n with disk := n.disk.append app }

/-- What a crash of the gateway leaves. -/
def orphaned (n : Cluster) : Cluster :=
  { n with inflight := [], orphans := n.inflight ++ n.orphans }

/-- What the nodes may answer to a request, and what has then become of them.  A node that
redirects does nothing, and a node that refuses an append does not accept it.  With `late`
an append whose sender got no answer may be carried out at any later moment. -/
inductive Serves (late : Bool) (n : Cluster) :
    (request : HttpRequest) → Except SendError Response → Cluster → Prop
  | read {url : Url} {x : Except SendError Response}
      (h : ∀ response, x = .ok response → response.status = 200 → ∀ offset maxBytes,
        url.query = some (windowQuery offset maxBytes) →
          response.Truthful (n.disk.read url.path) offset) :
      Serves late n ⟨.get, url⟩ x n
  | bucket {url : Url} {x : Except SendError Response} : Serves late n ⟨.put none, url⟩ x n
  | created {url : Url} {contentType : String} {x : Except SendError Response} :
      Serves late n ⟨.put (some contentType), url⟩ x { n with disk := n.disk.ensure url.path }
  | notCreated {url : Url} {contentType : String} {x : Except SendError Response}
      (h : ∀ response, x = .ok response → response.status ≠ 201 ∧ response.status ≠ 200) :
      Serves late n ⟨.put (some contentType), url⟩ x n
  | committed {url : Url} {contentType : String} {producer : ProducerTuple} {body : Bytes}
      {response : Response} (haccepts : n.disk.Accepts ⟨url.path, producer, body⟩)
      (hstatus : response.status = 200)
      (hnext : ∀ next, parseOffset response headerNextOffset = .ok next →
        next = n.disk.endOffset ⟨url.path, producer, body⟩) :
      Serves late n ⟨.post contentType producer body, url⟩ (.ok response)
        { n with
          disk := n.disk.accept ⟨url.path, producer, body⟩
          sent := producer.id :: n.sent }
  | duplicate {url : Url} {contentType : String} {producer : ProducerTuple} {body : Bytes}
      {response : Response} {endOffset : UInt64}
      (haccepts : ¬ n.disk.Accepts ⟨url.path, producer, body⟩)
      (hrefusal : n.disk.refusal ⟨url.path, producer, body⟩ = .ok (.duplicate endOffset))
      (hstatus : response.status = 204)
      (hnext : ∀ next, parseOffset response headerNextOffset = .ok next → next = endOffset) :
      Serves late n ⟨.post contentType producer body, url⟩ (.ok response)
        { n with sent := producer.id :: n.sent }
  | refused {url : Url} {contentType : String} {producer : ProducerTuple} {body : Bytes}
      {response : Response} (hstatus : response.status ≠ 200 ∧ response.status ≠ 204)
      (hclear : ¬ isUnknownStatus response.status) :
      Serves late n ⟨.post contentType producer body, url⟩ (.ok response)
        { n with sent := producer.id :: n.sent }
  | failed {url : Url} {contentType : String} {producer : ProducerTuple} {body : Bytes}
      {x : Except SendError Response} (hx : Unclear x) :
      Serves late n ⟨.post contentType producer body, url⟩ x
        { n with sent := producer.id :: n.sent }
  | unheard {url : Url} {contentType : String} {producer : ProducerTuple} {body : Bytes}
      {x : Except SendError Response} (hx : Unclear x) :
      Serves late n ⟨.post contentType producer body, url⟩ x
        { n with
          disk := n.disk.append ⟨url.path, producer, body⟩
          sent := producer.id :: n.sent }
  | delayed {url : Url} {contentType : String} {producer : ProducerTuple} {body : Bytes}
      {x : Except SendError Response} (hx : Unclear x) (hlate : late) :
      Serves late n ⟨.post contentType producer body, url⟩ x
        { n with
          inflight := ⟨url.path, producer, body⟩ :: n.inflight
          sent := producer.id :: n.sent }

/-! ## The nodes and the store of the trait -/

/-- The append as the nodes see it. -/
def under (path : String → String) (app : Append) : Append := { app with stream := path app.stream }

/-- The nodes show the streams of a store, of which they know the paths.  They may have
created a stream that the store does not have yet. -/
structure Shows (path : String → String) (streams : String → Prop) (n : Cluster) (w : World) :
    Prop where
  read : ∀ s, streams s → n.disk.read (path s) = w.disk.read s
  last : ∀ s, streams s → n.disk.last (path s) = w.disk.last s
  content : ∀ s, streams s → w.disk.content s ≠ none → n.disk.content (path s) ≠ none
  inflight : n.inflight = w.inflight.map (under path)
  orphans : n.orphans = w.orphans.map (under path)
  mine : ∀ app ∈ w.underWay, streams app.stream
  sent : ∀ attempt ∈ w.journal, attempt.app.producer.id ∈ n.sent

namespace Shows

variable {path : String → String} {streams : String → Prop} {n : Cluster} {w : World} {app : Append}

theorem accepts (h : Shows path streams n w) (happ : streams app.stream) :
    n.disk.Accepts (under path app) ↔ w.disk.Accepts app := by
  simp only [Disk.Accepts, under, h.read _ happ, h.last _ happ]

theorem endOffset (h : Shows path streams n w) (happ : streams app.stream) :
    n.disk.endOffset (under path app) = w.disk.endOffset app := by
  simp only [Disk.endOffset, under, h.read _ happ]

theorem refusal (h : Shows path streams n w) (happ : streams app.stream) :
    n.disk.refusal (under path app) = w.disk.refusal app := by
  simp only [Disk.refusal, under, h.last _ happ]
  rfl

/-- Both take an append. -/
theorem accept (h : Shows path streams n w) (hpath : Set.InjOn path {s | streams s})
    (happ : streams app.stream) :
    Shows path streams { n with disk := n.disk.accept (under path app) }
      { w with disk := w.disk.accept app } where
  read s hs := by
    by_cases hstream : s = app.stream
    · subst hstream
      show (n.disk.accept (under path app)).read (under path app).stream = _
      rw [Disk.read_accept_self, Disk.read_accept_self]
      exact congrArg (· ++ app.body) (h.read _ happ)
    · have hne : path s ≠ (under path app).stream := fun heq => hstream (hpath hs happ heq)
      simp only [Disk.read_accept_ne hstream, Disk.read_accept_ne hne, h.read s hs]
  last s hs := by
    funext id
    show (if path s = path app.stream ∧ id = app.producer.id then
        some (app.producer.sequence, n.disk.endOffset (under path app)) else n.disk.last (path s) id) =
      (if s = app.stream ∧ id = app.producer.id then
        some (app.producer.sequence, w.disk.endOffset app) else w.disk.last s id)
    simp only [hpath.eq_iff hs happ, h.endOffset happ, h.last s hs]
  content s hs hcontent := by
    by_cases hstream : s = app.stream
    · subst hstream
      simp [Disk.accept, under]
    · have hne : path s ≠ (under path app).stream := fun heq => hstream (hpath hs happ heq)
      rw [Disk.content_accept_ne hne]
      rw [Disk.content_accept_ne hstream] at hcontent
      exact h.content s hs hcontent
  inflight := h.inflight
  orphans := h.orphans
  mine := h.mine
  sent := h.sent

/-- An append reaches both. -/
theorem append (h : Shows path streams n w) (hpath : Set.InjOn path {s | streams s})
    (happ : streams app.stream) :
    Shows path streams (n.deliver (under path app)) (w.deliver app) := by
  by_cases haccepts : w.disk.Accepts app
  · rw [World.deliver, deliver, Disk.append_of_accepts haccepts,
      Disk.append_of_accepts ((h.accepts happ).2 haccepts)]
    exact h.accept hpath happ
  · rw [World.deliver, deliver, Disk.append_of_not_accepts haccepts,
      Disk.append_of_not_accepts (mt (h.accepts happ).1 haccepts)]
    exact h

/-- The nodes create a stream, and the store does not. -/
theorem created (h : Shows path streams n w) (stream : String) :
    Shows path streams { n with disk := n.disk.ensure stream } w where
  read s hs := by rw [Disk.read_ensure, h.read s hs]
  last s hs := by rw [Disk.last_ensure, h.last s hs]
  content s hs hcontent := by
    by_cases hstream : path s = stream
    · simp [Disk.ensure, hstream]
    · rw [Disk.content_ensure_ne _ hstream]
      exact h.content s hs hcontent
  inflight := h.inflight
  orphans := h.orphans
  mine := h.mine
  sent := h.sent

/-- The store creates a stream that the nodes have. -/
theorem ensured (h : Shows path streams n w) {stream : String}
    (hexists : n.disk.content (path stream) ≠ none) :
    Shows path streams n { w with disk := w.disk.ensure stream } where
  read s hs := by rw [Disk.read_ensure, h.read s hs]
  last s hs := by rw [Disk.last_ensure, h.last s hs]
  content s hs hcontent := by
    by_cases hstream : s = stream
    · subst hstream
      exact hexists
    · rw [Disk.content_ensure_ne _ hstream] at hcontent
      exact h.content s hs hcontent
  inflight := h.inflight
  orphans := h.orphans
  mine := h.mine
  sent := h.sent

/-- A request has carried a producer id. -/
theorem sending (h : Shows path streams n w) (id : String) :
    Shows path streams { n with sent := id :: n.sent } w where
  read := h.read
  last := h.last
  content := h.content
  inflight := h.inflight
  orphans := h.orphans
  mine := h.mine
  sent attempt hattempt := List.mem_cons_of_mem _ (h.sent attempt hattempt)

/-- The store notes an append that a request has carried. -/
theorem journaled (h : Shows path streams n w) {attempt : Attempt}
    (hsent : attempt.app.producer.id ∈ n.sent) :
    Shows path streams n { w with journal := attempt :: w.journal } where
  read := h.read
  last := h.last
  content := h.content
  inflight := h.inflight
  orphans := h.orphans
  mine := h.mine
  sent := List.forall_mem_cons.2 ⟨hsent, h.sent⟩

/-- An append is under way to both. -/
theorem submitted (h : Shows path streams n w) (happ : streams app.stream) :
    Shows path streams { n with inflight := under path app :: n.inflight }
      { w with inflight := app :: w.inflight } where
  read := h.read
  last := h.last
  content := h.content
  inflight := by rw [h.inflight, List.map_cons]
  orphans := h.orphans
  mine := List.forall_mem_cons.2 ⟨happ, h.mine⟩
  sent := h.sent

theorem underWay_eq (h : Shows path streams n w) : n.underWay = w.underWay.map (under path) := by
  rw [underWay, World.underWay, h.inflight, h.orphans, List.map_append]

end Shows

theorem shows_empty (path : String → String) (streams : String → Prop) :
    Shows path streams .empty .empty := by
  constructor <;> simp [Cluster.empty, World.empty, Disk.empty, Disk.read, World.underWay]

end Cluster

end LoroGateway
