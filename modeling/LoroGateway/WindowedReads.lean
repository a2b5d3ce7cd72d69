import LoroGateway.Redirects

/-!
# Reads in windows

* `HttpUrsula.says_readExactWindow` says what one window costs: requests that are
  missed, and a last one whose answer is the window.
* `WindowLog` is a conversation that asks for one window after another, each from
  where the last one ended; `says_readAllFrom` and `says_readRangeFrom` are the two
  loops over them.
* `HonestAnswer` is the answer of a server that serves a growing stream.
* `windowed_reads_exact` puts the two together.
-/

namespace LoroGateway

open ByteCodec CrashLogic

/-- A window in a conversation: its bytes, and whether they were the last ones. -/
structure Piece where
  body : Bytes
  upToDate : Bool

def Window.piece {offset : UInt64} (window : Window offset) : Piece :=
  ⟨window.body, window.upToDate⟩

/-- The bytes of some windows. -/
def joined (pieces : List Piece) : Bytes := (pieces.map Piece.body).flatten

namespace HttpUrsula

variable [Reqwest] (client : HttpUrsula) (stream : String)

/-- A request asks for the window at an offset. -/
def Asks (offset : UInt64) (maxBytes : Nat) (request : HttpRequest) : Prop :=
  request.call = .get ∧ client.Permitted (client.windowUrl stream offset maxBytes) request.url

/-- A request for a window whose answer is not one. -/
structure Missed (offset : UInt64) (maxBytes : Nat)
    (entry : Exchange HttpRequest fun _ => Except SendError Response) : Prop where
  asks : client.Asks stream offset maxBytes entry.1
  missed : ∀ response, entry.2 = .ok response → ∀ window,
    response.window offset maxBytes ≠ .ok window

/-- A request for a window whose answer is one. -/
structure Hit (offset : UInt64) (maxBytes : Nat)
    (entry : Exchange HttpRequest fun _ => Except SendError Response) (window : Window offset) :
    Prop where
  asks : client.Asks stream offset maxBytes entry.1
  hit : ∃ response, entry.2 = .ok response ∧ response.window offset maxBytes = .ok window

variable {client stream}

/-! ## One window -/

/-- How the requests for one window end. -/
inductive Fetches (client : HttpUrsula) (stream : String) (offset : UInt64) (maxBytes : Nat) :
    Conversation → Except StoreError (Window offset) → Prop
  | missed {log : Conversation} {error : StoreError} (some : log ≠ [])
      (all : ∀ entry ∈ log, client.Missed stream offset maxBytes entry) :
      Fetches client stream offset maxBytes log (.error error)
  | hit {front : Conversation} {entry : Exchange HttpRequest fun _ => Except SendError Response}
      {window : Window offset} (all : ∀ entry ∈ front, client.Missed stream offset maxBytes entry)
      (last : client.Hit stream offset maxBytes entry window) :
      Fetches client stream offset maxBytes (front ++ [entry]) (.ok window)

omit [Reqwest] in
theorem status_of_leaderRedirect {response : Response} (h : leaderRedirect response ≠ none) :
    response.status = 307 := by
  unfold leaderRedirect at h
  by_contra hstatus
  rw [if_neg hstatus] at h
  exact h rfl

theorem status_of_window {response : Response} {offset : UInt64} {maxBytes : Nat}
    {window : Window offset} (h : response.window offset maxBytes = .ok window) :
    response.status = 200 := by
  unfold Response.window at h
  by_contra hstatus
  rw [if_pos hstatus] at h
  split_ifs at h <;> cases h

/-- A chain of redirects ends with one answer; those before it are redirects. -/
theorem says_chain {operation : String} {initialUrl : Url} {call : Call} {rounds redirects : Nat}
    {currentUrl : Url} {visited : List Url} {log : Conversation} {r : Except StoreError Response}
    (hcurrent : client.Permitted initialUrl currentUrl)
    (hrounds : redirects + rounds = client.config.maxRedirects)
    (h : (client.sendFollowingFrom operation initialUrl call (rounds + 1) redirects currentUrl
      visited).run.Says log r) :
    ∃ front last, log = front ++ [last] ∧
      (∀ entry ∈ log, entry.1.call = call ∧ client.Permitted initialUrl entry.1.url) ∧
      (∀ entry ∈ front, ∀ response, entry.2 = .ok response → leaderRedirect response ≠ none) ∧
      Stops last.2 r := by
  induction rounds generalizing redirects currentUrl visited log with
  | zero =>
    obtain ⟨x, back, rfl, ⟨_, _, hlt, _⟩ | ⟨rfl, _, hstops⟩⟩ := says_sendFollowingFrom_succ h
    · omega
    · exact ⟨[], ⟨⟨call, currentUrl⟩, x⟩, rfl, List.forall_mem_singleton.2 ⟨rfl, hcurrent⟩,
        List.forall_mem_nil _, hstops⟩
  | succ rounds ih =>
    obtain ⟨x, back, rfl, ⟨target, hleads, _, _, hrest⟩ | ⟨rfl, _, hstops⟩⟩ :=
      says_sendFollowingFrom_succ h
    · obtain ⟨front, last, rfl, hall, hfront, hstops⟩ :=
        ih (permitted_of_leadsTo hleads) (by omega) hrest
      refine ⟨⟨⟨call, currentUrl⟩, x⟩ :: front, last, rfl,
        List.forall_mem_cons.2 ⟨⟨rfl, hcurrent⟩, hall⟩, List.forall_mem_cons.2 ⟨?_, hfront⟩, hstops⟩
      intro response heq
      have heq' : x = .ok response := heq
      subst heq'
      obtain ⟨_, _, hleader, _⟩ := leadsTo_eq_some.1 hleads
      simp [hleader]
    · exact ⟨[], ⟨⟨call, currentUrl⟩, x⟩, rfl, List.forall_mem_singleton.2 ⟨rfl, hcurrent⟩,
        List.forall_mem_nil _, hstops⟩

theorem missed_of_leaderRedirect {offset : UInt64} {maxBytes : Nat}
    {entry : Exchange HttpRequest fun _ => Except SendError Response}
    (hasks : client.Asks stream offset maxBytes entry.1)
    (h : ∀ response, entry.2 = .ok response → leaderRedirect response ≠ none) :
    client.Missed stream offset maxBytes entry where
  asks := hasks
  missed := by
    intro response heq window hwindow
    have hstatus := status_of_leaderRedirect (h response heq)
    rw [status_of_window hwindow] at hstatus
    cases hstatus

theorem says_readExactWindowOnce {offset : UInt64} {maxBytes : Nat} {log : Conversation}
    {r : Except StoreError (Window offset)}
    (h : (client.readExactWindowOnce stream offset maxBytes).run.Says log r) :
    Fetches client stream offset maxBytes log r := by
  rw [readExactWindowOnce] at h
  have hpermitted : client.Permitted (client.windowUrl stream offset maxBytes)
      (client.windowUrl stream offset maxBytes) := permitted_objectUrl (some stream) _
  rcases Prog.says_run_bind.1 h with ⟨response, log, back, hsend, hrest, rfl⟩ | ⟨e, hsend, rfl⟩
  · obtain ⟨rfl, rfl⟩ := Prog.says_run_lift.1 hrest
    obtain ⟨front, last, rfl, hall, hfront, hstops⟩ :=
      says_chain hpermitted (Nat.zero_add _) hsend
    obtain ⟨response', heq, _, hr⟩ | ⟨⟨e, hr⟩, _⟩ := hstops
    · cases hr
      have hmissed : ∀ entry ∈ front, client.Missed stream offset maxBytes entry :=
        fun entry hentry => missed_of_leaderRedirect (hall entry (List.mem_append_left _ hentry))
          (hfront entry hentry)
      have hasks := hall last (List.mem_append_right front List.mem_cons_self)
      rw [List.append_nil]
      cases hwindow : response.window offset maxBytes with
      | ok window => exact .hit hmissed ⟨hasks, response, heq, hwindow⟩
      | error e =>
        refine .missed (by simp) (List.forall_mem_append.2 ⟨hmissed, ?_⟩)
        refine List.forall_mem_singleton.2 ⟨hasks, fun response' heq' window hok => ?_⟩
        cases heq.symm.trans heq'
        cases hwindow.symm.trans hok
    · cases hr
  · obtain ⟨front, last, rfl, hall, hfront, hstops⟩ :=
      says_chain hpermitted (Nat.zero_add _) hsend
    obtain ⟨response, _, _, hr⟩ | ⟨_, hlast⟩ := hstops
    · cases hr
    · refine .missed (by simp) (List.forall_mem_append.2 ⟨?_, List.forall_mem_singleton.2 ?_⟩)
      · exact fun entry hentry => missed_of_leaderRedirect
          (hall entry (List.mem_append_left _ hentry)) (hfront entry hentry)
      · exact missed_of_leaderRedirect (hall last (List.mem_append_right front List.mem_cons_self))
          hlast

/-- Another attempt comes after missed requests only. -/
theorem Fetches.after_missed {offset : UInt64} {maxBytes : Nat} {front back : Conversation}
    {r : Except StoreError (Window offset)}
    (hfront : ∀ entry ∈ front, client.Missed stream offset maxBytes entry)
    (h : Fetches client stream offset maxBytes back r) :
    Fetches client stream offset maxBytes (front ++ back) r := by
  cases h with
  | missed hne hall =>
    exact .missed (List.append_ne_nil_of_right_ne_nil _ hne)
      (List.forall_mem_append.2 ⟨hfront, hall⟩)
  | hit hall hlast =>
    rw [← List.append_assoc]
    exact .hit (List.forall_mem_append.2 ⟨hfront, hall⟩) hlast

/-- One attempt is the last one, or its requests were missed and there is another. -/
theorem says_attempt {offset : UInt64} {maxBytes attempts attempt : Nat} {log : Conversation}
    {r : Except StoreError (Window offset)}
    (h : (client.readExactWindowFrom stream offset maxBytes (attempts + 1) attempt).run.Says log
      r) :
    Fetches client stream offset maxBytes log r ∨
      ∃ front back, (∀ entry ∈ front, client.Missed stream offset maxBytes entry) ∧
        attempt < client.config.safeRetries ∧ log = front ++ back ∧
        (client.readExactWindowFrom stream offset maxBytes attempts (attempt + 1)).run.Says
          back r := by
  rw [readExactWindowFrom, ExceptT.run_mk] at h
  obtain ⟨r', front, back, honce, hrest, rfl⟩ := Prog.says_bind.1 h
  have hfetches := says_readExactWindowOnce honce
  cases r' with
  | ok window =>
    obtain ⟨rfl, rfl⟩ := Prog.says_ret.1 hrest
    rw [List.append_nil]
    exact .inl hfetches
  | error error =>
    simp only at hrest
    split_ifs at hrest with hretry
    · cases hfetches with
      | missed _ hall => exact .inr ⟨front, back, hall, hretry.2, rfl, hrest⟩
    · obtain ⟨rfl, rfl⟩ := Prog.says_ret.1 hrest
      rw [List.append_nil]
      exact .inl hfetches

theorem says_readExactWindowFrom {offset : UInt64} {maxBytes attempts attempt : Nat}
    {log : Conversation} {r : Except StoreError (Window offset)}
    (hattempts : attempt + attempts = client.config.safeRetries)
    (h : (client.readExactWindowFrom stream offset maxBytes (attempts + 1) attempt).run.Says log
      r) :
    Fetches client stream offset maxBytes log r := by
  induction attempts generalizing attempt log with
  | zero =>
    rcases says_attempt h with hfetches | ⟨_, _, _, hlt, _⟩
    · exact hfetches
    · omega
  | succ attempts ih =>
    rcases says_attempt h with hfetches | ⟨front, back, hmissed, _, rfl, hrest⟩
    · exact hfetches
    · exact (ih (by omega) hrest).after_missed hmissed

theorem says_readExactWindow {offset : UInt64} {maxBytes : Nat} {log : Conversation}
    {r : Except StoreError (Window offset)}
    (h : (client.readExactWindow stream offset maxBytes).run.Says log r) :
    Fetches client stream offset maxBytes log r :=
  says_readExactWindowFrom (Nat.zero_add _) h

/-! ## One window after another -/

/-- A conversation that asks for windows from an offset on, each from where the one before
ended.  How much is asked for depends on how many bytes have been read. -/
inductive WindowLog (client : HttpUrsula) (stream : String) (maxBytes : Nat → Nat) :
    Nat → UInt64 → Conversation → List Piece → Prop
  | nil (read : Nat) (offset : UInt64) : WindowLog client stream maxBytes read offset [] []
  | missed {read : Nat} {offset : UInt64}
      {entry : Exchange HttpRequest fun _ => Except SendError Response} {log : Conversation}
      {pieces : List Piece} (head : client.Missed stream offset (maxBytes read) entry)
      (tail : WindowLog client stream maxBytes read offset log pieces) :
      WindowLog client stream maxBytes read offset (entry :: log) pieces
  | hit {read : Nat} {offset : UInt64}
      {entry : Exchange HttpRequest fun _ => Except SendError Response} {window : Window offset}
      {log : Conversation} {pieces : List Piece}
      (head : client.Hit stream offset (maxBytes read) entry window)
      (tail : WindowLog client stream maxBytes (read + window.body.length) window.nextOffset log
        pieces) :
      WindowLog client stream maxBytes read offset (entry :: log) (window.piece :: pieces)

section Log

variable {maxBytes : Nat → Nat} {read : Nat} {offset : UInt64} {front back : Conversation}
  {pieces : List Piece}

theorem WindowLog.after_missed
    (hfront : ∀ entry ∈ front, client.Missed stream offset (maxBytes read) entry)
    (h : WindowLog client stream maxBytes read offset back pieces) :
    WindowLog client stream maxBytes read offset (front ++ back) pieces := by
  induction front with
  | nil => exact h
  | cons entry front ih =>
    obtain ⟨hentry, hfront⟩ := List.forall_mem_cons.1 hfront
    exact .missed hentry (ih hfront)

theorem Fetches.windowLog_error {error : StoreError}
    (h : Fetches client stream offset (maxBytes read) front (.error error)) :
    WindowLog client stream maxBytes read offset front [] := by
  cases h with
  | missed _ hall =>
    rw [← List.append_nil front]
    exact .after_missed hall (.nil read offset)

theorem Fetches.windowLog_ok {window : Window offset}
    (h : Fetches client stream offset (maxBytes read) front (.ok window))
    (hback : WindowLog client stream maxBytes (read + window.body.length) window.nextOffset back
      pieces) :
    WindowLog client stream maxBytes read offset (front ++ back) (window.piece :: pieces) := by
  cases h with
  | hit hall hlast =>
    rw [List.append_assoc]
    exact .after_missed hall (.hit hlast hback)

end Log

/-- What the loop of `read_all_observed` reads, from some bytes on. -/
structure ReadsAll (client : HttpUrsula) (output : Bytes) (pieces : List Piece)
    (r : Except StoreError Bytes) : Prop where
  bounded : output.length + pieces.length ≤ client.config.maxStreamBytes + 1
  exact_ok : ∀ bytes, r = .ok bytes → bytes = output ++ joined pieces ∧
    bytes.length ≤ client.config.maxStreamBytes ∧ ∃ last ∈ pieces.getLast?, last.upToDate

omit [Reqwest] in
theorem ReadsAll.of_error {output : Bytes} {pieces : List Piece} {error : StoreError}
    (h : output.length + pieces.length ≤ client.config.maxStreamBytes + 1) :
    ReadsAll client output pieces (.error error) :=
  ⟨h, by simp⟩

omit [Reqwest] in
theorem ReadsAll.cons {output : Bytes} {piece : Piece} {pieces : List Piece}
    {r : Except StoreError Bytes} (hbody : 0 < piece.body.length)
    (h : ReadsAll client (output ++ piece.body) pieces r) :
    ReadsAll client output (piece :: pieces) r where
  bounded := by
    have hbounded := h.bounded
    rw [List.length_append] at hbounded
    rw [List.length_cons]
    omega
  exact_ok := by
    intro bytes hr
    obtain ⟨hbytes, hlength, last, hlast, hdone⟩ := h.exact_ok bytes hr
    refine ⟨?_, hlength, last, ?_, hdone⟩
    · rw [hbytes, List.append_assoc]
      rfl
    · rw [List.getLast?_cons, Option.mem_def.1 hlast]
      rfl

theorem says_readAllFrom {output : Bytes} {offset : UInt64} {log : Conversation}
    {r : Except StoreError Bytes} (houtput : output.length ≤ client.config.maxStreamBytes)
    (h : (client.readAllFrom stream output offset).run.Says log r) :
    ∃ pieces, WindowLog client stream (fun _ => client.config.readChunkBytes) output.length offset
      log pieces ∧ ReadsAll client output pieces r := by
  induction hmeasure : client.config.maxStreamBytes - output.length using Nat.strong_induction_on
    generalizing output offset log with
  | _ n ih =>
  rw [readAllFrom] at h
  rcases Prog.says_run_bind.1 h with ⟨window, front, back, hwindow, hrest, rfl⟩ | ⟨e, hwindow, rfl⟩
  · have hfetches := says_readExactWindow hwindow
    have hend : ∀ e, back = [] ∧ r = .error e → ∃ pieces, WindowLog client stream
        (fun _ => client.config.readChunkBytes) output.length offset (front ++ back) pieces ∧
        ReadsAll client output pieces r := by
      rintro e ⟨rfl, rfl⟩
      exact ⟨[window.piece], hfetches.windowLog_ok (.nil _ _),
        .of_error (Nat.succ_le_succ houtput)⟩
    by_cases hprogress : window.nextOffset < offset ∨
        window.nextOffset = offset ∧ ¬ window.upToDate
    · rw [dif_pos hprogress] at hrest
      exact hend _ (Prog.says_run_throw.1 hrest)
    rw [dif_neg hprogress] at hrest
    split at hrest
    · exact hend _ (Prog.says_run_throw.1 hrest)
    rename_i nextLen hlen
    obtain ⟨rfl, _⟩ := checkedAdd_eq_some.1 hlen
    by_cases hmax : client.config.maxStreamBytes < output.length + window.body.length
    · rw [dif_pos hmax] at hrest
      exact hend _ (Prog.says_run_throw.1 hrest)
    rw [dif_neg hmax] at hrest
    by_cases hdone : window.upToDate
    · rw [dif_pos hdone] at hrest
      obtain ⟨rfl, rfl⟩ := Prog.says_run_pure.1 hrest
      refine ⟨[window.piece], hfetches.windowLog_ok (.nil _ _), Nat.succ_le_succ houtput, ?_⟩
      intro bytes hr
      cases hr
      refine ⟨?_, ?_, window.piece, rfl, hdone⟩
      · simp [joined, Window.piece]
      · rw [List.length_append]
        omega
    · rw [dif_neg hdone] at hrest
      have hbody := window.length_pos_of_progress hprogress hdone
      have hlength : (output ++ window.body).length = output.length + window.body.length :=
        List.length_append
      obtain ⟨pieces, hlog, hreads⟩ := ih _ (by omega) (by omega) hrest rfl
      rw [hlength] at hlog
      exact ⟨window.piece :: pieces, hfetches.windowLog_ok hlog, hreads.cons hbody⟩
  · have hfetches := says_readExactWindow hwindow
    exact ⟨[], hfetches.windowLog_error, .of_error (by simpa using Nat.le_succ_of_le houtput)⟩

theorem says_readAllObserved {log : Conversation} {r : Except StoreError Bytes}
    (h : (client.readAllObserved stream).run.Says log r) :
    ∃ pieces, WindowLog client stream (fun _ => client.config.readChunkBytes) 0 0 log pieces ∧
      ReadsAll client [] pieces r :=
  says_readAllFrom (Nat.zero_le _) h

theorem says_readRangeFrom {length : Nat} {output : Bytes} {next : UInt64} {log : Conversation}
    {r : Except StoreError Bytes}
    (h : (client.readRangeFrom stream length output next).run.Says log r) :
    ∃ pieces, WindowLog client stream (fun read => length - read) output.length next log pieces ∧
      ∀ bytes, r = .ok bytes → bytes = output ++ joined pieces ∧ bytes.length = length := by
  induction hmeasure : length - output.length using Nat.strong_induction_on
    generalizing output next log with
  | _ n ih =>
  rw [readRangeFrom] at h
  by_cases hmore : output.length < length
  · rw [dif_pos hmore] at h
    rcases Prog.says_run_bind.1 h with
      ⟨window, front, back, hwindow, hrest, rfl⟩ | ⟨e, hwindow, rfl⟩
    · have hfetches := says_readExactWindow hwindow
      by_cases hprogress : window.nextOffset ≤ next ∨ window.body = []
      · rw [dif_pos hprogress] at hrest
        obtain ⟨rfl, rfl⟩ := Prog.says_run_throw.1 hrest
        exact ⟨[window.piece], hfetches.windowLog_ok (.nil _ _), by simp⟩
      · rw [dif_neg hprogress] at hrest
        have hbody := List.length_pos_iff.2 (not_or.1 hprogress).2
        have hlength : (output ++ window.body).length = output.length + window.body.length :=
          List.length_append
        obtain ⟨pieces, hlog, hreads⟩ := ih _ (by omega) hrest rfl
        rw [hlength] at hlog
        refine ⟨window.piece :: pieces, hfetches.windowLog_ok hlog, fun bytes hr => ?_⟩
        obtain ⟨hbytes, hexact⟩ := hreads bytes hr
        refine ⟨?_, hexact⟩
        rw [hbytes, List.append_assoc]
        rfl
    · have hfetches := says_readExactWindow hwindow
      exact ⟨[], hfetches.windowLog_error, by simp⟩
  · rw [dif_neg hmore] at h
    split_ifs at h with hlength
    · obtain ⟨rfl, rfl⟩ := Prog.says_run_throw.1 h
      exact ⟨[], .nil _ _, by simp⟩
    · obtain ⟨rfl, rfl⟩ := Prog.says_run_pure.1 h
      refine ⟨[], .nil _ _, fun bytes hr => ?_⟩
      cases hr
      simp [joined, not_not.1 hlength]

theorem says_readRange {offset : UInt64} {length : Nat} {log : Conversation}
    {r : Except StoreError Bytes} (h : (client.readRange stream offset length).run.Says log r) :
    ∃ pieces, WindowLog client stream (fun read => length - read) 0 offset log pieces ∧
      ∀ bytes, r = .ok bytes → bytes = joined pieces ∧ bytes.length = length := by
  rw [readRange] at h
  split_ifs at h with hlength
  · obtain ⟨rfl, rfl⟩ := Prog.says_run_pure.1 h
    refine ⟨[], .nil _ _, fun bytes hr => ?_⟩
    cases hr
    exact ⟨rfl, hlength.symm⟩
  · exact says_readRangeFrom h

/-! ## An honest server -/

/-- The answer of a server that serves a stream: a window from where it is asked for, which
is empty only behind the end, and which says whether it reaches the end. -/
structure HonestAnswer (bytes : Bytes) (offset : UInt64) (maxBytes : Nat) (body : Bytes)
    (response : Response) : Prop where
  status : response.status = 200
  chunks : response.chunks.flatten = body
  complete : response.bodyEnd = .complete
  next : ∃ n, parseOffset response headerNextOffset = .ok n ∧
    n.toNat = offset.toNat + body.length
  slice : body <+: bytes.drop offset.toNat
  bounded : body.length ≤ maxBytes
  nonempty : body = [] → bytes.length ≤ offset.toNat
  up_to_date : response.isUpToDate = decide (offset.toNat + body.length = bytes.length)

omit [Reqwest] in
theorem readChunks_complete {maxBytes : Nat} {chunks : List Bytes} {output : Bytes}
    (hmax : output.length + chunks.flatten.length ≤ maxBytes)
    (hword : output.length + chunks.flatten.length < wordSize) :
    readChunks maxBytes .complete output chunks = .ok (output ++ chunks.flatten) := by
  induction chunks generalizing output with
  | nil => simp [readChunks]
  | cons chunk chunks ih =>
    rw [List.flatten_cons, List.length_append] at hmax hword
    have hlength : (output ++ chunk).length = output.length + chunk.length := List.length_append
    have hadd : checkedAdd output.length chunk.length = some (output.length + chunk.length) :=
      checkedAdd_eq_some.2 ⟨rfl, by omega⟩
    rw [readChunks, okOr_bind_of hadd, check_bind_of (by omega), ih (by omega) (by omega),
      List.flatten_cons, List.append_assoc]

theorem window_of_honest {bytes body : Bytes} {offset : UInt64} {maxBytes : Nat}
    {response : Response} (h : HonestAnswer bytes offset maxBytes body response) :
    ∃ window, response.window offset maxBytes = .ok window ∧ window.body = body ∧
      window.upToDate = response.isUpToDate := by
  obtain ⟨n, hn, hnext⟩ := h.next
  have hn_lt : n.toNat < wordSize := n.toNat_lt
  have hlength : body.length < wordSize := by omega
  have hbody : readBodyBounded response maxBytes = .ok body := by
    have hchunks := h.chunks
    subst hchunks
    unfold readBodyBounded
    rw [h.complete, readChunks_complete (by simpa using h.bounded) (by simpa using hlength)]
    rfl
  have hword : u64OfUsize body.length = some (UInt64.ofNat body.length) := if_pos hlength
  have hadd : checkedAddU64 offset (UInt64.ofNat body.length) =
      some (offset + UInt64.ofNat body.length) := by
    refine if_pos ?_
    rw [UInt64.toNat_ofNat_of_lt' hlength]
    omega
  refine ⟨⟨body, n, response.isUpToDate, hnext⟩, ?_, rfl, rfl⟩
  unfold Response.window
  rw [if_neg (not_not.2 h.status), bind_of_ok hn, bind_of_ok hbody, okOr_bind_of hword,
    okOr_bind_of hadd, dif_pos hnext]
  rfl

omit [Reqwest] in
/-- A query tells which window is asked for. -/
theorem windowQuery_inj {offset offset' : UInt64} {maxBytes maxBytes' : Nat}
    (h : windowQuery offset maxBytes = windowQuery offset' maxBytes') :
    offset = offset' ∧ maxBytes = maxBytes' := by
  have hdigit {n : Nat} {c : Char} (hc : c ∈ n.repr.toList) : c ≠ '&' := by
    rw [Nat.toList_repr] at hc
    have hdigit := Nat.isDigit_of_mem_toDigits (by decide) (by decide) hc
    intro heq
    rw [heq] at hdigit
    exact absurd hdigit (by decide)
  have hsplit (offset : UInt64) (maxBytes : Nat) :
      (windowQuery offset maxBytes).toList = "offset=".toList ++ (offset.toNat.repr.toList ++
        '&' :: ("max_bytes=".toList ++ maxBytes.repr.toList)) := by
    simp [windowQuery]
  have htake (n : Nat) (tail : List Char) :
      (n.repr.toList ++ '&' :: tail).takeWhile (· ≠ '&') = n.repr.toList := by
    rw [List.takeWhile_append_of_pos (fun c hc => by simpa using hdigit hc)]
    simp
  have htext := congrArg String.toList h
  rw [hsplit, hsplit, List.append_cancel_left_eq] at htext
  have hoffset := congrArg (List.takeWhile (· ≠ '&')) htext
  rw [htake, htake, String.toList_inj, Nat.repr_inj] at hoffset
  rw [hoffset, List.append_cancel_left_eq, List.cons.injEq, List.append_cancel_left_eq,
    String.toList_inj, Nat.repr_inj] at htext
  exact ⟨UInt64.toNat_inj.1 hoffset, htext.2⟩

theorem Asks.inj {offset offset' : UInt64} {maxBytes maxBytes' : Nat} {request : HttpRequest}
    (h : client.Asks stream offset maxBytes request)
    (h' : client.Asks stream offset' maxBytes' request) :
    offset = offset' ∧ maxBytes = maxBytes' := by
  have hquery := h.2.same.2.symm.trans h'.2.same.2
  exact windowQuery_inj (Option.some.inj hquery)

variable (client stream) in
/-- A server that serves a stream, and whose answers to other requests can be anything. -/
def Honest : Serve HttpRequest (fun _ => Except SendError Response) Bytes :=
  fun bytes request x bytes' => bytes' = bytes ∧ ∀ offset maxBytes,
    client.Asks stream offset maxBytes request →
      ∃ response body, x = .ok response ∧ HonestAnswer bytes offset maxBytes body response

variable (client stream) in
/-- The same, where any request can fail. -/
def HonestOrFailing : Serve HttpRequest (fun _ => Except SendError Response) Bytes :=
  fun bytes request x bytes' => bytes' = bytes ∧ ∀ offset maxBytes,
    client.Asks stream offset maxBytes request →
      (∃ response body, x = .ok response ∧ HonestAnswer bytes offset maxBytes body response) ∨
        ∀ response, x = .ok response → response.status ≠ 200

/-- Whoever writes appends. -/
def Grows (bytes bytes' : Bytes) : Prop := bytes <+: bytes'

section Growing

variable {bytes bytes' : Bytes} {position : Nat}

omit [Reqwest] in
theorem Grows.take_eq (h : Grows bytes bytes') (hposition : position ≤ bytes.length) :
    bytes'.take position = bytes.take position := by
  obtain ⟨tail, rfl⟩ := h
  exact List.take_append_of_le_length hposition

omit [Reqwest] in
theorem Grows.slice_eq {start length : Nat} (h : Grows bytes bytes')
    (hcommitted : start + length ≤ bytes.length) :
    (bytes'.drop start).take length = (bytes.drop start).take length := by
  obtain ⟨tail, rfl⟩ := h
  rw [List.drop_append_of_le_length (by omega), List.take_append_of_le_length]
  rw [List.length_drop]
  omega

omit [Reqwest] in
theorem Grows.length_le (h : Grows bytes bytes') : bytes.length ≤ bytes'.length :=
  List.IsPrefix.length_le h

omit [Reqwest] in
/-- A window goes on where the bytes before it end. -/
theorem take_of_slice {body : Bytes} (h : body <+: bytes.drop position) :
    bytes.take (position + body.length) = bytes.take position ++ body := by
  rw [List.take_add, ← List.prefix_iff_eq_take.1 h]

end Growing

theorem HonestAnswer.of_window {bytes body : Bytes} {offset : UInt64} {maxBytes : Nat}
    {response : Response} {window : Window offset}
    (h : HonestAnswer bytes offset maxBytes body response)
    (hwindow : response.window offset maxBytes = .ok window) :
    window.body = body ∧
      window.upToDate = decide (offset.toNat + body.length = bytes.length) := by
  obtain ⟨window', hwindow', hbody, hdone⟩ := window_of_honest h
  cases hwindow.symm.trans hwindow'
  exact ⟨hbody, hdone.trans h.up_to_date⟩

/-- What windows of a growing stream amount to. -/
theorem WindowLog.served {maxBytes : Nat → Nat} {read : Nat} {offset : UInt64}
    {log : Conversation} {pieces : List Piece} {bytes bytes' : Bytes}
    (h : WindowLog client stream maxBytes read offset log pieces)
    (hserved : Served (HonestOrFailing client stream) Grows bytes log bytes')
    (hoffset : offset.toNat ≤ bytes.length) :
    bytes.take offset.toNat ++ joined pieces <+: bytes' ∧
      ((∃ last ∈ pieces.getLast?, last.upToDate) →
        bytes.length ≤ offset.toNat + (joined pieces).length) := by
  induction h generalizing bytes with
  | nil read offset =>
    cases hserved
    refine ⟨?_, by simp⟩
    rw [joined, List.map_nil, List.flatten_nil, List.append_nil]
    exact List.take_prefix _ _
  | missed _ _ ih =>
    cases hserved with
    | cons others served rest =>
      obtain ⟨rfl, _⟩ := served
      have hgrows := others.length_le
      obtain ⟨hjoined, hlast⟩ := ih rest (by omega)
      rw [others.take_eq hoffset] at hjoined
      exact ⟨hjoined, fun hdone => Nat.le_trans hgrows (hlast hdone)⟩
  | @hit read offset entry window log pieces head _ ih =>
    cases hserved with
    | @cons _ _ u _ _ _ _ others served rest =>
      obtain ⟨rfl, hanswer⟩ := served
      have hgrows := others.length_le
      obtain ⟨response, heq, hwindow⟩ := head.hit
      obtain ⟨response', body, heq', hhonest⟩ := (hanswer _ _ head.asks).resolve_right
        (fun hfails => hfails response heq (status_of_window hwindow))
      cases heq.symm.trans heq'
      obtain ⟨hbody, hdone⟩ := hhonest.of_window hwindow
      have hslice := hhonest.slice
      rw [← hbody] at hslice hdone
      have hlength : window.body.length ≤ u.length - offset.toNat :=
        List.length_drop ▸ hslice.length_le
      have hnext := window.next_eq
      obtain ⟨hjoined, hlast⟩ := ih rest (by omega)
      rw [hnext, take_of_slice hslice, others.take_eq hoffset, List.append_assoc] at hjoined
      refine ⟨hjoined, fun hend => Nat.le_trans hgrows ?_⟩
      have htotal : (joined (window.piece :: pieces)).length =
          window.body.length + (joined pieces).length := List.length_append
      rw [htotal]
      cases pieces with
      | nil =>
        obtain ⟨last, hmem, hlast_done⟩ := hend
        cases hmem
        have hfull : offset.toNat + window.body.length = u.length :=
          of_decide_eq_true (hdone.symm.trans hlast_done)
        omega
      | cons piece pieces =>
        rw [List.getLast?_cons_cons] at hend
        have htail := hlast hend
        omega

/-- An honest server answers the first request. -/
theorem Fetches.served {offset : UInt64} {maxBytes : Nat} {front back : Conversation}
    {r : Except StoreError (Window offset)} {bytes bytes' : Bytes}
    (h : Fetches client stream offset maxBytes front r)
    (hserved : Served (Honest client stream) Grows bytes (front ++ back) bytes') :
    ∃ u window response, r = .ok window ∧ Grows bytes u ∧
      HonestAnswer u offset maxBytes window.body response ∧
      Served (Honest client stream) Grows u back bytes' := by
  have hanswers {entry : Exchange HttpRequest fun _ => Except SendError Response}
      {log : Conversation}
      (hserved : Served (Honest client stream) Grows bytes (entry :: log) bytes')
      (hasks : client.Asks stream offset maxBytes entry.1) :
      ∃ u window response, Grows bytes u ∧ entry.2 = .ok response ∧
        response.window offset maxBytes = .ok window ∧
        HonestAnswer u offset maxBytes window.body response ∧
        Served (Honest client stream) Grows u log bytes' := by
    cases hserved with
    | @cons _ _ u _ _ _ _ others served rest =>
      obtain ⟨rfl, hanswer⟩ := served
      obtain ⟨response, body, heq, hhonest⟩ := hanswer _ _ hasks
      obtain ⟨window, hwindow, hbody, _⟩ := window_of_honest hhonest
      exact ⟨u, window, response, others, heq, hwindow, hbody ▸ hhonest, rest⟩
  have hnot {entry : Exchange HttpRequest fun _ => Except SendError Response}
      {log : Conversation}
      (hserved : Served (Honest client stream) Grows bytes (entry :: log) bytes')
      (hmissed : client.Missed stream offset maxBytes entry) : False := by
    obtain ⟨_, window, response, _, heq, hwindow, _⟩ := hanswers hserved hmissed.asks
    exact hmissed.missed response heq window hwindow
  cases h with
  | missed hne hall =>
    cases front with
    | nil => exact absurd rfl hne
    | cons entry front => exact (hnot hserved (hall entry List.mem_cons_self)).elim
  | @hit front entry window hall hlast =>
    cases front with
    | nil =>
      obtain ⟨u, window', response, hgrows, heq, hwindow, hhonest, rest⟩ :=
        hanswers hserved hlast.asks
      obtain ⟨response', heq', hwindow'⟩ := hlast.hit
      cases heq.symm.trans heq'
      cases hwindow.symm.trans hwindow'
      exact ⟨u, window, response, rfl, hgrows, hhonest, rest⟩
    | cons entry' front => exact (hnot hserved (hall entry' List.mem_cons_self)).elim

/-- A committed slice is read. -/
theorem readRangeFrom_served {start length : Nat} {output : Bytes} {next : UInt64}
    {log : Conversation} {r : Except StoreError Bytes} {bytes bytes' : Bytes}
    (h : (client.readRangeFrom stream length output next).run.Says log r)
    (hserved : Served (Honest client stream) Grows bytes log bytes')
    (hnext : next.toNat = start + output.length) (hlength : output.length ≤ length)
    (hcommitted : start + length ≤ bytes.length)
    (houtput : output = (bytes.drop start).take output.length) :
    r = .ok ((bytes.drop start).take length) := by
  induction hmeasure : length - output.length using Nat.strong_induction_on
    generalizing output next log bytes with
  | _ n ih =>
  rw [readRangeFrom] at h
  by_cases hmore : output.length < length
  · rw [dif_pos hmore] at h
    rcases Prog.says_run_bind.1 h with
      ⟨window, front, back, hwindow, hrest, rfl⟩ | ⟨e, hwindow, rfl⟩
    · obtain ⟨u, window', response, hr, hgrows, hhonest, hserved⟩ :=
        (says_readExactWindow hwindow).served hserved
      cases hr
      have hu := hgrows.length_le
      have hne : window.body ≠ [] := by
        intro hempty
        have hend := hhonest.nonempty hempty
        omega
      have hpos := List.length_pos_iff.2 hne
      have hprogress : ¬ (window.nextOffset ≤ next ∨ window.body = []) := by
        rw [UInt64.le_iff_toNat_le, window.next_eq]
        simp only [hne, or_false]
        omega
      rw [dif_neg hprogress] at hrest
      have happend : (output ++ window.body).length = output.length + window.body.length :=
        List.length_append
      have hbounded := hhonest.bounded
      have hnext' := window.next_eq
      rw [← hgrows.slice_eq hcommitted]
      refine ih _ (by omega) hrest hserved (by omega) (by omega) (by omega) ?_ rfl
      -- the window goes on where the output ends
      have hslice : window.body <+: (u.drop start).drop output.length := by
        rw [List.drop_drop, ← hnext]
        exact hhonest.slice
      rw [happend, take_of_slice hslice, hgrows.slice_eq (by omega), ← houtput]
    · rw [← List.append_nil log] at hserved
      obtain ⟨_, _, _, hr, _⟩ := (says_readExactWindow hwindow).served hserved
      cases hr
  · rw [dif_neg hmore] at h
    have heq : output.length = length := by omega
    rw [if_neg (not_not.2 heq)] at h
    obtain ⟨rfl, rfl⟩ := Prog.says_run_pure.1 h
    rw [houtput, heq]

theorem readRange_served {offset : UInt64} {length : Nat} {log : Conversation}
    {r : Except StoreError Bytes} {bytes bytes' : Bytes}
    (h : (client.readRange stream offset length).run.Says log r)
    (hserved : Served (Honest client stream) Grows bytes log bytes')
    (hcommitted : offset.toNat + length ≤ bytes.length) :
    r = .ok ((bytes.drop offset.toNat).take length) := by
  rw [readRange] at h
  split_ifs at h with hlength
  · obtain ⟨rfl, rfl⟩ := Prog.says_run_pure.1 h
    rw [hlength]
    rfl
  · exact readRangeFrom_served h hserved (Nat.add_zero _).symm (Nat.zero_le _) hcommitted rfl

end HttpUrsula

open HttpUrsula

/-- Against any server the windows of a read are contiguous, bounded, and all that it answers;
against an honest one the answers are of the stream. -/
theorem windowed_reads_exact [Reqwest] (client : HttpUrsula) (stream : String) :
    (∀ answers : Nat → Except SendError Response,
      let run := (client.readAllObserved stream).run.converse fun n _ => answers n
      ∃ pieces, WindowLog client stream (fun _ => client.config.readChunkBytes) 0 0 run.1 pieces ∧
        pieces.length ≤ client.config.maxStreamBytes + 1 ∧
        ∀ bytes, run.2 = .ok bytes →
          bytes = joined pieces ∧ bytes.length ≤ client.config.maxStreamBytes) ∧
    (∀ (offset : UInt64) (length : Nat) (answers : Nat → Except SendError Response),
      let run := (client.readRange stream offset length).run.converse fun n _ => answers n
      ∃ pieces, WindowLog client stream (fun read => length - read) 0 offset run.1 pieces ∧
        ∀ bytes, run.2 = .ok bytes → bytes = joined pieces ∧ bytes.length = length) ∧
    (∀ start final bytes : Bytes, Runs (HonestOrFailing client stream) Grows
        (client.readAll stream).run start (.ok bytes) final →
      bytes <+: final ∧ start.length ≤ bytes.length) ∧
    ∀ (start final : Bytes) (offset : UInt64) (length : Nat) (r : Except StoreError Bytes),
      offset.toNat + length ≤ start.length →
      Runs (Honest client stream) Grows (client.readRange stream offset length).run start r final →
      r = .ok ((start.drop offset.toNat).take length) := by
  refine ⟨fun answers => ?_, fun offset length answers => ?_, ?_, ?_⟩
  · obtain ⟨pieces, hlog, hreads⟩ := says_readAllObserved
      (Prog.says_converse (fun n _ => answers n) (client.readAllObserved stream).run)
    refine ⟨pieces, hlog, ?_, fun bytes hr => ?_⟩
    · have hbounded := hreads.bounded
      rwa [List.length_nil, Nat.zero_add] at hbounded
    · obtain ⟨hbytes, hlength, _⟩ := hreads.exact_ok bytes hr
      exact ⟨hbytes, hlength⟩
  · exact says_readRange
      (Prog.says_converse (fun n _ => answers n) (client.readRange stream offset length).run)
  · intro start final bytes hrun
    obtain ⟨log, hsays, hserved⟩ := hrun.says
    obtain ⟨pieces, hlog, hreads⟩ := says_readAllObserved hsays
    obtain ⟨hbytes, _, hdone⟩ := hreads.exact_ok bytes rfl
    obtain ⟨hjoined, hlast⟩ := hlog.served hserved (Nat.zero_le _)
    rw [hbytes]
    exact ⟨hjoined, Nat.le_trans (hlast hdone) (Nat.le_of_eq (Nat.zero_add _))⟩
  · intro start final offset length r hcommitted hrun
    obtain ⟨log, hsays, hserved⟩ := hrun.says
    exact readRange_served hsays hserved hcommitted

/-! A stream of one byte to which one more is appended while it is read. -/

section Growth

def sampleWindow : Response where
  status := 200
  headers name :=
    if name = headerNextOffset then some (textHeader "2")
    else if name = headerUpToDate then some (textHeader "true")
    else none
  chunks := [[7], [8]]
  bodyEnd := .complete

theorem honest_sampleWindow {maxBytes : Nat} (h : 2 ≤ maxBytes) :
    HonestAnswer [7, 8] 0 maxBytes [7, 8] sampleWindow where
  status := rfl
  chunks := rfl
  complete := rfl
  next := ⟨2, by decide +kernel, rfl⟩
  slice := List.prefix_refl _
  bounded := h
  nonempty := by simp
  up_to_date := by decide +kernel

theorem runs_sampleWindow {start : Bytes} {maxBytes : Nat} (hstart : Grows start [7, 8])
    (h : 2 ≤ maxBytes) :
    ∃ window : Window 0, window.piece = ⟨[7, 8], true⟩ ∧
      Runs (Honest sampleClient "doc") Grows (sampleClient.readExactWindow "doc" 0 maxBytes).run
        start (.ok window) [7, 8] := by
  obtain ⟨window, hwindow, hbody, hdone⟩ := window_of_honest (honest_sampleWindow h)
  have hdone' : window.upToDate = true := hdone.trans (by decide +kernel)
  refine ⟨window, by rw [Window.piece, hbody, hdone'], ?_⟩
  have hserve : Honest sampleClient "doc" [7, 8] ⟨.get, sampleClient.windowUrl "doc" 0 maxBytes⟩
      (.ok sampleWindow) [7, 8] := by
    refine ⟨rfl, fun offset maxBytes' hasks => ?_⟩
    obtain ⟨rfl, rfl⟩ := hasks.inj ⟨rfl, permitted_objectUrl (some "doc") _⟩
    exact ⟨sampleWindow, [7, 8], rfl, honest_sampleWindow h⟩
  have hsend : Runs (Honest sampleClient "doc") Grows (sampleClient.sendFollowingRedirects
      "read stream" (sampleClient.windowUrl "doc" 0 maxBytes) .get).run start (.ok sampleWindow)
      [7, 8] := .call hstart hserve (.ret _ _)
  have honce : Runs (Honest sampleClient "doc") Grows
      (sampleClient.readExactWindowOnce "doc" 0 maxBytes).run start (.ok window) [7, 8] := by
    rw [readExactWindowOnce, ExceptT.run_bind]
    refine hsend.bind ?_
    show Runs _ _ (liftM (sampleWindow.window 0 maxBytes) : ExceptT StoreError HttpM _).run _ _ _
    rw [hwindow]
    exact .ret _ _
  exact honce.bind (.ret _ _)

theorem runs_readAll_sample : Runs (HonestOrFailing sampleClient "doc") Grows
    (sampleClient.readAll "doc").run [7] (.ok [7, 8]) [7, 8] := by
  obtain ⟨window, hpiece, hrun⟩ :=
    runs_sampleWindow (⟨[8], rfl⟩ : Grows [7] [7, 8]) (by decide : 2 ≤ 64 * 1024)
  obtain ⟨hbody, hdone⟩ := Piece.mk.inj hpiece
  have hnext : window.nextOffset.toNat = 2 := by rw [window.next_eq, hbody]; rfl
  have hprogress : ¬ (window.nextOffset < 0 ∨ window.nextOffset = 0 ∧ ¬ window.upToDate) := by
    rw [UInt64.lt_iff_toNat_lt, hnext]
    simp [hdone]
  have hadd : checkedAdd ([] : Bytes).length window.body.length = some 2 := by rw [hbody]; rfl
  rw [readAll, readAllObserved, readAllFrom, ExceptT.run_bind]
  refine (hrun.mono ?_ id).bind ?_
  · intro bytes request x bytes' hserve
    exact ⟨hserve.1, fun offset maxBytes hasks => .inl (hserve.2 offset maxBytes hasks)⟩
  · dsimp only
    rw [dif_neg hprogress]
    split
    · rename_i hnone
      cases hadd.symm.trans hnone
    · rename_i nextLen hsome
      cases hadd.symm.trans hsome
      rw [dif_neg (by decide), dif_pos hdone, hbody]
      exact .ret _ _

theorem runs_readRange_sample : Runs (Honest sampleClient "doc") Grows
    (sampleClient.readRange "doc" 0 2).run [7, 8] (.ok [7, 8]) [7, 8] := by
  obtain ⟨window, hpiece, hrun⟩ :=
    runs_sampleWindow (List.prefix_refl _ : Grows [7, 8] [7, 8]) (Nat.le_refl 2)
  have hbody : window.body = [7, 8] := (Piece.mk.inj hpiece).1
  have hprogress : ¬ (window.nextOffset ≤ 0 ∨ window.body = []) := by
    rw [UInt64.le_iff_toNat_le, window.next_eq, hbody]
    simp
  rw [readRange, if_neg (by decide), readRangeFrom, dif_pos (by decide), ExceptT.run_bind]
  refine hrun.bind ?_
  dsimp only
  rw [dif_neg hprogress, readRangeFrom, hbody, dif_neg (by decide), if_neg (by decide)]
  exact .ret _ _

theorem windowed_reads_exact_sample :
    (∃ bytes final, Runs (HonestOrFailing sampleClient "doc") Grows (sampleClient.readAll "doc").run
        [7] (.ok bytes) final ∧ bytes <+: final ∧ ([7] : Bytes).length ≤ bytes.length) ∧
      ∃ r, Runs (Honest sampleClient "doc") Grows (sampleClient.readRange "doc" 0 2).run [7, 8] r
        [7, 8] ∧ r = .ok [7, 8] := by
  have hreads := windowed_reads_exact sampleClient "doc"
  refine ⟨⟨[7, 8], [7, 8], runs_readAll_sample, ?_⟩, .ok [7, 8], runs_readRange_sample, ?_⟩
  · exact hreads.2.2.1 [7] [7, 8] [7, 8] runs_readAll_sample
  · exact hreads.2.2.2 [7, 8] [7, 8] 0 2 (.ok [7, 8]) (by decide) runs_readRange_sample

end Growth

end LoroGateway
