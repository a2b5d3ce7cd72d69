import LoroGateway.Lib.Conversation
import LoroGateway.Ursula

/-!
# Leader redirects

* `freshFront` is what is left of a list when it stops at its first repetition, and
  `nodup_freshFront_iff` says when the images of these elements repeat nothing.
* `HttpUrsula.leads` is where a sequence of answers leads, and
  `HttpUrsula.says_sendFollowingFrom` what a chain of redirects makes of it.
* `redirects_lawful_iff` is the law of the chains, with the condition under which
  no request target is visited twice.
-/

namespace LoroGateway

open ByteCodec CrashLogic

/-! ## The first repetition -/

section Repetition

variable {α β : Type} [DecidableEq α]

/-- The elements of a list up to the first one that has been seen. -/
def freshFront (seen : List α) : List α → List α
  | [] => []
  | a :: rest => if a ∈ seen then [] else a :: freshFront (a :: seen) rest

/-- The first element whose image is not new is not new itself. -/
def ReturnsExactly (f : α → β) (chain : List α) : Prop :=
  ∀ front a back, chain = front ++ a :: back → (front.map f).Nodup → f a ∈ front.map f → a ∈ front

/-- The same, behind the elements that have been seen. -/
def ReturnsExactlyTo (f : α → β) (seen chain : List α) : Prop :=
  ∀ front a back, chain = front ++ a :: back → ((front ++ seen).map f).Nodup →
    f a ∈ (front ++ seen).map f → a ∈ front ++ seen

omit [DecidableEq α] in
theorem returnsExactlyTo_cons {f : α → β} {seen rest : List α} {a : α} (ha : f a ∉ seen.map f) :
    ReturnsExactlyTo f seen (a :: rest) ↔ ReturnsExactlyTo f (a :: seen) rest := by
  have hperm (front : List α) : (front ++ a :: seen).Perm (a :: front ++ seen) :=
    List.perm_middle
  constructor
  · intro h front b back hrest hnodup hb
    have hfront : ((a :: front ++ seen).map f).Nodup :=
      ((hperm front).map f).nodup_iff.1 hnodup
    have hmem := h (a :: front) b back (by rw [hrest, List.cons_append]) hfront
      (((hperm front).map f).mem_iff.1 hb)
    exact (hperm front).mem_iff.2 hmem
  · intro h front b back hchain hnodup hb
    cases front with
    | nil =>
      cases hchain
      exact absurd hb ha
    | cons a' front =>
      cases hchain
      have hmem := h front b back rfl (((hperm front).map f).nodup_iff.2 hnodup)
        (((hperm front).map f).mem_iff.2 hb)
      exact (hperm front).mem_iff.1 hmem

theorem nodup_freshFront_from {f : α → β} {seen chain : List α} (hseen : (seen.map f).Nodup) :
    ((freshFront seen chain ++ seen).map f).Nodup ↔ ReturnsExactlyTo f seen chain := by
  induction chain generalizing seen with
  | nil =>
    refine iff_of_true hseen ?_
    intro front a back hchain
    cases front <;> cases hchain
  | cons a rest ih =>
    by_cases hmem : a ∈ seen
    · -- the chain comes back to an element itself
      rw [freshFront, if_pos hmem]
      refine iff_of_true hseen ?_
      intro front b back hchain hnodup _
      cases front with
      | nil =>
        cases hchain
        exact hmem
      | cons a' front =>
        cases hchain
        rw [List.cons_append, List.map_cons, List.nodup_cons] at hnodup
        exact absurd (List.mem_map_of_mem (List.mem_append_right front hmem)) hnodup.1
    · rw [freshFront, if_neg hmem]
      by_cases himage : f a ∈ seen.map f
      · -- it comes back to another element with the same image
        refine iff_of_false ?_ ?_
        · rw [List.cons_append, List.map_cons, List.nodup_cons, List.map_append]
          exact fun h => h.1 (List.mem_append_right _ himage)
        · intro h
          exact hmem (h [] a rest rfl hseen himage)
      · have hcons : ((a :: seen).map f).Nodup := List.nodup_cons.2 ⟨himage, hseen⟩
        rw [returnsExactlyTo_cons himage, ← ih hcons]
        exact (List.perm_middle.symm.map f).nodup_iff

theorem nodup_freshFront {f : α → β} {chain : List α} :
    ((freshFront [] chain).map f).Nodup ↔ ReturnsExactly f chain := by
  have h := @nodup_freshFront_from α β _ f [] chain List.nodup_nil
  simp only [ReturnsExactlyTo, List.append_nil] at h
  exact h

theorem freshFront_subset {seen chain : List α} {a : α} (h : a ∈ freshFront seen chain) :
    a ∈ chain := by
  induction chain generalizing seen with
  | nil => exact h
  | cons b rest ih =>
    rw [freshFront] at h
    split_ifs at h with hmem
    · cases h
    · rcases List.mem_cons.1 h with rfl | h
      · exact List.mem_cons_self
      · exact List.mem_cons_of_mem b (ih h)

theorem length_freshFront_le (seen chain : List α) :
    (freshFront seen chain).length ≤ chain.length := by
  induction chain generalizing seen with
  | nil => exact Nat.le_refl 0
  | cons b rest ih =>
    rw [freshFront]
    split_ifs with hmem
    · exact Nat.zero_le _
    · exact Nat.succ_le_succ (ih (b :: seen))

end Repetition

/-! ## One round -/

namespace HttpUrsula

/-- What the client makes of the answer to a request. -/
def received : Except SendError Response → Except StoreError Response
  | .ok response => .ok response
  | .error .timedOut => .error (.ambiguous "response header timeout")
  | .error (.failed error) => .error (.ambiguous error)

/-- A conversation of the client. -/
abbrev Conversation : Type := List (Exchange HttpRequest fun _ => Except SendError Response)

theorem says_send {request : HttpRequest} {log : Conversation} {r : Except StoreError Response} :
    (send request).run.Says log r ↔ ∃ x, log = [⟨request, x⟩] ∧ r = received x := by
  constructor
  · intro h
    cases h with
    | @call _ _ x log _ rest =>
      refine ⟨x, ?_⟩
      cases x with
      | ok response =>
        cases rest
        exact ⟨rfl, rfl⟩
      | error error =>
        cases error <;> cases rest <;> exact ⟨rfl, rfl⟩
  · rintro ⟨x, rfl, rfl⟩
    refine .call ?_
    cases x with
    | ok response => exact .ret _
    | error error => cases error <;> exact .ret _

theorem toOption_eq_some {ε α : Type} {r : Except ε α} {a : α} :
    r.toOption = some a ↔ r = .ok a := by
  cases r <;> simp [Except.toOption]

theorem received_eq_ok {x : Except SendError Response} {response : Response} :
    received x = .ok response ↔ x = .ok response := by
  cases x with
  | ok response' => simp [received]
  | error error => cases error <;> simp [received]

variable [Reqwest] {client : HttpUrsula}

/-- The URL that an answer leads to, if the client may follow it there. -/
def leadsTo (client : HttpUrsula) (operation : String) (initialUrl : Url) :
    Except SendError Response → Option Url
  | .error _ => none
  | .ok response =>
    (leaderRedirect response).bind fun leaderId => (leaderId.toStr.bind u64FromStr).bind fun _ =>
      (client.redirectTarget operation initialUrl response).toOption

theorem leadsTo_eq_some {operation : String} {initialUrl target : Url} {response : Response} :
    client.leadsTo operation initialUrl (.ok response) = some target ↔
      ∃ leaderId n, leaderRedirect response = some leaderId ∧
        leaderId.toStr.bind u64FromStr = some n ∧
        client.redirectTarget operation initialUrl response = .ok target := by
  unfold leadsTo
  simp only [Option.bind_eq_some_iff, toOption_eq_some]
  constructor
  · intro ⟨leaderId, hleader, n, hn, htarget⟩
    exact ⟨leaderId, n, hleader, hn, htarget⟩
  · intro ⟨leaderId, n, hleader, hn, htarget⟩
    exact ⟨leaderId, hleader, n, hn, htarget⟩

/-- How a chain ends with the answer to its last request. -/
def Stops (x : Except SendError Response) (r : Except StoreError Response) : Prop :=
  (∃ response, x = .ok response ∧ leaderRedirect response = none ∧ r = .ok response) ∨
    (∃ e, r = .error e) ∧ ∀ response, x = .ok response → leaderRedirect response ≠ none

theorem says_sendFollowingFrom_succ {operation : String} {initialUrl : Url} {call : Call}
    {rounds redirects : Nat} {currentUrl : Url} {visited : List Url} {log : Conversation}
    {r : Except StoreError Response}
    (h : (client.sendFollowingFrom operation initialUrl call (rounds + 1) redirects currentUrl
      visited).run.Says log r) :
    ∃ x back, log = ⟨⟨call, currentUrl⟩, x⟩ :: back ∧
      ((∃ target, client.leadsTo operation initialUrl x = some target ∧
          redirects < client.config.maxRedirects ∧ target ∉ visited ∧
          (client.sendFollowingFrom operation initialUrl call rounds (redirects + 1) target
            (target :: visited)).run.Says back r) ∨
        (back = [] ∧
          (∀ target, client.leadsTo operation initialUrl x = some target →
            client.config.maxRedirects ≤ redirects ∨ target ∈ visited) ∧ Stops x r)) := by
  rw [sendFollowingFrom, Prog.says_run_bind] at h
  rcases h with ⟨response, front, back, hsend, hrest, rfl⟩ | ⟨error, hsend, rfl⟩
  · obtain ⟨x, rfl, hx⟩ := says_send.1 hsend
    obtain rfl := received_eq_ok.1 hx.symm
    refine ⟨_, back, rfl, ?_⟩
    cases hleader : leaderRedirect response with
    | none =>
      simp only [hleader] at hrest
      obtain ⟨rfl, rfl⟩ := Prog.says_run_pure.1 hrest
      refine .inr ⟨rfl, ?_, .inl ⟨response, rfl, hleader, rfl⟩⟩
      intro target htarget
      simp [leadsTo, hleader] at htarget
    | some leaderId =>
      simp only [hleader] at hrest
      have hstop : ∀ e, r = .error e → Stops (.ok response) r := by
        intro e hr
        refine .inr ⟨⟨e, hr⟩, fun response' heq => ?_⟩
        cases heq
        simp [hleader]
      rcases Prog.says_run_okOr_bind.1 hrest with ⟨n, hn, hrest⟩ | ⟨hn, rfl, hr⟩
      · rcases Prog.says_run_check_bind.1 hrest with ⟨hmax, hrest⟩ | ⟨hmax, rfl, hr⟩
        · rcases Prog.says_run_lift_bind.1 hrest with ⟨target, htarget, hrest⟩ | ⟨e, he, rfl, hr⟩
          · have hleads := leadsTo_eq_some.2 ⟨leaderId, n, hleader, hn, htarget⟩
            rcases Prog.says_run_check_bind.1 hrest with ⟨hnew, hrest⟩ | ⟨hseen, rfl, hr⟩
            · exact .inl ⟨target, hleads, Nat.lt_of_not_le hmax, hnew, hrest⟩
            · refine .inr ⟨rfl, fun target' htarget' => .inr ?_, hstop _ hr⟩
              rw [hleads] at htarget'
              cases htarget'
              exact not_not.1 hseen
          · refine .inr ⟨rfl, fun target' htarget' => ?_, hstop _ hr⟩
            obtain ⟨_, _, _, _, hok⟩ := leadsTo_eq_some.1 htarget'
            rw [he] at hok
            cases hok
        · exact .inr ⟨rfl, fun _ _ => .inl (not_not.1 hmax), hstop _ hr⟩
      · refine .inr ⟨rfl, fun target' htarget' => ?_, hstop _ hr⟩
        obtain ⟨_, _, hleader', hn', _⟩ := leadsTo_eq_some.1 htarget'
        rw [hleader] at hleader'
        cases hleader'
        rw [hn] at hn'
        cases hn'
  · obtain ⟨x, rfl, hx⟩ := says_send.1 hsend
    refine ⟨x, [], rfl, .inr ⟨rfl, ?_, .inr ⟨⟨error, rfl⟩, ?_⟩⟩⟩
    · intro target htarget
      cases x with
      | ok response => cases hx
      | error _ => cases htarget
    · intro response heq
      subst heq
      cases hx

omit [Reqwest] in
theorem Stops.final {x : Except SendError Response} {r : Except StoreError Response}
    (h : Stops x r) : ∀ response, r = .ok response → leaderRedirect response = none := by
  intro response hr
  rcases h with ⟨response', _, hleader, hr'⟩ | ⟨⟨e, hr'⟩, _⟩
  · cases hr.symm.trans hr'
    exact hleader
  · cases hr.symm.trans hr'

/-! ## A chain -/

/-- Where at most some redirects lead, each from the answer before it. -/
def leads (client : HttpUrsula) (operation : String) (initialUrl : Url) :
    Nat → (Nat → Except SendError Response) → List Url
  | 0, _ => []
  | n + 1, answers =>
    match client.leadsTo operation initialUrl (answers 0) with
    | none => []
    | some target => target :: client.leads operation initialUrl n fun i => answers (i + 1)

variable {operation : String} {initialUrl : Url} {call : Call}

/-- The URLs of the requests, and the response at the end. -/
theorem says_sendFollowingFrom {rounds redirects : Nat} {currentUrl : Url} {visited : List Url}
    {log : Conversation} {r : Except StoreError Response}
    {answers : Nat → Except SendError Response}
    (hrounds : redirects + rounds = client.config.maxRedirects)
    (h : (client.sendFollowingFrom operation initialUrl call (rounds + 1) redirects currentUrl
      visited).run.Says log r) (hheard : Prog.Heard (fun n _ => answers n) log) :
    log.map (fun entry => entry.1.url) =
        currentUrl :: freshFront visited (client.leads operation initialUrl rounds answers) ∧
      ∀ response, r = .ok response → leaderRedirect response = none := by
  induction rounds generalizing redirects currentUrl visited log answers with
  | zero =>
    obtain ⟨x, back, rfl, ⟨_, _, hlt, _⟩ | ⟨rfl, _, hstops⟩⟩ := says_sendFollowingFrom_succ h
    · omega
    · exact ⟨rfl, hstops.final⟩
  | succ rounds ih =>
    obtain ⟨x, back, rfl, hback⟩ := says_sendFollowingFrom_succ h
    obtain ⟨hx, hheard⟩ := hheard
    subst hx
    rcases hback with ⟨target, hleads, _, hnew, hrest⟩ | ⟨rfl, hstop, hstops⟩
    · obtain ⟨hurls, hend⟩ := ih (by omega) hrest hheard
      refine ⟨?_, hend⟩
      simp only [List.map_cons, leads, hleads, freshFront, if_neg hnew, hurls]
    · refine ⟨?_, hstops.final⟩
      cases hleads : client.leadsTo operation initialUrl (answers 0) with
      | none => simp only [List.map_cons, List.map_nil, leads, hleads, freshFront]
      | some target =>
        have hseen := (hstop target hleads).resolve_left (by omega)
        simp only [List.map_cons, List.map_nil, leads, hleads, freshFront, if_pos hseen]

/-- A URL that may be asked for a request to `initialUrl`. -/
structure Permitted (client : HttpUrsula) (initialUrl url : Url) : Prop where
  allowed : urlOrigin url ∈ client.allowedOrigins
  plain : url.username = "" ∧ url.password = none
  same : url.path = initialUrl.path ∧ url.query = initialUrl.query

theorem permitted_of_redirectTarget {response : Response} {target : Url}
    (h : client.redirectTarget operation initialUrl response = .ok target) :
    client.Permitted initialUrl target := by
  unfold redirectTarget at h
  obtain ⟨_, _, h⟩ := okOr_bind_eq_ok.1 h
  obtain ⟨url, _, h⟩ := bind_eq_ok.1 h
  obtain ⟨hallowed, h⟩ := check_bind_eq_ok.1 h
  obtain ⟨hplain, h⟩ := check_bind_eq_ok.1 h
  obtain ⟨hsame, h⟩ := check_bind_eq_ok.1 h
  cases h
  exact ⟨hallowed, hplain, hsame⟩

theorem permitted_of_leadsTo {x : Except SendError Response} {target : Url}
    (h : client.leadsTo operation initialUrl x = some target) :
    client.Permitted initialUrl target := by
  cases x with
  | error error => cases h
  | ok response =>
    obtain ⟨_, _, _, _, htarget⟩ := leadsTo_eq_some.1 h
    exact permitted_of_redirectTarget htarget

theorem permitted_of_leads {n : Nat} {answers : Nat → Except SendError Response} {url : Url}
    (h : url ∈ client.leads operation initialUrl n answers) : client.Permitted initialUrl url := by
  induction n generalizing answers with
  | zero => cases h
  | succ n ih =>
    rw [leads] at h
    cases hleads : client.leadsTo operation initialUrl (answers 0) with
    | none =>
      simp only [hleads] at h
      cases h
    | some target =>
      simp only [hleads] at h
      rcases List.mem_cons.1 h with rfl | h
      · exact permitted_of_leadsTo hleads
      · exact ih h

theorem length_leads_le (n : Nat) (answers : Nat → Except SendError Response) :
    (client.leads operation initialUrl n answers).length ≤ n := by
  induction n generalizing answers with
  | zero => exact Nat.le_refl 0
  | succ n ih =>
    rw [leads]
    cases client.leadsTo operation initialUrl (answers 0) with
    | none => exact Nat.zero_le _
    | some target => exact Nat.succ_le_succ (ih _)

theorem permitted_objectUrl (stream query : Option String) :
    client.Permitted { client.objectUrl stream with query }
      { client.objectUrl stream with query } where
  allowed := client.base_allowed
  plain := ⟨client.base_node.2.1, client.base_node.2.2.1⟩
  same := ⟨rfl, rfl⟩

end HttpUrsula

/-- What a request is sent to: a fragment stays with the client. -/
def Url.target (url : Url) : Option Origin × String × Option String :=
  (url.origin, url.path, url.query)

/-- The law of a chain of requests for one URL. -/
structure RedirectLaw (client : HttpUrsula) (initialUrl : Url) (log : HttpUrsula.Conversation)
    (r : Except StoreError Response) : Prop where
  bounded : log.length ≤ client.config.maxRedirects + 1
  permitted : ∀ entry ∈ log, client.Permitted initialUrl entry.1.url
  distinct : (log.map fun entry => entry.1.url.target).Nodup
  final : ∀ response, r = .ok response → HttpUrsula.leaderRedirect response = none

/-- A chain of redirects keeps the law exactly where the first URL that leads back to an
earlier request target is that earlier URL, with its fragment. -/
theorem redirects_lawful_iff [Reqwest] (client : HttpUrsula) (operation : String)
    (stream query : Option String) (call : Call) (answers : Nat → Except SendError Response) :
    let initialUrl := { client.objectUrl stream with query }
    let run := (client.sendFollowingRedirects operation initialUrl call).run.converse
      fun n _ => answers n
    RedirectLaw client initialUrl run.1 run.2 ↔ ReturnsExactly Url.target
      (initialUrl :: client.leads operation initialUrl client.config.maxRedirects answers) := by
  intro initialUrl run
  obtain ⟨hurls, hfinal⟩ := HttpUrsula.says_sendFollowingFrom
    (Nat.zero_add client.config.maxRedirects) (Prog.says_converse (fun n _ => answers n)
      (client.sendFollowingRedirects operation initialUrl call).run) (Prog.heard_converse _ _)
  have hfront : run.1.map (fun entry => entry.1.url) = freshFront []
      (initialUrl :: client.leads operation initialUrl client.config.maxRedirects answers) := hurls
  have htargets : run.1.map (fun entry => entry.1.url.target) =
      (run.1.map fun entry => entry.1.url).map Url.target := by rw [List.map_map]; rfl
  rw [← nodup_freshFront, ← hfront, ← htargets]
  constructor
  · exact RedirectLaw.distinct
  · intro hdistinct
    refine ⟨?_, ?_, hdistinct, hfinal⟩
    · calc run.1.length
          = (run.1.map fun entry => entry.1.url).length := (List.length_map _).symm
        _ ≤ (initialUrl :: client.leads operation initialUrl client.config.maxRedirects
              answers).length := by rw [hfront]; exact length_freshFront_le _ _
        _ ≤ client.config.maxRedirects + 1 := Nat.succ_le_succ (HttpUrsula.length_leads_le _ _)
    · intro entry hentry
      have hmem : entry.1.url ∈ freshFront [] (initialUrl ::
          client.leads operation initialUrl client.config.maxRedirects answers) :=
        hfront ▸ List.mem_map_of_mem hentry
      rcases List.mem_cons.1 (freshFront_subset hmem) with heq | hleads
      · rw [heq]
        exact HttpUrsula.permitted_objectUrl stream query
      · exact HttpUrsula.permitted_of_leads hleads

/-- A URL without credentials and fragment is its request target. -/
theorem Url.eq_of_target {client : HttpUrsula} {initialUrl url url' : Url}
    (h : client.Permitted initialUrl url) (h' : client.Permitted initialUrl url')
    (hfragment : url.fragment = none) (hfragment' : url'.fragment = none)
    (htarget : url.target = url'.target) : url = url' := by
  obtain ⟨husername, hpassword⟩ := h.plain
  obtain ⟨husername', hpassword'⟩ := h'.plain
  cases url
  cases url'
  cases htarget
  simp_all

/-- Redirects without fragments keep the law. -/
theorem returnsExactly_of_no_fragment [Reqwest] {client : HttpUrsula} {operation : String}
    {stream query : Option String} {answers : Nat → Except SendError Response} {n : Nat}
    (hleads : ∀ url ∈ client.leads operation { client.objectUrl stream with query } n answers,
      url.fragment = none) :
    ReturnsExactly Url.target ({ client.objectUrl stream with query } ::
      client.leads operation { client.objectUrl stream with query } n answers) := by
  intro front url back hchain _ hmem
  obtain ⟨url', hurl', htarget⟩ := List.mem_map.1 hmem
  have hall : ∀ u ∈ front ++ url :: back,
      client.Permitted { client.objectUrl stream with query } u ∧ u.fragment = none := by
    rw [← hchain]
    intro u hu
    rcases List.mem_cons.1 hu with rfl | hu
    · exact ⟨HttpUrsula.permitted_objectUrl stream query, client.base_node.2.2.2.2.1⟩
    · exact ⟨HttpUrsula.permitted_of_leads hu, hleads u hu⟩
  have hfirst := hall url' (List.mem_append_left _ hurl')
  have hsecond := hall url (List.mem_append_right _ List.mem_cons_self)
  exact Url.eq_of_target hfirst.1 hsecond.1 hfirst.2 hsecond.2 htarget ▸ hurl'

/-! A leader that answers with its own address and a fragment is asked again. -/

section Fragment

def textHeader (text : String) : HeaderValue := ⟨text.toUTF8.data.toList⟩

def nodeUrl (path : String) (fragment : Option String) : Url where
  origin := some ⟨"http", "127.0.0.1", 4437⟩
  username := ""
  password := none
  path
  query := none
  fragment

instance sampleReqwest : Reqwest where
  parse text :=
    if text = "http://127.0.0.1:4437" then .ok (nodeUrl "/" none)
    else if text = "http://127.0.0.1:4437/qloro/doc#again" then
      .ok (nodeUrl "/qloro/doc" (some "again"))
    else .error "relative URL without a base"
  path segments := "/" ++ "/".intercalate segments
  canonicalReason _ := none

/-- The client of the default configuration. -/
def sampleClient : HttpUrsula where
  config := .default
  baseUrl := nodeUrl "/" none
  allowedOrigins := [some ⟨"http", "127.0.0.1", 4437⟩]
  base_node := by decide
  base_allowed := List.mem_cons_self

def redirectTo (location : String) : Response where
  status := 307
  headers name :=
    if name = headerRaftLeaderId then some (textHeader "2")
    else if name = "location" then some (textHeader location)
    else none
  chunks := []
  bodyEnd := .complete

theorem fragment_revisits_target :
    HttpUrsula.new .default = .ok sampleClient ∧
    let initialUrl := { sampleClient.objectUrl (some "doc") with query := none }
    let run := (sampleClient.sendFollowingRedirects "append" initialUrl
      (.post "application/vnd.quorum-loro.delta-frame.v1" ⟨"producer", 0, 0⟩ [1])).run.converse
        fun _ _ => .ok (redirectTo "http://127.0.0.1:4437/qloro/doc#again")
    ¬ RedirectLaw sampleClient initialUrl run.1 run.2 := by
  refine ⟨rfl, fun law => ?_⟩
  exact absurd law.distinct (by decide +kernel)

end Fragment

end LoroGateway
