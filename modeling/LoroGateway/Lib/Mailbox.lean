import LoroGateway.Lib.Fleet

/-!
# Servers that read from mailboxes

The servers of a process take their commands from mailboxes.  A mailbox is a queue
that holds a bounded number of commands; whoever posts to a full one waits.  A crash
of the process empties all of them.

* `Mailroom` is a fleet with its mailboxes, `Mailroom.Step` its steps.  The sign of a
  step is what the surroundings see of it.
* `Reachable.fleet` forgets the mailboxes.
* `Reachable.orderly` says that a mailbox loses nothing and keeps the order: while the
  process runs, the posted commands are those that were answered, the one in hand and
  those that wait.
* `Step.known` says where the commands of the servers come from.
-/

namespace CrashLogic

namespace Server

variable {Req : Type} {Ans : Req → Type} {σ : Type}

section

variable {S : Server Req Ans}

/-- The command that a server is busy with. -/
def Phase.command : Phase S σ → Option S.Command
  | .serving c _ _ _ => some c
  | _ => none

/-- The commands that were handled since the last crash, with what they let out.  The
events come with the newest first, the commands with the oldest first. -/
def answeredIn : List (Event S σ) → List (S.Command × List S.Output)
  | [] => []
  | .booted _ _ _ :: events => answeredIn events
  | .handled c _ _ outputs _ _ :: events => answeredIn events ++ [(c, outputs)]
  | .crashed :: _ => []

/-- The commands that were handled at any time. -/
def Event.command : Event S σ → Option S.Command
  | .handled c _ _ _ _ _ => some c
  | _ => none

/-- A step that takes no command and answers none is a start at most. -/
theorem Step.events_eq {env : Environment S σ} {g g' : System S σ} (h : Step env g g')
    (hcrash : ∀ w w', ¬ env.crash w w') (hsame : g'.phase.command = g.phase.command) :
    g'.events = g.events ∨ ∃ b w a, g'.events = .booted b w a :: g.events := by
  cases h with
  | boot | bootCall | call => exact .inl rfl
  | booted => exact .inr ⟨_, _, _, rfl⟩
  | receive => simp [Phase.command] at hsame
  | handled => simp [Phase.command] at hsame
  | crashIdle h | crashBooting h | crashServing h => exact absurd h (hcrash _ _)
  | driftUp | driftDown => exact .inl rfl

theorem Step.answeredIn_eq {env : Environment S σ} {g g' : System S σ} (h : Step env g g')
    (hcrash : ∀ w w', ¬ env.crash w w') (hsame : g'.phase.command = g.phase.command) :
    answeredIn g'.events = answeredIn g.events := by
  rcases h.events_eq hcrash hsame with hevents | ⟨b, w, a, hevents⟩
  · rw [hevents]
  · rw [hevents]
    rfl

end

/-- A fleet whose servers read from mailboxes. -/
structure Mailroom {ι : Type} (S : ι → Server Req Ans) (B σ : Type) where
  fleet : Fleet S B σ
  /-- The commands that wait, the oldest first.  A server that nobody has asked for yet
  has no mailbox. -/
  mailbox : ∀ i, Option (List (S i).Command)
  /-- The commands that were posted since the process was started, the oldest first. -/
  posted : ∀ i, List (S i).Command

/-- What the surroundings see of a step. -/
inductive Sign {ι : Type} (S : ι → Server Req Ans) (B : Type)
  | started (b : B)
  | opened (i : ι)
  | posted (i : ι) (c : (S i).Command)
  | answered (i : ι) (outputs : List (S i).Output)
  | crashed
  | quiet

/-- Nothing is posted or answered. -/
def Sign.Inner {ι : Type} {S : ι → Server Req Ans} {B : Type} : Sign S B → Prop
  | .started _ | .opened _ | .quiet => True
  | _ => False

namespace Mailroom

variable {ι : Type} {S : ι → Server Req Ans} {B : Type}

/-- The commands that wait for a server. -/
def waiting (m : Mailroom S B σ) (i : ι) : List (S i).Command := (m.mailbox i).getD []

/-- The command that a server has in hand. -/
def inHand (m : Mailroom S B σ) (i : ι) : List (S i).Command :=
  (m.fleet.member i).phase.command.toList

/-- The commands that a server has answered since the process was started. -/
def answered (m : Mailroom S B σ) (i : ι) : List ((S i).Command × List (S i).Output) :=
  answeredIn (m.fleet.member i).events

variable [DecidableEq ι]

/-- The queue of a server is set. -/
def put (m : Mailroom S B σ) (i : ι) (queue : List (S i).Command) : Mailroom S B σ :=
  { m with mailbox := Function.update m.mailbox i (some queue) }

/-- A command comes to the end of a queue. -/
def post (m : Mailroom S B σ) (i : ι) (c : (S i).Command) : Mailroom S B σ :=
  { m.put i (m.waiting i ++ [c]) with
    posted := Function.update m.posted i (m.posted i ++ [c]) }

/-- A server makes a step. -/
def withSystem (m : Mailroom S B σ) (i : ι) (s : System (S i) σ) : Mailroom S B σ :=
  { m with fleet := m.fleet.withSystem i s }

/-- The steps.  A mailbox is opened when somebody asks for its server, and from then on
the server may be started. -/
inductive Step (env : Fleet.Surroundings S B σ) (capacity : Nat) :
    Mailroom S B σ → Sign S B → Mailroom S B σ → Prop
  | start {m : Mailroom S B σ} {b : B} (hdown : m.fleet.process = none)
      (h : env.starts m.fleet.world b) :
      Step env capacity m (.started b) { m with fleet := { m.fleet with process := some b } }
  | opened {m : Mailroom S B σ} {b : B} {i : ι} (hup : m.fleet.process = some b) :
      Step env capacity m (.opened i) (m.put i (m.waiting i))
  | posted {m : Mailroom S B σ} {b : B} {i : ι} {c : (S i).Command}
      (hup : m.fleet.process = some b) (hroom : (m.waiting i).length < capacity) :
      Step env capacity m (.posted i c) (m.post i c)
  | work {m : Mailroom S B σ} {b : B} {i : ι} {s : System (S i) σ}
      (hup : m.fleet.process = some b) (hopen : m.mailbox i ≠ none)
      (h : Server.Step (env.member b i) (m.fleet.system i) s)
      (hsame : s.phase.command = (m.fleet.member i).phase.command) :
      Step env capacity m .quiet (m.withSystem i s)
  | take {m : Mailroom S B σ} {b : B} {i : ι} {a : (S i).State} {c : (S i).Command}
      {queue : List (S i).Command} (hup : m.fleet.process = some b)
      (hphase : (m.fleet.member i).phase = .idle a) (hqueue : m.mailbox i = some (c :: queue))
      (h : env.accepts i m.fleet.world a (m.fleet.member i).events c) :
      Step env capacity m .quiet ((m.put i queue).withSystem i
        ⟨m.fleet.world, .serving c m.fleet.world a ((S i).handle c a), (m.fleet.member i).events⟩)
  | answer {m : Mailroom S B σ} {b : B} {i : ι} {before : σ} {a a' : (S i).State}
      {c : (S i).Command} {outputs : List (S i).Output} (hup : m.fleet.process = some b)
      (hphase : (m.fleet.member i).phase = .serving c before a (.ret (a', outputs))) :
      Step env capacity m (.answered i outputs) (m.withSystem i
        ⟨m.fleet.world, .idle a',
          .handled c before a outputs m.fleet.world a' :: (m.fleet.member i).events⟩)
  | drift {m : Mailroom S B σ} {w' : σ} (h : env.drift m.fleet.up m.fleet.world w') :
      Step env capacity m .quiet { m with fleet := { m.fleet with world := w' } }
  | crash {m : Mailroom S B σ} {b : B} {w' : σ} (hup : m.fleet.process = some b)
      (h : env.crash m.fleet.world w') :
      Step env capacity m .crashed
        ⟨⟨w', none, fun i => (m.fleet.member i).crashed⟩, fun _ => none, fun _ => []⟩

/-- The states that runs reach. -/
inductive Reachable (env : Fleet.Surroundings S B σ) (capacity : Nat) (init : σ → Prop) :
    Mailroom S B σ → Prop
  | init {w : σ} (h : init w) : Reachable env capacity init
      ⟨⟨w, none, fun _ => ⟨.down, []⟩⟩, fun _ => none, fun _ => []⟩
  | step {m m' : Mailroom S B σ} {sign : Sign S B} (h : Reachable env capacity init m)
      (hstep : Step env capacity m sign m') : Reachable env capacity init m'

section Accessors

variable (m : Mailroom S B σ) (i : ι)

@[simp] theorem waiting_put (queue : List (S i).Command) : (m.put i queue).waiting i = queue := by
  simp [waiting, put]

theorem waiting_put_ne {i j : ι} (h : i ≠ j) (queue : List (S j).Command) :
    (m.put j queue).waiting i = m.waiting i := by
  simp [waiting, put, Function.update_of_ne h]

@[simp] theorem waiting_post (c : (S i).Command) : (m.post i c).waiting i = m.waiting i ++ [c] := by
  simp [waiting, post, put]

theorem waiting_post_ne {i j : ι} (h : i ≠ j) (c : (S j).Command) :
    (m.post j c).waiting i = m.waiting i := by
  simp [waiting, post, put, Function.update_of_ne h]

@[simp] theorem posted_post (c : (S i).Command) : (m.post i c).posted i = m.posted i ++ [c] := by
  simp [post]

theorem posted_post_ne {i j : ι} (h : i ≠ j) (c : (S j).Command) :
    (m.post j c).posted i = m.posted i := by
  simp [post, Function.update_of_ne h]

@[simp] theorem member_withSystem (s : System (S i) σ) :
    (m.withSystem i s).fleet.member i = ⟨s.phase, s.events⟩ :=
  Fleet.member_withSystem_self ..

theorem member_withSystem_ne {i j : ι} (h : i ≠ j) (s : System (S j) σ) :
    (m.withSystem j s).fleet.member i = m.fleet.member i :=
  Fleet.member_withSystem_ne _ h _

@[simp] theorem waiting_withSystem (j : ι) (s : System (S j) σ) :
    (m.withSystem j s).waiting i = m.waiting i := rfl

end Accessors

variable {env : Fleet.Surroundings S B σ} {capacity : Nat} {init : σ → Prop}
  {m m' : Mailroom S B σ} {sign : Sign S B}

/-- A step of the mailroom is a step of the fleet, or the fleet stays. -/
theorem Step.fleet (h : Step env capacity m sign m') :
    m'.fleet = m.fleet ∨ Fleet.Step env m.fleet m'.fleet := by
  cases h with
  | start hdown hstarts => exact .inr (.start hdown hstarts)
  | opened | posted => exact .inl rfl
  | work hup _ hown _ => exact .inr (.member hup hown)
  | @take b i a c queue hup hphase _ haccepts =>
    refine .inr (.member hup ?_)
    have hsystem : m.fleet.system i = ⟨m.fleet.world, .idle a, (m.fleet.member i).events⟩ := by
      rw [Fleet.system, hphase]
    rw [hsystem]
    exact .receive haccepts
  | @answer b i before a a' c outputs hup hphase =>
    refine .inr (.member hup ?_)
    have hsystem : m.fleet.system i = ⟨m.fleet.world, .serving c before a (.ret (a', outputs)),
        (m.fleet.member i).events⟩ := by
      rw [Fleet.system, hphase]
    rw [hsystem]
    exact .handled
  | drift hdrift => exact .inr (.drift hdrift)
  | crash hup hcrash => exact .inr (.crash hup hcrash)

theorem Reachable.fleet (h : Reachable env capacity init m) :
    Fleet.Reachable env init m.fleet := by
  induction h with
  | init hw => exact .init hw
  | step _ hstep ih =>
    rcases hstep.fleet with hsame | hnext
    · rw [hsame]
      exact ih
    · exact ih.step hnext

/-- A step at which nothing is posted or answered. -/
theorem Step.inner (h : Step env capacity m sign m') (hsign : sign.Inner) :
    m'.posted = m.posted ∧ ∀ i, m'.answered i = m.answered i := by
  cases h with
  | start | opened | drift => exact ⟨rfl, fun _ => rfl⟩
  | @work b j s hup hopen hown hsame =>
    refine ⟨rfl, fun i => ?_⟩
    by_cases hij : i = j
    · subst hij
      rw [answered, member_withSystem]
      exact hown.answeredIn_eq (fun _ _ hcrash => hcrash) hsame
    · rw [answered, m.member_withSystem_ne hij, answered]
  | @take b j a c queue hup hphase hqueue haccepts =>
    refine ⟨rfl, fun i => ?_⟩
    by_cases hij : i = j
    · subst hij
      rw [answered, member_withSystem, answered]
    · rw [answered, (m.put j queue).member_withSystem_ne hij, answered, put]
  | posted | answer | crash => exact hsign.elim

/-- A step that answers a command. -/
theorem Step.answered_append {j : ι} {outputs : List (S j).Output}
    (h : Step env capacity m (.answered j outputs) m') :
    ∃ c before a a', (m.fleet.member j).phase = .serving c before a (.ret (a', outputs)) ∧
      m'.posted = m.posted ∧
      (m'.fleet.member j).events =
        .handled c before a outputs m.fleet.world a' :: (m.fleet.member j).events ∧
      ∀ i, i ≠ j → m'.fleet.member i = m.fleet.member i := by
  cases h with
  | @answer b _ before a a' c _ hup hphase =>
    refine ⟨c, before, a, a', hphase, rfl, ?_, ?_⟩
    · rw [member_withSystem]
    · exact fun i hij => m.member_withSystem_ne hij _

/-- What the events tell of the answers changes in no other step. -/
theorem Step.history (h : Step env capacity m sign m') {i : ι}
    (hsign : ∀ outputs, sign ≠ .answered i outputs) {β : Type} {f : Event (S i) σ → List β}
    (hbooted : ∀ b w a, f (.booted b w a) = []) (hcrashed : f .crashed = []) :
    (m'.fleet.member i).events.flatMap f = (m.fleet.member i).events.flatMap f := by
  cases h with
  | start | opened | posted | drift => rfl
  | @work b j s hup hopen hown hsame =>
    by_cases hij : i = j
    · subst hij
      rw [member_withSystem]
      rcases hown.events_eq (fun _ _ hcrash => hcrash) hsame with hevents | ⟨b', w, a, hevents⟩
      · rw [hevents]
        rfl
      · rw [hevents, List.flatMap_cons, hbooted]
        rfl
    · rw [m.member_withSystem_ne hij]
  | @take b j a c queue hup hphase hqueue haccepts =>
    by_cases hij : i = j
    · subst hij
      rw [member_withSystem]
    · rw [(m.put j queue).member_withSystem_ne hij, put]
  | @answer b j before a a' c outputs hup hphase =>
    by_cases hij : i = j
    · subst hij
      exact absurd rfl (hsign outputs)
    · rw [m.member_withSystem_ne hij]
  | crash hup hcrash =>
    show (m.fleet.member i).crashed.events.flatMap f = _
    rcases (m.fleet.member i).crashed_events with hevents | hevents
    · rw [hevents]
    · rw [hevents, List.flatMap_cons, hcrashed]
      rfl

/-! ## The order of a mailbox -/

/-- What is known of one mailbox. -/
structure Orderly (capacity : Nat) (m : Mailroom S B σ) (i : ι) : Prop where
  fifo : m.posted i = (m.answered i).map Prod.fst ++ m.inHand i ++ m.waiting i
  bound : (m.waiting i).length ≤ capacity
  fresh : (m.fleet.member i).phase = .down → m.answered i = []

omit [DecidableEq ι] in
/-- A mailbox is in order when all that it depends on is as it was. -/
theorem Orderly.frame {i : ι} (h : Orderly capacity m i)
    (hmember : m'.fleet.member i = m.fleet.member i) (hwaiting : m'.waiting i = m.waiting i)
    (hposted : m'.posted i = m.posted i) : Orderly capacity m' i := by
  have hanswered : m'.answered i = m.answered i := by rw [answered, hmember, answered]
  have hhand : m'.inHand i = m.inHand i := by rw [inHand, hmember, inHand]
  constructor
  · rw [hposted, hanswered, hhand, hwaiting]
    exact h.fifo
  · rw [hwaiting]
    exact h.bound
  · rw [hmember, hanswered]
    exact h.fresh

theorem Step.orderly (hstep : Step env capacity m sign m') {i : ι} (h : Orderly capacity m i) :
    Orderly capacity m' i := by
  cases hstep with
  | start | drift => exact h.frame rfl rfl rfl
  | @opened b j hup =>
    by_cases hij : i = j
    · subst hij
      exact h.frame rfl (m.waiting_put i _) rfl
    · exact h.frame rfl (m.waiting_put_ne hij _) rfl
  | @posted b j c hup hroom =>
    by_cases hij : i = j
    · subst hij
      constructor
      · show (m.post i c).posted i =
          (m.answered i).map Prod.fst ++ m.inHand i ++ (m.post i c).waiting i
        simp [h.fifo]
      · simp
        omega
      · exact h.fresh
    · exact h.frame rfl (m.waiting_post_ne hij c) (m.posted_post_ne hij c)
  | @work b j s hup hopen hown hsame =>
    by_cases hij : i = j
    · subst hij
      have hanswered := hown.answeredIn_eq (fun _ _ hcrash => hcrash) hsame
      constructor
      · show m.posted i = (answeredIn _).map Prod.fst ++ Option.toList _ ++ m.waiting i
        rw [member_withSystem, hanswered, hsame]
        exact h.fifo
      · exact h.bound
      · intro hphase
        rw [member_withSystem] at hphase
        rw [answered, member_withSystem, hanswered]
        apply h.fresh
        -- no step of a server ends with the server down
        generalize m.fleet.system i = g at hown
        cases hown with
        | boot | bootCall | booted | receive | call | handled => cases hphase
        | crashIdle h | crashBooting h | crashServing h => exact h.elim
        | driftUp _ h | driftDown h => exact h.elim
    · exact h.frame (m.member_withSystem_ne hij s) rfl rfl
  | @take b j a c queue hup hphase hqueue haccepts =>
    by_cases hij : i = j
    · subst hij
      have hwaiting : m.waiting i = c :: queue := by rw [waiting, hqueue, Option.getD_some]
      have hhand : m.inHand i = [] := by simp [inHand, hphase, Phase.command]
      have hfifo := h.fifo
      have hbound := h.bound
      rw [hwaiting, hhand] at hfifo
      rw [hwaiting, List.length_cons] at hbound
      constructor
      · show m.posted i =
          (answeredIn _).map Prod.fst ++ Option.toList _ ++ (m.put i queue).waiting i
        rw [member_withSystem, waiting_put, hfifo]
        simp [answered, Phase.command]
      · rw [waiting_withSystem, waiting_put]
        omega
      · intro hdown
        rw [member_withSystem] at hdown
        cases hdown
    · refine h.frame ?_ (m.waiting_put_ne hij queue) rfl
      exact (m.put j queue).member_withSystem_ne hij _
  | @answer b j before a a' c outputs hup hphase =>
    by_cases hij : i = j
    · subst hij
      have hhand : m.inHand i = [c] := by simp [inHand, hphase, Phase.command]
      have hfifo := h.fifo
      rw [hhand] at hfifo
      constructor
      · show m.posted i = (answeredIn _).map Prod.fst ++ Option.toList _ ++ m.waiting i
        rw [member_withSystem, hfifo]
        simp [answered, answeredIn, Phase.command]
      · exact h.bound
      · intro hdown
        rw [member_withSystem] at hdown
        cases hdown
    · exact h.frame (m.member_withSystem_ne hij _) rfl rfl
  | crash hup hcrash =>
    have hanswered : answeredIn (m.fleet.member i).crashed.events = [] ∧
        (m.fleet.member i).crashed.phase = .down := by
      unfold Member.crashed
      cases hphase : (m.fleet.member i).phase with
      | down => exact ⟨h.fresh hphase, hphase⟩
      | booting | idle | serving => exact ⟨rfl, rfl⟩
    constructor
    · simp [answered, inHand, waiting, hanswered, Phase.command]
    · simp [waiting]
    · simp [answered, hanswered]

/-- While the process runs, a mailbox loses no command and keeps the order. -/
theorem Reachable.orderly (h : Reachable env capacity init m) (i : ι) : Orderly capacity m i := by
  induction h with
  | init hw => exact ⟨rfl, Nat.zero_le _, fun _ => rfl⟩
  | step _ hstep ih => exact hstep.orderly ih

/-! ## Where the commands come from -/

/-- The commands that a server has handled, has in hand or will read. -/
def Known (m : Mailroom S B σ) (i : ι) (c : (S i).Command) : Prop :=
  c ∈ (m.fleet.member i).events.filterMap Event.command ∨ c ∈ m.inHand i ∨ c ∈ m.waiting i

omit [DecidableEq ι] in
theorem Known.frame {i : ι} {c : (S i).Command} (h : m'.Known i c)
    (hmember : m'.fleet.member i = m.fleet.member i) (hwaiting : m'.waiting i = m.waiting i) :
    m.Known i c := by
  unfold Known inHand at *
  rwa [hmember, hwaiting] at h

/-- A command that a server knows was known before, or it was posted in this step. -/
theorem Step.known (hstep : Step env capacity m sign m') {i : ι} {c : (S i).Command}
    (h : m'.Known i c) : m.Known i c ∨ sign = .posted i c := by
  cases hstep with
  | start | drift => exact .inl h
  | @opened b j hup =>
    by_cases hij : i = j
    · subst hij
      exact .inl (h.frame rfl (m.waiting_put i _))
    · exact .inl (h.frame rfl (m.waiting_put_ne hij _))
  | @posted b j c' hup hroom =>
    by_cases hij : i = j
    · subst hij
      unfold Known at *
      rw [waiting_post, List.mem_append, List.mem_singleton] at h
      rcases h with hevents | hhand | hwaiting | rfl
      · exact .inl (.inl hevents)
      · exact .inl (.inr (.inl hhand))
      · exact .inl (.inr (.inr hwaiting))
      · exact .inr rfl
    · exact .inl (h.frame rfl (m.waiting_post_ne hij c'))
  | @work b j s hup hopen hown hsame =>
    by_cases hij : i = j
    · subst hij
      unfold Known inHand at *
      rw [member_withSystem, hsame] at h
      rcases hown.events_eq (fun _ _ hcrash => hcrash) hsame with hevents | ⟨b', w, a, hevents⟩
      · rw [hevents] at h
        exact .inl h
      · rw [hevents] at h
        exact .inl h
    · exact .inl (h.frame (m.member_withSystem_ne hij s) rfl)
  | @take b j a c' queue hup hphase hqueue haccepts =>
    by_cases hij : i = j
    · subst hij
      have hwaiting : m.waiting i = c' :: queue := by rw [waiting, hqueue, Option.getD_some]
      unfold Known inHand at *
      rw [member_withSystem, waiting_withSystem, waiting_put] at h
      rw [hwaiting]
      simp only [Phase.command, Option.toList_some, List.mem_singleton] at h
      simp only [List.mem_cons]
      tauto
    · refine .inl (h.frame ?_ (m.waiting_put_ne hij queue))
      exact (m.put j queue).member_withSystem_ne hij _
  | @answer b j before a a' c' outputs hup hphase =>
    by_cases hij : i = j
    · subst hij
      unfold Known inHand at *
      rw [member_withSystem] at h
      simp only [Phase.command, Option.toList_none, List.not_mem_nil, false_or,
        List.filterMap_cons, Event.command, List.mem_cons] at h
      simp only [hphase, Phase.command, Option.toList_some, List.mem_singleton]
      tauto
    · exact .inl (h.frame (m.member_withSystem_ne hij _) rfl)
  | crash hup hcrash =>
    unfold Known inHand at *
    simp only [waiting, Option.getD_none, List.not_mem_nil, or_false] at h
    unfold Member.crashed at h
    cases hphase : (m.fleet.member i).phase with
    | down =>
      simp only [hphase, Phase.command, Option.toList_none, List.not_mem_nil, or_false] at h
      exact .inl (.inl h)
    | booting | idle | serving =>
      simp only [hphase, Phase.command, Option.toList_none, List.not_mem_nil, or_false,
        List.filterMap_cons, Event.command] at h
      exact .inl (.inl h)

/-! ## Work that goes on without a pause -/

/-- Steps of which the surroundings see nothing. -/
def Quietly (env : Fleet.Surroundings S B σ) (capacity : Nat) :
    Mailroom S B σ → Mailroom S B σ → Prop :=
  Relation.ReflTransGen fun m m' => Step env capacity m .quiet m'

theorem withSystem_withSystem (m : Mailroom S B σ) (i : ι) (s s' : System (S i) σ) :
    (m.withSystem i s).withSystem i s' = m.withSystem i s' := by
  simp [withSystem, Fleet.withSystem, Function.update_idem]

/-- A step to the state of a server changes nothing. -/
theorem withSystem_self {i : ι} {s : System (S i) σ} (h : m.fleet.system i = s) :
    m.withSystem i s = m := by
  subst h
  simp [withSystem, Fleet.withSystem, Fleet.system]

section Work

variable {b : B} {i : ι} {serve : Serve Req Ans σ} {events : List (Event (S i) σ)}

omit [DecidableEq ι] in
theorem system_of_member {phase : Phase (S i) σ} (h : m.fleet.member i = ⟨phase, events⟩) :
    m.fleet.system i = ⟨m.fleet.world, phase, events⟩ := by
  rw [Fleet.system, h]

/-- A start goes on to its end. -/
theorem quietly_boots (hup : m.fleet.process = some b) (hopen : m.mailbox i ≠ none)
    {boot : (S i).Boot} {p : Prog Req Ans (S i).State} {a : (S i).State} {w w' : σ}
    (hmember : m.fleet.member i = ⟨.booting boot p, events⟩)
    (hserve : ∀ w req x w', serve w req x w' → env.serve i (.boot boot) w req x w')
    (hworld : m.fleet.world = w) (hrun : Runs serve Eq p w a w') :
    Quietly env capacity m (m.withSystem i ⟨w', .idle a, .booted boot w' a :: events⟩) := by
  induction hrun generalizing m with
  | ret value w =>
    apply Relation.ReflTransGen.single
    refine .work hup hopen ?_ (by rw [hmember]; rfl)
    rw [system_of_member hmember, hworld]
    exact .booted
  | @call req next w w₀ w₁ w' x value others served _ ih =>
    subst others
    have hfirst : Step env capacity m .quiet
        (m.withSystem i ⟨w₁, .booting boot (next x), events⟩) := by
      refine .work hup hopen ?_ (by rw [hmember]; rfl)
      rw [system_of_member hmember, hworld]
      exact .bootCall (hserve _ _ _ _ served)
    have hrest : Quietly env capacity (m.withSystem i ⟨w₁, .booting boot (next x), events⟩) _ :=
      ih (m := m.withSystem i _) hup hopen (m.member_withSystem i _) rfl
    rw [withSystem_withSystem] at hrest
    exact .head hfirst hrest

/-- A command goes on to its answer. -/
theorem quietly_serves (hup : m.fleet.process = some b) (hopen : m.mailbox i ≠ none)
    {c : (S i).Command} {a : (S i).State} {p : Prog Req Ans ((S i).State × List (S i).Output)}
    {r : (S i).State × List (S i).Output} {before w w' : σ}
    (hmember : m.fleet.member i = ⟨.serving c before a p, events⟩)
    (hserve : ∀ w req x w', serve w req x w' → env.serve i (.command c a) w req x w')
    (hworld : m.fleet.world = w) (hrun : Runs serve Eq p w r w') :
    Quietly env capacity m (m.withSystem i ⟨w', .serving c before a (.ret r), events⟩) := by
  induction hrun generalizing m with
  | ret value w =>
    rw [withSystem_self (by rw [system_of_member hmember, hworld])]
    exact .refl
  | @call req next w w₀ w₁ w' x value others served _ ih =>
    subst others
    have hfirst : Step env capacity m .quiet
        (m.withSystem i ⟨w₁, .serving c before a (next x), events⟩) := by
      refine .work hup hopen ?_ (by rw [hmember]; rfl)
      rw [system_of_member hmember, hworld]
      exact .call (hserve _ _ _ _ served)
    have hrest : Quietly env capacity
        (m.withSystem i ⟨w₁, .serving c before a (next x), events⟩) _ :=
      ih (m := m.withSystem i _) hup hopen (m.member_withSystem i _) rfl
    rw [withSystem_withSystem] at hrest
    exact .head hfirst hrest

/-- A server that was asked for starts. -/
theorem quietly_starts (hup : m.fleet.process = some b) (hopen : m.mailbox i ≠ none)
    {a : (S i).State} {w' : σ} (hmember : m.fleet.member i = ⟨.down, events⟩)
    (hserve : ∀ w req x w', serve w req x w' →
      env.serve i (.boot (env.bootOf i b)) w req x w')
    (hrun : Runs serve Eq ((S i).boot (env.bootOf i b)) m.fleet.world a w') :
    Quietly env capacity m
      (m.withSystem i ⟨w', .idle a, .booted (env.bootOf i b) w' a :: events⟩) := by
  have hfirst : Step env capacity m .quiet (m.withSystem i
      ⟨m.fleet.world, .booting (env.bootOf i b) ((S i).boot (env.bootOf i b)), events⟩) := by
    refine .work hup hopen ?_ (by rw [hmember]; rfl)
    rw [system_of_member hmember]
    exact .boot rfl
  have hrest : Quietly env capacity (m.withSystem i
      ⟨m.fleet.world, .booting (env.bootOf i b) ((S i).boot (env.bootOf i b)), events⟩) _ :=
    quietly_boots (m := m.withSystem i _) hup hopen (m.member_withSystem i _) hserve rfl hrun
  rw [withSystem_withSystem] at hrest
  exact .head hfirst hrest

/-- An idle server takes the next command and works until the answer is ready. -/
theorem quietly_takes (hup : m.fleet.process = some b) {c : (S i).Command}
    {queue : List (S i).Command} {a : (S i).State} {r : (S i).State × List (S i).Output} {w' : σ}
    (hmember : m.fleet.member i = ⟨.idle a, events⟩) (hqueue : m.mailbox i = some (c :: queue))
    (haccepts : env.accepts i m.fleet.world a events c)
    (hserve : ∀ w req x w', serve w req x w' → env.serve i (.command c a) w req x w')
    (hrun : Runs serve Eq ((S i).handle c a) m.fleet.world r w') :
    Quietly env capacity m ((m.put i queue).withSystem i
      ⟨w', .serving c m.fleet.world a (.ret r), events⟩) := by
  have hfirst : Step env capacity m .quiet ((m.put i queue).withSystem i
      ⟨m.fleet.world, .serving c m.fleet.world a ((S i).handle c a), events⟩) := by
    have hevents : (m.fleet.member i).events = events := by rw [hmember]
    have hstep : Step env capacity m .quiet _ :=
      .take hup (by rw [hmember]) hqueue (by rw [hevents]; exact haccepts)
    rwa [hevents] at hstep
  have hrest : Quietly env capacity ((m.put i queue).withSystem i
      ⟨m.fleet.world, .serving c m.fleet.world a ((S i).handle c a), events⟩) _ :=
    quietly_serves (m := (m.put i queue).withSystem i _) hup (by simp [withSystem, put])
      ((m.put i queue).member_withSystem i _) hserve rfl hrun
  rw [withSystem_withSystem] at hrest
  exact .head hfirst hrest

/-- Nothing but one server and its mailbox changes. -/
structure Apart (i : ι) (m m' : Mailroom S B σ) : Prop where
  process : m'.fleet.process = m.fleet.process
  member : ∀ j, j ≠ i → m'.fleet.member j = m.fleet.member j
  mailbox : ∀ j, j ≠ i → m'.mailbox j = m.mailbox j

omit [DecidableEq ι] in
theorem Apart.trans {m'' : Mailroom S B σ} (h : Apart i m m') (h' : Apart i m' m'') :
    Apart i m m'' where
  process := h'.process.trans h.process
  member j hne := (h'.member j hne).trans (h.member j hne)
  mailbox j hne := (h'.mailbox j hne).trans (h.mailbox j hne)

theorem apart_withSystem (m : Mailroom S B σ) (i : ι) (s : System (S i) σ) :
    Apart i m (m.withSystem i s) :=
  ⟨rfl, fun _ hne => m.member_withSystem_ne hne s, fun _ _ => rfl⟩

theorem apart_put (m : Mailroom S B σ) (i : ι) (queue : List (S i).Command) :
    Apart i m (m.put i queue) :=
  ⟨rfl, fun _ _ => rfl, fun _ hne => by simp [put, Function.update_of_ne hne]⟩

/-- A server answers the command that it has worked on to the end. -/
theorem answers_served (hup : m.fleet.process = some b) {c : (S i).Command} {a : (S i).State}
    {r : (S i).State × List (S i).Output} {before : σ}
    (hmember : m.fleet.member i = ⟨.serving c before a (.ret r), events⟩) :
    Step env capacity m (.answered i r.2) (m.withSystem i
      ⟨m.fleet.world, .idle r.1, .handled c before a r.2 m.fleet.world r.1 :: events⟩) := by
  have hevents : (m.fleet.member i).events = events := by rw [hmember]
  have hstep : Step env capacity m (.answered i r.2) _ := .answer hup (by rw [hmember])
  rwa [hevents] at hstep

/-- An idle server takes the next command of its mailbox and answers it. -/
theorem answers_next (hup : m.fleet.process = some b) {c : (S i).Command}
    {queue : List (S i).Command} {a : (S i).State} {r : (S i).State × List (S i).Output} {w' : σ}
    (hmember : m.fleet.member i = ⟨.idle a, events⟩) (hqueue : m.mailbox i = some (c :: queue))
    (haccepts : env.accepts i m.fleet.world a events c)
    (hserve : ∀ w req x w', serve w req x w' → env.serve i (.command c a) w req x w')
    (hrun : Runs serve Eq ((S i).handle c a) m.fleet.world r w') :
    ∃ m₁ m₂, Quietly env capacity m m₁ ∧ Step env capacity m₁ (.answered i r.2) m₂ ∧
      Apart i m m₂ ∧ m₂.fleet.world = w' ∧ m₂.mailbox i = some queue ∧
      ∃ events', m₂.fleet.member i = ⟨.idle r.1, events'⟩ := by
  let served := (m.put i queue).withSystem i ⟨w', .serving c m.fleet.world a (.ret r), events⟩
  have htaken : Quietly env capacity m served :=
    quietly_takes hup hmember hqueue haccepts hserve hrun
  have hserved : served.fleet.member i = ⟨.serving c m.fleet.world a (.ret r), events⟩ :=
    member_withSystem _ i _
  have hanswer : Step env capacity served (.answered i r.2) _ :=
    answers_served (m := served) hup hserved
  refine ⟨served, _, htaken, hanswer, ?_, rfl, ?_, _, served.member_withSystem i _⟩
  · exact ((m.apart_put i queue).trans (apart_withSystem _ i _)).trans (apart_withSystem _ i _)
  · simp [served, withSystem, put]

end Work

end Mailroom

end Server

end CrashLogic
