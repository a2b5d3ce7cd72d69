import LoroGateway.World

/-!
# What a call can do

`served` is the store at its worst: answers get lost, calls fail, appends are
delayed and the offset of a duplicate is anything.  The lemmas say once what
each kind of call can do.  Streams only grow, whatever happens (`Disk.Grows`),
so an assertion that survives growth survives everything that others do.
`wp_request` is the rule of a call, for an assertion that the others do not
break and that the call keeps.
-/

namespace LoroGateway

open ByteCodec CrashLogic

/-- The calls of a store, whatever their fate. -/
def served : Serve Request Answer World := fun w req x w' =>
  ∃ fate : Fate, (x, w') = w.serve fate req

namespace Disk

/-- Streams are kept and only extended. -/
def Grows (d d' : Disk) : Prop :=
  ∀ stream, d.read stream <+: d'.read stream ∧ (d.content stream ≠ none → d'.content stream ≠ none)

variable {d d' d'' : Disk}

theorem Grows.refl (d : Disk) : d.Grows d := fun _ => ⟨List.prefix_rfl, id⟩

theorem Grows.trans (h : d.Grows d') (h' : d'.Grows d'') : d.Grows d'' :=
  fun stream => ⟨(h stream).1.trans (h' stream).1, fun hne => (h' stream).2 ((h stream).2 hne)⟩

theorem grows_ensure (d : Disk) (stream : String) : d.Grows (d.ensure stream) := by
  intro s
  refine ⟨by rw [read_ensure], ?_⟩
  by_cases h : s = stream
  · subst h
    rw [content_ensure_self]
    exact fun _ => Option.some_ne_none _
  · rw [content_ensure_ne d h]
    exact id

theorem grows_accept (d : Disk) (app : Append) : d.Grows (d.accept app) := by
  intro s
  by_cases h : s = app.stream
  · subst h
    refine ⟨by rw [read_accept_self]; exact List.prefix_append _ _, fun _ => ?_⟩
    simp [Disk.accept]
  · rw [read_accept_ne h, content_accept_ne h]
    exact ⟨List.prefix_rfl, id⟩

theorem grows_append (d : Disk) (app : Append) : d.Grows (d.append app) := by
  by_cases h : d.Accepts app
  · rw [append_of_accepts h]
    exact grows_accept d app
  · rw [append_of_not_accepts h]
    exact Grows.refl d

end Disk

theorem World.grows_refl (w : World) : w.disk.Grows w.disk := Disk.Grows.refl w.disk

theorem World.grows_trans {u v w : World} (h : u.disk.Grows v.disk) (h' : v.disk.Grows w.disk) :
    u.disk.Grows w.disk :=
  h.trans h'

/-- The bytes `body` end at offset `n` of a stream. -/
def EndsAt (content : Bytes) (n : Nat) (body : Bytes) : Prop :=
  ∃ front rest, content = front ++ body ++ rest ∧ (front ++ body).length = n

theorem EndsAt.mono {content content' body : Bytes} {n : Nat} (h : EndsAt content n body)
    (hgrow : content <+: content') : EndsAt content' n body := by
  obtain ⟨front, rest, rfl, hlen⟩ := h
  obtain ⟨more, rfl⟩ := hgrow
  exact ⟨front, rest ++ more, by simp only [List.append_assoc], hlen⟩

theorem EndsAt.of_slice {content body : Bytes} {start : Nat}
    (hfit : start + body.length ≤ content.length)
    (hslice : (content.drop start).take body.length = body) :
    EndsAt content (start + body.length) body := by
  have hrest : content.drop start = body ++ (content.drop start).drop body.length := by
    have hsplit := List.take_append_drop body.length (content.drop start)
    rw [hslice] at hsplit
    exact hsplit.symm
  refine ⟨content.take start, (content.drop start).drop body.length, ?_, ?_⟩
  · rw [List.append_assoc, ← hrest, List.take_append_drop]
  · rw [List.length_append, List.length_take]
    omega

/-- Bytes that end at their own length start the stream. -/
theorem EndsAt.isPrefix {content body : Bytes} (h : EndsAt content body.length body) :
    body <+: content := by
  obtain ⟨front, rest, rfl, hlen⟩ := h
  rw [List.length_append] at hlen
  rw [List.length_eq_zero_iff.mp (by omega : front.length = 0), List.nil_append]
  exact List.prefix_append _ _

/-- The bytes before an offset at which they end. -/
theorem EndsAt.slice {content body : Bytes} {n : Nat} (h : EndsAt content n body) :
    body.length ≤ n ∧ n ≤ content.length ∧
      (content.drop (n - body.length)).take body.length = body := by
  obtain ⟨front, rest, rfl, rfl⟩ := h
  simp only [List.length_append]
  refine ⟨by omega, by omega, ?_⟩
  rw [Nat.add_sub_cancel, List.append_assoc, List.drop_left, List.take_left]

section Calls

variable {w w' : World} {stream : String}

theorem served_ensureStream {x : Except StoreError Unit}
    (h : served w (.ensureStream stream) x w') :
    (w' = w ∨ w' = { w with disk := w.disk.ensure stream }) ∧
      (x = .ok () → w' = { w with disk := w.disk.ensure stream }) := by
  obtain ⟨fate, heq⟩ := h
  obtain ⟨rfl, rfl⟩ := Prod.mk.inj heq
  cases fate <;> simp [Fate.acts, Fate.reply]

theorem served_readAll {x : Except StoreError Bytes} (h : served w (.readAll stream) x w') :
    w' = w ∧ ∀ bytes, x = .ok bytes → bytes = w.disk.read stream := by
  obtain ⟨fate, heq⟩ := h
  obtain ⟨rfl, rfl⟩ := Prod.mk.inj heq
  refine ⟨rfl, fun bytes hx => ?_⟩
  cases fate <;> simp_all [Fate.reply]

theorem served_readRange {offset : UInt64} {length : Nat} {x : Except StoreError Bytes}
    (h : served w (.readRange stream offset length) x w') :
    w' = w ∧ ∀ bytes, x = .ok bytes → offset.toNat + length ≤ (w.disk.read stream).length ∧
      bytes = ((w.disk.read stream).drop offset.toNat).take length := by
  obtain ⟨fate, heq⟩ := h
  obtain ⟨rfl, rfl⟩ := Prod.mk.inj heq
  refine ⟨rfl, fun bytes hx => ?_⟩
  have hanswer : w'.disk.rangeAnswer stream offset length = .ok bytes := by
    cases fate <;> simp_all [Fate.reply]
  rw [Disk.rangeAnswer] at hanswer
  split_ifs at hanswer with hfit
  exact ⟨hfit, (Except.ok.inj hanswer).symm⟩

/-- What an append can do: it is accepted, and then the answer is no rejection,
or the disk stays as it is. -/
inductive Appended (w : World) (app : Append) :
    Except StoreError AppendOutcome → World → Prop
  | accepted {x : Except StoreError AppendOutcome} (accepts : w.disk.Accepts app)
      (answer : x = .ok (.committed (w.disk.endOffset app)) ∨
        (∃ message, x = .error (.ambiguous message)) ∨ ∃ message, x = .error (.integrity message)) :
      Appended w app x ⟨w.disk.accept app, w.inflight, w.orphans, ⟨app, x, true⟩ :: w.journal⟩
  | duplicate {sequence offset n : UInt64} (refused : ¬ w.disk.Accepts app)
      (last : w.disk.last app.stream app.producer.id = some (sequence, offset))
      (le : app.producer.sequence ≤ sequence) :
      Appended w app (.ok (.duplicate n))
        ⟨w.disk, w.inflight, w.orphans, ⟨app, .ok (.duplicate n), false⟩ :: w.journal⟩
  | refused {error : StoreError} {inflight : List Append}
      (sent : inflight = w.inflight ∨ inflight = app :: w.inflight) :
      Appended w app (.error error)
        ⟨w.disk, inflight, w.orphans, ⟨app, .error error, false⟩ :: w.journal⟩

theorem served_append {producer : ProducerTuple} {body : Bytes}
    {x : Except StoreError AppendOutcome} (h : served w (.append stream producer body) x w') :
    Appended w ⟨stream, producer, body⟩ x w' := by
  obtain ⟨fate, heq⟩ := h
  obtain ⟨rfl, rfl⟩ := Prod.mk.inj heq
  generalize happ : (⟨stream, producer, body⟩ : Append) = app
  by_cases haccepts : w.disk.Accepts app
  · have hanswer : w.disk.appendAnswer app = .ok (.committed (w.disk.endOffset app)) :=
      if_pos haccepts
    have happend := Disk.append_of_accepts haccepts
    cases fate with
    | answered =>
      simp only [Fate.replyAppend, Fate.reply, Fate.acts, hanswer, happend, haccepts, if_true,
        decide_true, Bool.and_true]
      exact .accepted haccepts (.inl rfl)
    | misreported n =>
      simp only [Fate.replyAppend, Fate.reply, Fate.acts, hanswer, happend, haccepts, if_true,
        decide_true, Bool.and_true]
      exact .accepted haccepts (.inl rfl)
    | lost message =>
      simp only [Fate.replyAppend, Fate.reply, Fate.acts, happend, haccepts, if_true, decide_true,
        Bool.and_true]
      exact .accepted haccepts (.inr (.inl ⟨message, rfl⟩))
    | garbled message =>
      simp only [Fate.replyAppend, Fate.reply, Fate.acts, happend, haccepts, if_true, decide_true,
        Bool.and_true]
      exact .accepted haccepts (.inr (.inr ⟨message, rfl⟩))
    | failed error => exact .refused (.inl rfl)
    | delayed message => exact .refused (.inr rfl)
  · have hanswer : w.disk.appendAnswer app = w.disk.refusal app := if_neg haccepts
    have happend := Disk.append_of_not_accepts haccepts
    cases fate with
    | answered =>
      simp only [Fate.replyAppend, Fate.reply, Fate.acts, hanswer, happend, haccepts, if_true,
        decide_false, Bool.and_false]
      obtain ⟨message, hrefusal⟩ | ⟨sequence, n, hlast, hle, hrefusal⟩ := w.disk.refusal_cases app
      · rw [hrefusal]
        exact .refused (.inl rfl)
      · rw [hrefusal]
        exact .duplicate haccepts hlast hle
    | misreported n =>
      simp only [Fate.replyAppend, Fate.reply, Fate.acts, hanswer, happend, haccepts, if_true,
        decide_false, Bool.and_false]
      obtain ⟨message, hrefusal⟩ | ⟨sequence, offset, hlast, hle, hrefusal⟩ :=
        w.disk.refusal_cases app
      · rw [hrefusal]
        exact .refused (.inl rfl)
      · rw [hrefusal]
        exact .duplicate haccepts hlast hle
    | lost message =>
      simp only [Fate.replyAppend, Fate.reply, Fate.acts, happend, haccepts, if_true, decide_false,
        Bool.and_false]
      exact .refused (.inl rfl)
    | garbled message =>
      simp only [Fate.replyAppend, Fate.reply, Fate.acts, happend, haccepts, if_true, decide_false,
        Bool.and_false]
      exact .refused (.inl rfl)
    | failed error => exact .refused (.inl rfl)
    | delayed message => exact .refused (.inr rfl)

/-- What an append adds to the appends under way. -/
theorem served_underWay {producer : ProducerTuple} {body : Bytes}
    {x : Except StoreError AppendOutcome} (hserve : served w (.append stream producer body) x w') :
    ∀ app ∈ w'.underWay, app ∈ w.underWay ∨ app = ⟨stream, producer, body⟩ := by
  intro app hmem
  cases served_append hserve with
  | accepted => exact .inl hmem
  | duplicate => exact .inl hmem
  | refused hsent =>
    rcases hsent with rfl | rfl
    · exact .inl hmem
    · exact (List.mem_cons.mp hmem).symm

/-- What an append leaves in the journal. -/
theorem served_journal {producer : ProducerTuple} {body : Bytes}
    {x : Except StoreError AppendOutcome} (h : served w (.append stream producer body) x w') :
    ∃ committed, w'.journal = ⟨⟨stream, producer, body⟩, x, committed⟩ :: w.journal := by
  cases served_append h with
  | accepted => exact ⟨true, rfl⟩
  | duplicate => exact ⟨false, rfl⟩
  | refused => exact ⟨false, rfl⟩

/-- A rejected append has no effect. -/
theorem served_rejected {producer : ProducerTuple} {body : Bytes} {kind : RejectionKind}
    {message : String}
    (h : served w (.append stream producer body) (.error (.rejected kind message)) w') :
    w'.disk = w.disk ∧ w'.journal =
      ⟨⟨stream, producer, body⟩, .error (.rejected kind message), false⟩ :: w.journal := by
  generalize hx : Except.error (StoreError.rejected kind message) = x at h
  cases served_append h with
  | accepted _ hanswer =>
    rcases hanswer with heq | ⟨_, heq⟩ | ⟨_, heq⟩
    all_goals
      rw [← hx] at heq
      cases heq
  | duplicate => cases hx
  | refused => exact ⟨rfl, rfl⟩

/-- A committed append ends where the answer says. -/
theorem served_committed {producer : ProducerTuple} {body : Bytes} {n : UInt64}
    (h : served w (.append stream producer body) (.ok (.committed n)) w') :
    EndsAt (w'.disk.read stream) n.toNat body := by
  generalize hx : Except.ok (AppendOutcome.committed n) = x at h
  cases served_append h with
  | accepted haccepts hanswer =>
    obtain rfl : n = w.disk.endOffset ⟨stream, producer, body⟩ := by
      rcases hanswer with heq | ⟨_, heq⟩ | ⟨_, heq⟩
      all_goals
        rw [← hx] at heq
        cases heq
      rfl
    show EndsAt ((w.disk.accept ⟨stream, producer, body⟩).read stream) _ body
    rw [Disk.endOffset_toNat haccepts, Disk.read_accept_self w.disk ⟨stream, producer, body⟩]
    exact ⟨w.disk.read stream, [], (List.append_nil _).symm, List.length_append⟩
  | duplicate => cases hx
  | refused => cases hx

/-- Every call leaves streams that have only grown. -/
theorem served_grows {req : Request} {x : Answer req} (h : served w req x w') :
    w.disk.Grows w'.disk := by
  cases req with
  | ensureStream stream =>
    rcases (served_ensureStream h).1 with rfl | rfl
    · exact Disk.Grows.refl _
    · exact Disk.grows_ensure _ _
  | readAll stream => exact (served_readAll h).1 ▸ Disk.Grows.refl _
  | readRange stream offset length => exact (served_readRange h).1 ▸ Disk.Grows.refl _
  | append stream producer body =>
    cases served_append h with
    | accepted => exact Disk.grows_accept _ _
    | duplicate => exact Disk.Grows.refl _
    | refused => exact Disk.Grows.refl _

end Calls

/-! ## The journal -/

/-- Every producer that the store knows has submitted an append. -/
structure Journaled (w : World) : Prop where
  last : ∀ stream id, w.disk.last stream id ≠ none →
    ∃ attempt ∈ w.journal, attempt.app.producer.id = id
  sent : ∀ app ∈ w.underWay, ∃ attempt ∈ w.journal, attempt.app = app

namespace Journaled

variable {w w' : World}

theorem empty : Journaled World.empty := ⟨fun _ _ h => absurd rfl h, nofun⟩

theorem last_append (h : Journaled w) {app : Append}
    (happ : ∃ attempt ∈ w.journal, attempt.app = app) {stream id : String}
    (hne : (w.disk.append app).last stream id ≠ none) :
    ∃ attempt ∈ w.journal, attempt.app.producer.id = id := by
  by_cases haccepts : w.disk.Accepts app
  · rw [Disk.append_of_accepts haccepts] at hne
    by_cases hself : stream = app.stream ∧ id = app.producer.id
    · obtain ⟨attempt, hmem, rfl⟩ := happ
      exact ⟨attempt, hmem, hself.2.symm⟩
    · rw [Disk.last_accept_ne hself] at hne
      exact h.last stream id hne
  · rw [Disk.append_of_not_accepts haccepts] at hne
    exact h.last stream id hne

theorem append (h : Journaled w) {app : Append} {x : Except StoreError AppendOutcome}
    (hserve : Appended w app x w') : Journaled w' := by
  -- the journal has become longer by the append itself
  have hlonger : ∀ attempt, Journaled { w with journal := attempt :: w.journal } := fun attempt =>
    ⟨fun stream id hne => (h.last stream id hne).imp fun _ hmem => ⟨List.mem_cons_of_mem _ hmem.1, hmem.2⟩,
      fun app hmem => (h.sent app hmem).imp fun _ hmem => ⟨List.mem_cons_of_mem _ hmem.1, hmem.2⟩⟩
  cases hserve with
  | accepted haccepts _ =>
    refine ⟨fun stream id hne => ?_, (hlonger _).sent⟩
    rw [← Disk.append_of_accepts haccepts] at hne
    exact (hlonger _).last_append ⟨_, List.mem_cons_self, rfl⟩ hne
  | duplicate => exact ⟨(hlonger _).last, (hlonger _).sent⟩
  | refused hsent =>
    refine ⟨(hlonger _).last, fun other hmem => ?_⟩
    rcases hsent with rfl | rfl
    · exact (hlonger _).sent other hmem
    · rcases List.mem_cons.mp hmem with rfl | hmem
      · exact ⟨_, List.mem_cons_self, rfl⟩
      · exact (hlonger _).sent other hmem

theorem serve (h : Journaled w) {req : Request} {x : Answer req} (hserve : served w req x w') :
    Journaled w' := by
  cases req with
  | ensureStream stream =>
    rcases (served_ensureStream hserve).1 with rfl | rfl
    · exact h
    · exact ⟨h.last, h.sent⟩
  | readAll stream => exact (served_readAll hserve).1 ▸ h
  | readRange stream offset length => exact (served_readRange hserve).1 ▸ h
  | append stream producer body => exact h.append (served_append hserve)

theorem deliver (h : Journaled w) {app : Append} (hmem : app ∈ w.underWay) :
    Journaled (w.deliver app) :=
  ⟨fun _ _ hne => h.last_append (h.sent app hmem) hne, h.sent⟩

end Journaled

/-! ## Assertions that survive growth -/

/-- An assertion that holds on when streams grow. -/
def GrowthStable (assertion : World → Prop) : Prop :=
  ∀ w w' : World, w.disk.Grows w'.disk → assertion w → assertion w'

theorem growthStable_true : GrowthStable fun _ => True := fun _ _ _ _ => trivial

theorem GrowthStable.and {assertion assertion' : World → Prop} (h : GrowthStable assertion)
    (h' : GrowthStable assertion') : GrowthStable fun w => assertion w ∧ assertion' w :=
  fun w w' hgrow hw => ⟨h w w' hgrow hw.1, h' w w' hgrow hw.2⟩

theorem growthStable_isPrefix (stream : String) (bytes : Bytes) :
    GrowthStable fun w => bytes <+: w.disk.read stream :=
  fun _ _ hgrow hw => hw.trans (hgrow stream).1

theorem growthStable_exists (stream : String) :
    GrowthStable fun w => w.disk.content stream ≠ none :=
  fun _ _ hgrow hw => (hgrow stream).2 hw

theorem growthStable_after (d : Disk) : GrowthStable fun w => d.Grows w.disk :=
  fun _ _ hgrow hw => hw.trans hgrow

theorem GrowthStable.stable {c : Contract World} {assertion : World → Prop}
    (h : GrowthStable assertion) (hgrows : ∀ {w w'}, c.rely w w' → w.disk.Grows w'.disk) :
    c.Stable assertion :=
  fun w w' hw hrely => h w w' (hgrows hrely) hw

/-- A host that does no worse than `served`, and a contract whose rely only lets
streams grow and whose guarantee allows a call that does nothing. -/
structure Grounded (serve : Serve Request Answer World) (c : Contract World) : Prop where
  sub : ∀ {w req x w'}, serve w req x w' → served w req x w'
  grows : ∀ {w w'}, c.rely w w' → w.disk.Grows w'.disk
  guar_refl : ∀ w, c.guar w w

/-- A call keeps a contract and an assertion. -/
def Keeps (serve : Serve Request Answer World) (c : Contract World) (assertion : World → Prop)
    (req : Request) : Prop :=
  ∀ w x w', assertion w → c.inv w → serve w req x w' → (c.inv w' ∧ c.guar w w') ∧ assertion w'

section Rules

variable {serve : Serve Request Answer World} {c : Contract World} (hc : Grounded serve c)
  {assertion : World → Prop} {α : Type} {post : α → World → Prop} {w : World}

theorem stable_and {assertion' : World → Prop} (h : c.Stable assertion) (h' : c.Stable assertion') :
    c.Stable fun w => assertion w ∧ assertion' w :=
  fun w w' hw hrely => ⟨h w w' hw.1 hrely, h' w w' hw.2 hrely⟩

/-- A program whose calls all keep an assertion. -/
theorem wp_of_allowed {allowed : Request → Prop} {p : StoreM α} {result : α → Prop}
    (hstable : c.Stable assertion) (hkeeps : ∀ req, allowed req → Keeps serve c assertion req)
    (h : p.Always allowed result) (hw : assertion w) :
    wp serve c p (fun r t => result r ∧ assertion t) w := by
  induction p generalizing w with
  | ret value => exact ⟨h, hw⟩
  | call req next ih =>
    intro w₁ hrely hinv x w₂ hserve
    have ⟨hcontract, hw₂⟩ := hkeeps req h.1 w₁ x w₂ (hstable w w₁ hw hrely) hinv hserve
    exact ⟨hcontract.1, hcontract.2, ih x (h.2 x) hw₂⟩

include hc

/-- A call keeps besides what survives growth. -/
theorem Keeps.and {assertion' : World → Prop} {req : Request} (h : Keeps serve c assertion req)
    (h' : GrowthStable assertion') : Keeps serve c (fun w => assertion w ∧ assertion' w) req := by
  intro w x w' hw hinv hserve
  obtain ⟨hcontract, hw'⟩ := h w x w' hw.1 hinv hserve
  exact ⟨hcontract, hw', h' w w' (served_grows (hc.sub hserve)) hw.2⟩

theorem Keeps.of_growthStable {req : Request} (h' : GrowthStable assertion)
    (h : ∀ w x w', assertion w → c.inv w → serve w req x w' → c.inv w' ∧ c.guar w w') :
    Keeps serve c assertion req :=
  fun w x w' hw hinv hserve =>
    ⟨h w x w' hw hinv hserve, h' w w' (served_grows (hc.sub hserve)) hw⟩

variable (hstable : c.Stable assertion)

omit hc in
include hstable in
/-- The rule of a call, for an assertion that others do not break. -/
theorem wp_request {req : Request} {next : Answer req → StoreM α} (hw : assertion w)
    (hkeeps : Keeps serve c assertion req)
    (h : ∀ w₁ x w₂, assertion w₁ → c.inv w₁ → serve w₁ req x w₂ → assertion w₂ → c.inv w₂ →
      wp serve c (next x) post w₂) :
    wp serve c (.call req next) post w := by
  refine wp_call fun w₁ hrely hinv x w₂ hserve => ?_
  have hw₁ := hstable _ _ hw hrely
  obtain ⟨⟨hinv₂, hguar⟩, hw₂⟩ := hkeeps w₁ x w₂ hw₁ hinv hserve
  exact ⟨hinv₂, hguar, h w₁ x w₂ hw₁ hinv hserve hw₂ hinv₂⟩

include hstable

theorem wp_ensureStream {stream : String} {post : Except StoreError Unit → World → Prop}
    (hw : assertion w) (hkeeps : Keeps serve c assertion (.ensureStream stream))
    (hok : ∀ w₂, assertion w₂ → c.inv w₂ → w₂.disk.content stream ≠ none → post (.ok ()) w₂)
    (herr : ∀ error w₂, assertion w₂ → c.inv w₂ → post (.error error) w₂) :
    wp serve c (UrsulaStore.ensureStream stream) post w := by
  refine wp_request hstable hw hkeeps fun w₁ x w₂ _ _ hserve hw₂ hinv₂ => ?_
  cases x with
  | error error => exact herr error w₂ hw₂ hinv₂
  | ok value =>
    refine hok w₂ hw₂ hinv₂ ?_
    rw [(served_ensureStream (hc.sub hserve)).2 rfl, Disk.content_ensure_self]
    exact Option.some_ne_none _

/-- A read answers the bytes of the stream, and the store has served it so. -/
theorem wp_readAll_served {stream : String} {post : Except StoreError Bytes → World → Prop}
    (hw : assertion w)
    (hok : ∀ w₂, assertion w₂ → c.inv w₂ →
      serve w₂ (.readAll stream) (.ok (w₂.disk.read stream)) w₂ →
      post (.ok (w₂.disk.read stream)) w₂)
    (herr : ∀ error w₂, assertion w₂ → c.inv w₂ → post (.error error) w₂) :
    wp serve c (UrsulaStore.readAll stream) post w := by
  have hkeeps : Keeps serve c assertion (.readAll stream) := by
    intro w x w' hw hinv hserve
    obtain rfl := (served_readAll (hc.sub hserve)).1
    exact ⟨⟨hinv, hc.guar_refl w'⟩, hw⟩
  refine wp_request hstable hw hkeeps fun w₁ x w₂ _ _ hserve hw₂ hinv₂ => ?_
  obtain ⟨rfl, hread⟩ := served_readAll (hc.sub hserve)
  cases x with
  | error error => exact herr error w₂ hw₂ hinv₂
  | ok bytes =>
    obtain rfl := hread bytes rfl
    exact hok w₂ hw₂ hinv₂ hserve

theorem wp_readAll {stream : String} {post : Except StoreError Bytes → World → Prop}
    (hw : assertion w)
    (hok : ∀ w₂, assertion w₂ → c.inv w₂ → post (.ok (w₂.disk.read stream)) w₂)
    (herr : ∀ error w₂, assertion w₂ → c.inv w₂ → post (.error error) w₂) :
    wp serve c (UrsulaStore.readAll stream) post w :=
  wp_readAll_served hc hstable hw (fun w₂ hw₂ hinv₂ _ => hok w₂ hw₂ hinv₂) herr

theorem wp_readRange {stream : String} {offset : UInt64} {length : Nat}
    {post : Except StoreError Bytes → World → Prop} (hw : assertion w)
    (hok : ∀ w₂, assertion w₂ → c.inv w₂ → offset.toNat + length ≤ (w₂.disk.read stream).length →
      post (.ok (((w₂.disk.read stream).drop offset.toNat).take length)) w₂)
    (herr : ∀ error w₂, assertion w₂ → c.inv w₂ → post (.error error) w₂) :
    wp serve c (UrsulaStore.readRange stream offset length) post w := by
  have hkeeps : Keeps serve c assertion (.readRange stream offset length) := by
    intro w x w' hw hinv hserve
    obtain rfl := (served_readRange (hc.sub hserve)).1
    exact ⟨⟨hinv, hc.guar_refl w'⟩, hw⟩
  refine wp_request hstable hw hkeeps fun w₁ x w₂ _ _ hserve hw₂ hinv₂ => ?_
  obtain ⟨rfl, hread⟩ := served_readRange (hc.sub hserve)
  cases x with
  | error error => exact herr error w₂ hw₂ hinv₂
  | ok bytes =>
    obtain ⟨hfit, hbytes⟩ := hread bytes rfl
    rw [hbytes]
    exact hok w₂ hw₂ hinv₂ hfit

end Rules

end LoroGateway
