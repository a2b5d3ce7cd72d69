import LoroGateway.Store

/-!
# A store that fails

The store behind the trait is a service of its own.  What the gateway relies on
is the store of its tests: a set of append-only streams, where the appends of
one producer to one stream are deduplicated by their sequence.

* `Disk` is the durable state.  For each stream and producer id it keeps the
  sequence and the end offset of the last append it accepted.
* `Fate` is what becomes of one call: its answer may be lost after the call took
  effect, the call may fail without effect, or its append may still be under
  way when the caller gives up.
* `World` adds the appends that are under way and a journal of all appends that
  were submitted.  The journal is read by no code; statements speak of it.
-/

namespace LoroGateway

open ByteCodec CrashLogic

/-- An append as it is sent to the store. -/
structure Append where
  stream : String
  producer : ProducerTuple
  body : Bytes
  deriving DecidableEq

structure Disk where
  content : String → Option Bytes
  /-- The sequence and the end offset of the last accepted append. -/
  last : String → String → Option (UInt64 × UInt64)

namespace Disk

def empty : Disk where
  content _ := none
  last _ _ := none

/-- The bytes of a stream; a stream that does not exist has none. -/
def read (d : Disk) (stream : String) : Bytes := (d.content stream).getD []

/-- Create a stream unless it exists. -/
def ensure (d : Disk) (stream : String) : Disk where
  content s := if s = stream then some (d.read stream) else d.content s
  last := d.last

/-- The append carries the next sequence of its producer, and offsets stay
below the machine word. -/
def Accepts (d : Disk) (app : Append) : Prop :=
  (match d.last app.stream app.producer.id with
    | none => app.producer.sequence = 0
    | some (sequence, _) => app.producer.sequence.toNat = sequence.toNat + 1) ∧
    (d.read app.stream).length + app.body.length < wordSize

instance (d : Disk) (app : Append) : Decidable (d.Accepts app) := by
  unfold Accepts
  cases d.last app.stream app.producer.id <;> infer_instance

/-- The offset at which an accepted append ends. -/
def endOffset (d : Disk) (app : Append) : UInt64 :=
  UInt64.ofNat ((d.read app.stream).length + app.body.length)

/-- The disk after an accepted append. -/
def accept (d : Disk) (app : Append) : Disk where
  content s := if s = app.stream then some (d.read app.stream ++ app.body) else d.content s
  last s id :=
    if s = app.stream ∧ id = app.producer.id then some (app.producer.sequence, d.endOffset app)
    else d.last s id

/-- The disk after an append has reached the store. -/
def append (d : Disk) (app : Append) : Disk := if d.Accepts app then d.accept app else d

/-- What the store answers to an append that it does not accept. -/
def refusal (d : Disk) (app : Append) : Except StoreError AppendOutcome :=
  match d.last app.stream app.producer.id with
  | none => .error (.rejected .conflict "producer must begin at zero")
  | some (sequence, endOffset) =>
    if app.producer.sequence ≤ sequence then .ok (.duplicate endOffset)
    else .error (.rejected .conflict "sequence gap")

/-- What the store answers to an append. -/
def appendAnswer (d : Disk) (app : Append) : Except StoreError AppendOutcome :=
  if d.Accepts app then .ok (.committed (d.endOffset app)) else d.refusal app

/-- What the store answers to a read of a range. -/
def rangeAnswer (d : Disk) (stream : String) (offset : UInt64) (length : Nat) :
    Except StoreError Bytes :=
  if offset.toNat + length ≤ (d.read stream).length then
    .ok (((d.read stream).drop offset.toNat).take length)
  else .error (.integrity "range is absent")

end Disk

/-- What becomes of one call of the store. -/
inductive Fate
  /-- The call takes effect and its answer arrives. -/
  | answered
  /-- A duplicate is answered with some other offset. -/
  | misreported (nextOffset : UInt64)
  /-- The call takes effect and its answer is lost. -/
  | lost (message : String)
  /-- The call takes effect and its answer cannot be understood. -/
  | garbled (message : String)
  /-- The call has no effect. -/
  | failed (error : StoreError)
  /-- The call has no effect yet. -/
  | delayed (message : String)

namespace Fate

/-- Does the call take effect at once? -/
def acts : Fate → Bool
  | answered | misreported _ | lost _ | garbled _ => true
  | failed _ | delayed _ => false

/-- The answer that the caller sees in place of the one the store gave. -/
def reply {α : Type} (fate : Fate) (answer : Except StoreError α) : Except StoreError α :=
  match fate with
  | answered | misreported _ => answer
  | lost message | delayed message => .error (.ambiguous message)
  | garbled message => .error (.integrity message)
  | failed error => .error error

/-- The answer to an append. -/
def replyAppend (fate : Fate) (answer : Except StoreError AppendOutcome) :
    Except StoreError AppendOutcome :=
  match fate, answer with
  | misreported nextOffset, .ok (.duplicate _) => .ok (.duplicate nextOffset)
  | fate, answer => fate.reply answer

/-- A call that is over when it returns, and whose answer says what happened. -/
def Prompt : Fate → Prop
  | misreported _ | delayed _ => False
  | _ => True

end Fate

/-- The offset that an append was answered with. -/
def AppendOutcome.nextOffset : AppendOutcome → UInt64
  | .committed nextOffset => nextOffset
  | .duplicate nextOffset => nextOffset

/-- One submitted append, with the answer that the caller saw. -/
structure Attempt where
  app : Append
  answer : Except StoreError AppendOutcome
  committed : Bool
  deriving DecidableEq

structure World where
  disk : Disk
  /-- Appends under way that this process has sent. -/
  inflight : List Append
  /-- Appends under way whose sender has crashed. -/
  orphans : List Append
  /-- All submitted appends, the newest first. -/
  journal : List Attempt

namespace World

def empty : World := ⟨.empty, [], [], []⟩

/-- All appends that are under way. -/
def underWay (w : World) : List Append := w.inflight ++ w.orphans

/-- One call of the store. -/
def serve (fate : Fate) (w : World) : (req : Request) → Answer req × World
  | .ensureStream stream =>
    (fate.reply (.ok ()), if fate.acts then { w with disk := w.disk.ensure stream } else w)
  | .readAll stream => (fate.reply (.ok (w.disk.read stream)), w)
  | .readRange stream offset length => (fate.reply (w.disk.rangeAnswer stream offset length), w)
  | .append stream producer body =>
    let app : Append := ⟨stream, producer, body⟩
    let answer := fate.replyAppend (w.disk.appendAnswer app)
    (answer,
      { disk := if fate.acts then w.disk.append app else w.disk
        inflight := match fate with
          | .delayed _ => app :: w.inflight
          | _ => w.inflight
        orphans := w.orphans
        journal := ⟨app, answer, fate.acts && decide (w.disk.Accepts app)⟩ :: w.journal })

/-- An append that is under way reaches the store. -/
def deliver (w : World) (app : Append) : World := { w with disk := w.disk.append app }

end World

/-! ## What a call can do -/

namespace Disk

variable {d : Disk} {app : Append} {s id : String}

@[simp] theorem read_ensure (d : Disk) (stream s : String) :
    (d.ensure stream).read s = d.read s := by
  by_cases h : s = stream
  · subst h
    simp [Disk.read, Disk.ensure]
  · simp [Disk.read, Disk.ensure, h]

@[simp] theorem last_ensure (d : Disk) (stream : String) : (d.ensure stream).last = d.last := rfl

theorem content_ensure_self (d : Disk) (stream : String) :
    (d.ensure stream).content stream = some (d.read stream) := by
  simp [Disk.ensure]

theorem content_ensure_ne (d : Disk) {stream : String} (h : s ≠ stream) :
    (d.ensure stream).content s = d.content s := by
  simp [Disk.ensure, h]

theorem read_accept_self (d : Disk) (app : Append) :
    (d.accept app).read app.stream = d.read app.stream ++ app.body := by
  simp [Disk.accept, Disk.read]

theorem content_accept_ne (h : s ≠ app.stream) : (d.accept app).content s = d.content s := by
  simp [Disk.accept, h]

theorem read_accept_ne (h : s ≠ app.stream) : (d.accept app).read s = d.read s := by
  rw [Disk.read, Disk.read, content_accept_ne h]

theorem last_accept_self (d : Disk) (app : Append) :
    (d.accept app).last app.stream app.producer.id =
      some (app.producer.sequence, d.endOffset app) := by
  simp [Disk.accept]

theorem last_accept_ne (h : ¬ (s = app.stream ∧ id = app.producer.id)) :
    (d.accept app).last s id = d.last s id := by
  simp [Disk.accept, h]

theorem append_of_accepts (h : d.Accepts app) : d.append app = d.accept app := if_pos h

theorem append_of_not_accepts (h : ¬ d.Accepts app) : d.append app = d := if_neg h

theorem endOffset_toNat (h : d.Accepts app) :
    (d.endOffset app).toNat = (d.read app.stream).length + app.body.length :=
  UInt64.toNat_ofNat_of_lt' h.2

/-- What a refusal can be. -/
theorem refusal_cases (d : Disk) (app : Append) :
    (∃ message, d.refusal app = .error (.rejected .conflict message)) ∨
      ∃ sequence endOffset, d.last app.stream app.producer.id = some (sequence, endOffset) ∧
        app.producer.sequence ≤ sequence ∧ d.refusal app = .ok (.duplicate endOffset) := by
  rw [refusal]
  cases hlast : d.last app.stream app.producer.id with
  | none => exact .inl ⟨_, rfl⟩
  | some entry =>
    obtain ⟨sequence, endOffset⟩ := entry
    dsimp only
    split_ifs with hle
    · exact .inr ⟨sequence, endOffset, rfl, hle, rfl⟩
    · exact .inl ⟨_, rfl⟩

theorem appendAnswer_duplicate {n : UInt64} (h : d.appendAnswer app = .ok (.duplicate n)) :
    ¬ d.Accepts app ∧ ∃ sequence, d.last app.stream app.producer.id = some (sequence, n) ∧
      app.producer.sequence ≤ sequence := by
  by_cases haccepts : d.Accepts app
  · rw [appendAnswer, if_pos haccepts] at h
    cases h
  · refine ⟨haccepts, ?_⟩
    rw [appendAnswer, if_neg haccepts] at h
    obtain ⟨message, hrefusal⟩ | ⟨sequence, endOffset, hlast, hle, hrefusal⟩ := d.refusal_cases app
    · rw [hrefusal] at h
      cases h
    · rw [hrefusal] at h
      cases h
      exact ⟨sequence, hlast, hle⟩

end Disk

end LoroGateway
