import LoroGateway.Names
import LoroGateway.Lib.Program

/-!
# The interface of the store

The trait `UrsulaStore` of `src/ursula.rs`, its errors and its outcomes.  A
function of the gateway that awaits the store is a program over `Request`; the
store answers each request by an `Answer`.
-/

namespace LoroGateway

open ByteCodec CrashLogic

/-- The identity under which the store deduplicates an append. -/
structure ProducerTuple where
  id : String
  epoch : UInt64
  sequence : UInt64
  deriving DecidableEq, Repr

inductive AppendOutcome
  | committed (nextOffset : UInt64)
  | duplicate (nextOffset : UInt64)
  deriving DecidableEq, Repr

inductive RejectionKind
  | invalid
  | permissionDenied
  | notFound
  | conflict
  | payloadTooLarge
  | rateLimited
  | unsupported
  | other
  deriving DecidableEq, Repr

def RejectionKind.debug : RejectionKind → String
  | .invalid => "Invalid"
  | .permissionDenied => "PermissionDenied"
  | .notFound => "NotFound"
  | .conflict => "Conflict"
  | .payloadTooLarge => "PayloadTooLarge"
  | .rateLimited => "RateLimited"
  | .unsupported => "Unsupported"
  | .other => "Other"

inductive StoreError
  | ambiguous (message : String)
  | rejected (kind : RejectionKind) (message : String)
  | integrity (message : String)
  deriving DecidableEq, Repr

def StoreError.display : StoreError → String
  | .ambiguous message => "ambiguous Ursula result: " ++ message
  | .rejected kind message => "Ursula rejected the operation (" ++ kind.debug ++ "): " ++ message
  | .integrity message => "stored data failed integrity verification: " ++ message

/-- One call of the store.  `read_all_observed` is `read_all` with a request
counter that only feeds the room status. -/
inductive Request
  | ensureStream (stream : String)
  | readAll (stream : String)
  | readRange (stream : String) (offset : UInt64) (length : Nat)
  | append (stream : String) (producer : ProducerTuple) (body : Bytes)
  deriving DecidableEq

@[reducible]
def Answer : Request → Type
  | .ensureStream _ => Except StoreError Unit
  | .readAll _ => Except StoreError Bytes
  | .readRange _ _ _ => Except StoreError Bytes
  | .append _ _ _ => Except StoreError AppendOutcome

/-- A program that awaits the store. -/
abbrev StoreM := Prog Request Answer

namespace UrsulaStore

def ensureStream (stream : String) : StoreM (Except StoreError Unit) :=
  Prog.request (Request.ensureStream stream)

def readAll (stream : String) : StoreM (Except StoreError Bytes) :=
  Prog.request (Request.readAll stream)

def readAllObserved (stream : String) : StoreM (Except StoreError Bytes) :=
  Prog.request (Request.readAll stream)

def readRange (stream : String) (offset : UInt64) (length : Nat) :
    StoreM (Except StoreError Bytes) :=
  Prog.request (Request.readRange stream offset length)

def append (stream : String) (producer : ProducerTuple) (body : Bytes) :
    StoreM (Except StoreError AppendOutcome) :=
  Prog.request (Request.append stream producer body)

end UrsulaStore

/-- Await a result and convert its error, as `?` does. -/
def mapErr {ε ε' α : Type} (p : StoreM (Except ε α)) (f : ε → ε') : ExceptT ε' StoreM α :=
  ExceptT.mk (p >>= fun r => pure (r.mapError f))

section Steps

variable {Req : Type} {Ans : Req → Type} {σ ε α : Type} {serve : Serve Req Ans σ} {c : Contract σ}
  {s : σ}

theorem wp_check_bind {β : Type} {cond : Prop} [Decidable cond] {err : ε}
    {f : Unit → ExceptT ε (Prog Req Ans) β} {post : Except ε β → σ → Prop}
    (hok : cond → wp serve c (f ()).run post s) (herr : ¬ cond → post (.error err) s) :
    wp serve c ((check cond err : ExceptT ε (Prog Req Ans) Unit) >>= f).run post s := by
  by_cases h : cond
  · rw [check, if_pos h]
    exact hok h
  · rw [check, if_neg h]
    exact herr h

theorem wp_okOr_bind {β : Type} {value : Option α} {err : ε} {f : α → ExceptT ε (Prog Req Ans) β}
    {post : Except ε β → σ → Prop} (hok : ∀ a, value = some a → wp serve c (f a).run post s)
    (herr : value = none → post (.error err) s) :
    wp serve c ((okOr value err : ExceptT ε (Prog Req Ans) α) >>= f).run post s := by
  cases value with
  | none => exact herr rfl
  | some a => exact hok a rfl

theorem wp_lift_bind {β : Type} {r : Except ε α} {f : α → ExceptT ε (Prog Req Ans) β}
    {post : Except ε β → σ → Prop} (hok : ∀ a, r = .ok a → wp serve c (f a).run post s)
    (herr : ∀ e, r = .error e → post (.error e) s) :
    wp serve c ((liftM r : ExceptT ε (Prog Req Ans) α) >>= f).run post s := by
  cases r with
  | error e => exact herr e rfl
  | ok a => exact hok a rfl

end Steps

section Rules

variable {σ ε ε' α : Type} {serve : Serve Request Answer σ} {c : Contract σ} {s : σ}

theorem wp_mapErr {p : StoreM (Except ε α)} {f : ε → ε'} {post : Except ε' α → σ → Prop} :
    wp serve c (mapErr p f).run post s ↔
      wp serve c p (fun r t => post (r.mapError f) t) s := by
  change wp serve c (p >>= fun r => pure (r.mapError f)) post s ↔ _
  rw [wp_bind]
  rfl

/-- The rule of `?` after an awaited result. -/
theorem wp_mapErr_bind {β : Type} {p : StoreM (Except ε α)} {g : ε → ε'}
    {f : α → ExceptT ε' StoreM β} {post : Except ε' β → σ → Prop}
    (h : wp serve c p (fun r t => match r with
      | .ok a => wp serve c (f a).run post t
      | .error e => post (.error (g e)) t) s) :
    wp serve c (mapErr p g >>= f).run post s := by
  rw [wp_run_bind, wp_mapErr]
  refine wp_mono (fun r t ht => ?_) h
  cases r <;> exact ht

/-- The rule of `?` after a computation that does not await. -/
theorem wp_lift_mapError_bind {β : Type} {r : Except ε α} {g : ε → ε'}
    {f : α → ExceptT ε' StoreM β} {post : Except ε' β → σ → Prop}
    (hok : ∀ a, r = .ok a → wp serve c (f a).run post s)
    (herr : ∀ e, r = .error e → post (.error (g e)) s) :
    wp serve c ((liftM (r.mapError g) : ExceptT ε' StoreM α) >>= f).run post s := by
  cases r with
  | error e => exact herr e rfl
  | ok a => exact hok a rfl

end Rules

end LoroGateway
