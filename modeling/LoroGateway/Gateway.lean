import LoroGateway.Actor
import LoroGateway.Lib.Server
import LoroGateway.World

/-!
# One room over a failing store

The gateway is a server whose memory is the room actor.  A start activates the
actor under a boot id that no append has carried before, and one gateway runs
at a time.

`Policy` says what the surroundings may do, and `environment` turns it into the
environment of the server.  `Policy.lossy` is a store that may lose answers,
refuse calls and fail, but whose appends take effect, if at all, before the
call returns.  `Policy.late` lets an append that was given up take effect at
any later moment.
-/

namespace LoroGateway

open ByteCodec CrashLogic CrashLogic.Server

section

variable [Hashing]

/-- The server of one room. -/
@[reducible]
def gateway (Doc : Type) [Loro Doc] (roomId : String) (config : ActorConfig) :
    Server Request Answer where
  State := RoomActor Doc
  Command := Command
  Output := Output
  Boot := Boot
  boot := RoomActor.activate roomId config
  handle := RoomActor.handle

/-- No append has carried a producer id of this boot. -/
def FreshBoot (roomId : String) (w : World) (boot : Boot) : Prop :=
  ∀ attempt ∈ w.journal, ∀ generation,
    attempt.app.producer.id ≠ producerIdForGeneration boot.bootId roomId generation

/-- What a crash leaves: the appends under way have lost their sender.  A call
that was waiting at the crash is one whose answer reached nobody. -/
def crashedWorld (w : World) : World :=
  { w with inflight := [], orphans := w.inflight ++ w.orphans }

variable {Doc : Type} [Loro Doc] {roomId : String} {config : ActorConfig}

/-- What the surroundings of a room may do. -/
structure Policy (Doc : Type) [Loro Doc] (roomId : String) (config : ActorConfig) where
  /-- The fates of a call. -/
  fate : Request → Fate → Prop
  /-- The answers that may reach the caller while it is busy with a task. -/
  answer : Task (gateway Doc roomId config) → World → (req : Request) → Answer req → Prop
  /-- The appends under way that may reach the store, while the process is up or down. -/
  deliver : (up : Bool) → World → Append → Prop
  /-- The commands that may come. -/
  accept : World → RoomActor Doc → List (Event (gateway Doc roomId config) World) → Command → Prop

def environment (policy : Policy Doc roomId config) :
    Environment (gateway Doc roomId config) World where
  serve task w req x w' :=
    ∃ fate, policy.fate req fate ∧ policy.answer task w req x ∧ (x, w') = w.serve fate req
  drift up w w' :=
    ∃ app ∈ w.underWay, policy.deliver up w app ∧ w' = w.deliver app
  boots w _ boot := FreshBoot roomId w boot
  accepts w a events command := policy.accept w a events command
  crash w w' := w' = crashedWorld w

/-- The runs of a room whose store holds nothing at the start. -/
def RoomReachable (policy : Policy Doc roomId config) :
    System (gateway Doc roomId config) World → Prop :=
  Reachable (environment policy) fun w => w = World.empty

namespace Policy

/-- Answers get lost and calls fail, but no append outlives its call. -/
def lossy : Policy Doc roomId config where
  fate _ fate := fate.Prompt
  answer _ _ _ _ := True
  deliver _ _ _ := False
  accept _ _ _ _ := True

/-- An append that was given up may take effect at any later moment. -/
def late : Policy Doc roomId config where
  fate _ fate := ∀ n, fate ≠ .misreported n
  answer _ _ _ _ := True
  deliver _ _ _ := True
  accept _ _ _ _ := True

/-- Every append is answered: it is committed, or it is refused without effect.
Other calls may fail. -/
def answering : Policy Doc roomId config where
  fate req fate :=
    match req with
    | .append _ _ _ => fate = .answered ∨ ∃ kind message, fate = .failed (.rejected kind message)
    | _ => fate.Prompt
  answer _ _ _ _ := True
  deliver _ _ _ := False
  accept _ _ _ _ := True

end Policy

end

end LoroGateway
