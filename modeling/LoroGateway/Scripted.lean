import LoroGateway.Gateway
import LoroGateway.Lib.Script
import LoroGateway.Sample
import LoroGateway.Served

/-!
# Scripts for one room

The store of a script gives each call the fate that the script names.  The room
is called `r` and runs with the libraries of `LoroGateway.Sample`, in which a
producer id shows the boot id that it was made from; so a script can check that
a boot is fresh.
-/

namespace LoroGateway

open ByteCodec CrashLogic CrashLogic.Server Sample

def scriptedStore : Host Request Answer World Fate := fun fate w req => some (w.serve fate req)

theorem served_of_scripted (fate : Fate) (w : World) (req : Request) (x : Answer req) (w' : World)
    (h : scriptedStore fate w req = some (x, w')) : served w req x w' :=
  ⟨fate, (Option.some.inj h).symm⟩

/-- The part of a producer id that shows the boot id. -/
def shownBoot (id : String) : List Char := (id.toList.drop 18).take 32

/-- The sample hash of a producer input keeps the boot id and the generation. -/
theorem sha256_producerInput (bootId : ByteArr 16) (generation : GenerationId) :
    (sampleHashing.sha256 (producerInput bootId "r" generation)).val =
      (ascii "quorum-loro-producer-v1" ++ [0]).drop 17 ++ (bootId.val ++ (utf8 "r" ++
        be64 generation.value)) := by
  have hlabel : (ascii "quorum-loro-producer-v1" ++ [0]).length = 24 := by decide
  have hroom : (utf8 "r").length = 1 := by decide
  rw [producerInput]
  generalize ascii "quorum-loro-producer-v1" ++ [0] = label at hlabel ⊢
  change List.drop _ _ = _
  rw [List.append_assoc, List.append_assoc, List.drop_append, List.drop_eq_nil_of_le,
    List.nil_append, List.drop_append_of_le_length]
  all_goals simp only [List.length_append, List.length_replicate, length_be64, hlabel, hroom,
    bootId.property]
  all_goals omega

/-- The sample hash has no collisions among the producer inputs of the room. -/
theorem injOn_producerInput : Set.InjOn Hashing.sha256
    {input | ∃ bootId generation, input = producerInput bootId "r" generation} := by
  rintro _ ⟨bootId, generation, rfl⟩ _ ⟨bootId', generation', rfl⟩ h
  have hbytes := congrArg Subtype.val h
  change (sampleHashing.sha256 _).val = (sampleHashing.sha256 _).val at hbytes
  rw [sha256_producerInput, sha256_producerInput] at hbytes
  obtain ⟨hboot, hrest⟩ := List.append_inj (List.append_cancel_left hbytes)
    (bootId.property.trans bootId'.property.symm)
  rw [producerInput, producerInput, hboot, List.append_cancel_left hrest]

theorem shownBoot_producerId (bootId : ByteArr 16) (generation : GenerationId) :
    shownBoot (producerIdForGeneration bootId "r" generation) = (hex bootId.val).toList := by
  have hskip : ("qlg-".toList ++ (hex ((ascii "quorum-loro-producer-v1" ++ [0]).drop 17)).toList).length
      = 18 := by
    rw [List.length_append, length_hex, List.length_drop, List.length_append]
    rfl
  have hboot : (hex bootId.val).toList.length = 32 := by rw [length_hex, bootId.property]
  have hid := sha256_producerInput bootId generation
  rw [shownBoot, producerIdForGeneration, hid, String.toList_append, hex_append, hex_append,
    ← List.append_assoc, List.drop_left' hskip, List.take_left' hboot]

/-- No append has shown the boot id. -/
def showsNone (w : World) (boot : Boot) : Bool :=
  w.journal.all fun attempt => shownBoot attempt.app.producer.id ≠ (hex boot.bootId.val).toList

theorem freshBoot_of_showsNone {w : World} {boot : Boot} (h : showsNone w boot = true) :
    FreshBoot "r" w boot := by
  intro attempt hmem generation hid
  have hshown := List.all_eq_true.mp h attempt hmem
  rw [decide_eq_true_iff, hid] at hshown
  exact hshown (shownBoot_producerId boot.bootId generation)

/-- The server of the scripted room. -/
@[reducible]
def sampleGateway (config : ActorConfig) : Server Request Answer :=
  gateway OpDoc "r" config

/-- A policy of the scripted room, with the choices of a script that it allows. -/
structure Direction (config : ActorConfig) where
  policy : Policy OpDoc "r" config
  permits : Request → Fate → Bool
  permits_fate : ∀ {req fate}, permits req fate = true → policy.fate req fate
  allows : RoomActor OpDoc → Command → World → (req : Request) → Answer req → Bool
  answers_boot : ∀ boot w req x, policy.answer (.boot boot) w req x
  answers_command : ∀ {a command w req x}, allows a command w req x = true →
    policy.answer (.command command a) w req x
  delivers : World → Append → Bool
  delivers_deliver : ∀ {w app}, delivers w app = true → ∀ up, policy.deliver up w app
  accepts : RoomActor OpDoc → Command → Bool
  accepts_accept : ∀ {w a events c}, accepts a c = true → policy.accept w a events c

/-- Does the script answer the request of the task in this way? -/
def Direction.serves {config : ActorConfig} (direction : Direction config)
    (task : Task (gateway OpDoc "r" config)) (w : World) (req : Request) (x : Answer req) : Bool :=
  match task with
  | .boot _ => true
  | .command command a => direction.allows a command w req x

def Direction.director {config : ActorConfig} (direction : Direction config) :
    Director (environment direction.policy) Fate Append where
  host task fate w req :=
    if direction.permits req fate && direction.serves task w req (w.serve fate req).1 then
      some (w.serve fate req)
    else none
  host_serves := by
    intro task fate w req x w' h
    split_ifs at h with hpermits
    obtain ⟨hfate, hserves⟩ := Bool.and_eq_true_iff.mp hpermits
    have heq := Option.some.inj h
    rw [heq] at hserves
    refine ⟨fate, direction.permits_fate hfate, ?_, heq.symm⟩
    cases task with
    | boot boot => exact direction.answers_boot boot w req x
    | command command a => exact direction.answers_command hserves
  drift app w :=
    if direction.delivers w app && decide (app ∈ w.underWay) then some (w.deliver app)
    else none
  drift_drifts := by
    intro up app w w' h
    split_ifs at h with hdelivers
    obtain ⟨hdelivers, hmem⟩ := Bool.and_eq_true_iff.mp hdelivers
    exact ⟨app, of_decide_eq_true hmem, direction.delivers_deliver hdelivers up,
      (Option.some.inj h).symm⟩
  boots := showsNone
  boots_boots h := freshBoot_of_showsNone h
  accepts := direction.accepts
  accepts_accepts h := direction.accepts_accept h
  crash := crashedWorld
  crash_crashes := rfl

/-- What can be computed of the end of a script holds of a state of the room. -/
theorem Direction.exists_of_run {config : ActorConfig} {direction : Direction config}
    {moves : List (Move (sampleGateway config) Fate Append)}
    {holds : System (sampleGateway config) World → Bool}
    (hrun : (direction.director.run moves ⟨World.empty, .down, []⟩).any holds = true) :
    ∃ g, RoomReachable direction.policy g ∧ holds g = true :=
  Director.exists_of_run rfl hrun

/-- What can be computed of an idle room. -/
def whenIdle {config : ActorConfig}
    (holds : World → RoomActor OpDoc → List (Event (sampleGateway config) World) → Bool)
    (g : System (sampleGateway config) World) : Bool :=
  match g.phase with
  | .idle a => holds g.world a g.events
  | _ => false

/-- A script that ends with an idle room. -/
theorem Direction.exists_idle_of_run {config : ActorConfig} {direction : Direction config}
    {moves : List (Move (sampleGateway config) Fate Append)}
    {holds : World → RoomActor OpDoc → List (Event (sampleGateway config) World) → Bool}
    (hrun : (direction.director.run moves ⟨World.empty, .down, []⟩).any (whenIdle holds) = true) :
    ∃ w a events, RoomReachable direction.policy ⟨w, .idle a, events⟩ ∧ holds w a events = true := by
  obtain ⟨⟨w, phase, events⟩, hreach, hend⟩ := Direction.exists_of_run hrun
  cases phase with
  | idle a => exact ⟨w, a, events, hreach, hend⟩
  | down => cases hend
  | booting b p => cases hend
  | serving c before a p => cases hend

/-- What can be computed of a turn that an event reports. -/
def reportsTurn {config : ActorConfig}
    (holds : Command → World → RoomActor OpDoc → List Output → World → RoomActor OpDoc → Bool) :
    Event (sampleGateway config) World → Bool
  | .handled command before a outputs after a' => holds command before a outputs after a'
  | _ => false

theorem exists_turn {config : ActorConfig}
    {holds : Command → World → RoomActor OpDoc → List Output → World → RoomActor OpDoc → Bool}
    {events : List (Event (sampleGateway config) World)}
    (h : events.any (reportsTurn holds) = true) :
    ∃ command before a outputs after a',
      .handled command before a outputs after a' ∈ events ∧
      holds command before a outputs after a' = true := by
  obtain ⟨event, hmem, hevent⟩ := List.any_eq_true.mp h
  cases event with
  | handled command before a outputs after a' => exact ⟨_, _, _, _, _, _, hmem, hevent⟩
  | booted boot after a => cases hevent
  | crashed => cases hevent

/-- Scripts for a store that loses answers and delays no append. -/
def lossyDirection (config : ActorConfig) : Direction config where
  policy := .lossy
  permits _ fate :=
    match fate with
    | .misreported _ | .delayed _ => false
    | _ => true
  permits_fate := by
    intro req fate h
    cases fate <;> trivial
  allows _ _ _ _ _ := true
  answers_boot _ _ _ _ := trivial
  answers_command _ := trivial
  delivers _ _ := false
  delivers_deliver := nofun
  accepts _ _ := true
  accepts_accept _ := trivial

/-- Scripts for a store whose appends may arrive late. -/
def lateDirection (config : ActorConfig) : Direction config where
  policy := .late
  permits _ fate :=
    match fate with
    | .misreported _ => false
    | _ => true
  permits_fate := by
    rintro req fate h n rfl
    cases h
  allows _ _ _ _ _ := true
  answers_boot _ _ _ _ := trivial
  answers_command _ := trivial
  delivers _ _ := true
  delivers_deliver _ _ := trivial
  accepts _ _ := true
  accepts_accept _ := trivial

/-- Calls that are all answered. -/
abbrev answeredAll (calls : Nat) : List Fate := List.replicate calls .answered

def answeredHost : Host Request Answer World Unit := fun _ w req => some (w.serve .answered req)

/-- A boot id whose bytes are all the same, and batch ids that count from one. -/
def sampleBoot (byte : UInt8) : Boot where
  bootId := ⟨List.replicate 16 byte, List.length_replicate⟩
  serverBatchIds n := UInt64.ofNat (n + 1)

def sampleBatch (byte : UInt8) : ByteArr 8 := ⟨List.replicate 8 byte, List.length_replicate⟩

end LoroGateway
