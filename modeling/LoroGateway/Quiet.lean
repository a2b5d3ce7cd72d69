import LoroGateway.DocSpec
import LoroGateway.Lasting
import LoroGateway.Tracking

/-!
# The programs of an actor over a store that keeps to its word

`Orderly` is a store that answers a duplicate with the offset that it keeps and
in which nothing happens by itself.  Over such a store there is one rule for
each program of the actor.  A rule says what the program leaves on the disk and
what the actor has seen of it afterwards.

A user of a rule brings an assertion `F` about the world that must hold between
any two calls; the rule says what may be on the disk at such a moment.
-/

namespace LoroGateway

open ByteCodec CrashLogic CrashLogic.Server

variable [Hashing] {Doc : Type} [Loro Doc] {roomId : String} {config : ActorConfig}

/-- A store that is known to be in order and answers a duplicate with the offset that
it keeps. -/
structure Orderly (Doc : Type) [Loro Doc] (roomId : String) (config : ActorConfig)
    (serve : Serve Request Answer World) : Prop where
  sub : ∀ {w req x w'}, serve w req x w' → served w req x w'
  kept : ∀ {w req x w'}, serve w req x w' → Kept Doc roomId config w ∧ Kept Doc roomId config w'
  duplicate : ∀ {w stream producer body n w'},
    serve w (.append stream producer body) (.ok (.duplicate n)) w' →
      ∃ sequence, w.disk.last stream producer.id = some (sequence, n)

/-- Nothing happens by itself, and the store is honest. -/
structure Policy.Quiet (policy : Policy Doc roomId config) : Prop where
  honest : policy.Honest
  still : ∀ up w app, ¬ policy.deliver up w app

theorem Policy.lossy_quiet : (Policy.lossy : Policy Doc roomId config).Quiet where
  honest := by
    rintro _ _ _ h rfl
    exact h
  still _ _ _ := id

theorem Policy.Honest.orderly {policy : Policy Doc roomId config} (honest : policy.Honest)
    (L : World → RoomActor Doc → Prop) (task : Task (gateway Doc roomId config)) :
    Orderly Doc roomId config ((keptWith policy L).serve task) where
  sub := served_of_confined
  kept h := h.2
  duplicate := by
    rintro w stream producer body n w' ⟨⟨fate, hfate, _, heq⟩, _⟩
    exact last_of_duplicate (fun n => honest _ fate n hfate) heq

theorem quiet_of_still {policy : Policy Doc roomId config}
    (still : ∀ up w app, ¬ policy.deliver up w app) (L : World → RoomActor Doc → Prop) :
    (keptWith policy L).Quiet := by
  rintro up w w' ⟨⟨app, _, hdeliver, _⟩, _⟩
  exact still up w app hdeliver

/-! ## Where a generation starts -/

/-- What an actor recovers before it reads the active delta stream: nothing in
generation zero, and later the checkpoint of the generation before. -/
inductive StartsFrom (Doc : Type) [Loro Doc] (roomId : String) (d : Disk) :
    GenerationId → Option CheckpointRecord → Prop
  | nothing : StartsFrom Doc roomId d .zero none
  | checkpoint {generation previous : GenerationId} {checkpoint : CheckpointRecord}
      (next : generation.value.toNat = previous.value.toNat + 1)
      (of : CheckpointOf Doc roomId previous checkpoint)
      (encode : checkpoint.encode =
        .ok (d.read (checkpointStream roomId previous).physical)) :
      StartsFrom Doc roomId d generation (some checkpoint)

theorem StartsFrom.unique {d : Disk} {generation : GenerationId} {base base' : Option CheckpointRecord}
    (h : StartsFrom Doc roomId d generation base) (h' : StartsFrom Doc roomId d generation base') :
    base = base' := by
  cases h with
  | nothing =>
    cases h' with
    | nothing => rfl
    | checkpoint hnext => exact absurd hnext (Nat.succ_ne_zero _).symm
  | checkpoint hnext _ hencode =>
    cases h' with
    | nothing => exact absurd hnext (Nat.succ_ne_zero _).symm
    | checkpoint hnext' _ hencode' =>
      have hprevious := GenerationId.ext (UInt64.toNat_inj.mp
        (Nat.succ.inj (hnext.symm.trans hnext')))
      subst hprevious
      have hdecode := CheckpointRecord.decodeExact_encode hencode
      rw [CheckpointRecord.decodeExact_encode hencode'] at hdecode
      rw [Except.ok.inj hdecode]

/-- The blobs that a start keeps. -/
def keptBlobs : Option CheckpointRecord → List Bytes
  | none => []
  | some checkpoint => checkpoint.pendingUpdates

/-- The document of a start. -/
def Restores (base : Option CheckpointRecord) (doc : Doc) : Prop :=
  match base with
  | none => doc = Loro.new
  | some checkpoint => ∃ restored, Loro.fromSnapshot checkpoint.snapshot = .ok restored ∧
      importAll restored checkpoint.pendingUpdates = .ok doc

/-- The operations of a start. -/
def Loro.Observers.baseOps {Op : Type} (S : Loro.Observers Doc Op) : Option CheckpointRecord → Set Op
  | none => ∅
  | some checkpoint => S.blobOps checkpoint.snapshot ∪ S.ops checkpoint.pendingUpdates

omit [Hashing] in
theorem Restores.known {Op : Type} {S : Loro.Observers Doc Op} (sem : Loro.Semantics S)
    {base : Option CheckpointRecord} {doc : Doc} (h : Restores base doc) :
    S.known doc = S.baseOps base := by
  cases base with
  | none =>
    rw [(h : doc = Loro.new)]
    exact sem.known_new
  | some checkpoint =>
    obtain ⟨restored, hrestored, himport⟩ := h
    rw [importAll_known sem himport, sem.restore_known hrestored]
    rfl

omit [Hashing] in
/-- The two imports differ in their errors alone. -/
theorem importAll_of_importRecovered {doc doc' : Doc} {updates : List Bytes}
    (h : importRecovered doc updates = .ok doc') : importAll doc updates = .ok doc' := by
  rw [importRecovered] at h
  rw [importAll]
  split_ifs at h ⊢ with hempty
  · cases h
    rfl
  · obtain ⟨imported, himport, h⟩ := bind_eq_ok.mp h
    rw [mapError_eq_ok] at himport
    cases h
    exact bind_eq_ok.mpr ⟨imported, himport, rfl⟩

/-- A room that has been opened from a disk. -/
structure RoomActor.Reopened (roomId : String) (config : ActorConfig) (boot : Boot)
    (a : RoomActor Doc) (d : Disk) (base : Option CheckpointRecord) (frames : List DeltaFrame) :
    Prop where
  current : Current roomId a.activeDeltaGeneration d
  start : StartsFrom Doc roomId d a.activeDeltaGeneration base
  log : DeltaLog (NamedFrame roomId a.activeDeltaGeneration) config.frameLimits
    (deltaStreamForGeneration roomId a.activeDeltaGeneration).physical d frames
  history : a.history = keptBlobs base ++ frames.flatMap DeltaFrame.updates
  doc : ∃ start, Restores base start ∧
    importAll start (frames.flatMap DeltaFrame.updates) = .ok a.doc
  endOffset : a.activeDeltaEndOffset.toNat = (logBytes config.frameLimits frames).length
  producer : a.producerId = producerIdForGeneration boot.bootId roomId a.activeDeltaGeneration
  sequence : a.producerSequence = 0
  ready : a.lifecycle = .ready
  unblocked : a.blocked = none
  peers : a.peers = []

theorem RoomActor.Reopened.known {Op : Type} {S : Loro.Observers Doc Op} (sem : Loro.Semantics S)
    {boot : Boot} {a : RoomActor Doc} {d : Disk} {base : Option CheckpointRecord}
    {frames : List DeltaFrame} (h : a.Reopened roomId config boot d base frames) :
    S.known a.doc = S.baseOps base ∪ S.ops (frames.flatMap DeltaFrame.updates) := by
  obtain ⟨start, hstart, himport⟩ := h.doc
  rw [importAll_known sem himport, hstart.known sem]

theorem RoomActor.Reopened.tracks {boot : Boot} {a : RoomActor Doc} {w w' : World}
    {base : Option CheckpointRecord} {frames : List DeltaFrame}
    (h : a.Reopened roomId config boot w'.disk base frames) (hkept : Kept Doc roomId config w)
    (hfresh : FreshBoot roomId w boot) (hread : w'.disk.read = w.disk.read)
    (hlast : w'.disk.last = w.disk.last) : a.Tracks roomId config.frameLimits w'.disk frames where
  current := h.current
  log := by
    refine .of_log h.log ?_
    have hlog := h.log.congr (congrFun hread.symm _) fun id => congrFun (congrFun hlast.symm _) id
    rw [h.producer]
    exact hkept.framesOf_fresh hfresh hlog _
  history := by
    refine ⟨keptBlobs base, h.history, fun hzero => ?_⟩
    have hstart := h.start
    rw [hzero] at hstart
    cases hstart with
    | nothing => rfl
    | checkpoint hnext => exact absurd hnext (Nat.succ_ne_zero _).symm
  endOffset _ := h.endOffset

/-! ## Where a generation ends -/

/-- The manifest names the generation after that of the actor, with the checkpoint of
the actor. -/
structure RoomActor.Superseded (roomId : String) (a : RoomActor Doc) (next : GenerationId)
    (checkpoint : CheckpointRecord) (d : Disk) : Prop where
  succ : next.value.toNat = a.activeDeltaGeneration.value.toNat + 1
  current : Current roomId next d
  built : buildCheckpointRecord roomId a.activeDeltaGeneration.value a.activeDeltaGeneration.value
    a.activeDeltaEndOffset a.doc a.history = .ok checkpoint
  encode : checkpoint.encode =
    .ok (d.read (checkpointStream roomId a.activeDeltaGeneration).physical)
  empty : d.read (deltaStreamForGeneration roomId next).physical = []

theorem RoomActor.Superseded.start {a : RoomActor Doc} {next : GenerationId}
    {checkpoint : CheckpointRecord} {d : Disk} (h : a.Superseded roomId next checkpoint d) :
    StartsFrom Doc roomId d next (some checkpoint) :=
  .checkpoint h.succ ⟨_, _, _, h.built⟩ h.encode

/-- The disk while an actor closes its generation: the delta streams are as they were,
at most the checkpoint of the generation is new, and so is at most one record of the
manifest. -/
structure RoomActor.Closing (roomId : String) (a : RoomActor Doc) (d d' : Disk) : Prop where
  deltas : ∀ generation, d'.read (deltaStreamForGeneration roomId generation).physical =
    d.read (deltaStreamForGeneration roomId generation).physical ∧
    ∀ id, d'.last (deltaStreamForGeneration roomId generation).physical id =
      d.last (deltaStreamForGeneration roomId generation).physical id
  checkpoints : ∀ generation, generation ≠ a.activeDeltaGeneration →
    d'.read (checkpointStream roomId generation).physical =
      d.read (checkpointStream roomId generation).physical
  manifest : d'.read (manifestStream roomId).physical = d.read (manifestStream roomId).physical ∨
    ∃ next checkpoint, a.Superseded roomId next checkpoint d'

namespace RoomActor.Closing

variable {a : RoomActor Doc} {d d' d'' : Disk}

theorem refl (a : RoomActor Doc) (d : Disk) : a.Closing roomId d d :=
  ⟨fun _ => ⟨rfl, fun _ => rfl⟩, fun _ _ => rfl, .inl rfl⟩

theorem same (h : a.Closing roomId d d') (hsame : d'.Same d'') : a.Closing roomId d d'' where
  deltas generation := by
    rw [hsame.read, hsame.last]
    exact h.deltas generation
  checkpoints := by
    rw [hsame.read]
    exact h.checkpoints
  manifest := by
    rw [hsame.read]
    refine h.manifest.imp_right fun ⟨next, checkpoint, hnext⟩ => ⟨next, checkpoint, ?_⟩
    exact ⟨hnext.succ, by rw [Current, hsame.read]; exact hnext.current, hnext.built,
      by rw [hsame.read]; exact hnext.encode, by rw [hsame.read]; exact hnext.empty⟩

/-- The logs of the delta streams are as they were. -/
theorem log (h : a.Closing roomId d d') {P : DeltaFrame → Prop} {limits : FrameLimits}
    {generation : GenerationId} {frames : List DeltaFrame}
    (hlog : DeltaLog P limits (deltaStreamForGeneration roomId generation).physical d frames) :
    DeltaLog P limits (deltaStreamForGeneration roomId generation).physical d' frames :=
  hlog.congr (h.deltas generation).1 (h.deltas generation).2

/-- A call that writes the checkpoint. -/
theorem persist {w w' : World} (h : a.Closing roomId d w.disk) (hkept : Kept Doc roomId config w)
    (hkept' : Kept Doc roomId config w') {bytes : Bytes} {x : Except StoreError AppendOutcome}
    (hserve : served w (.append (checkpointStream roomId a.activeDeltaGeneration).physical
      ⟨checkpointProducerId roomId a.activeDeltaGeneration, 0, 0⟩ bytes) x w') :
    a.Closing roomId d w'.disk := by
  have hgrow := served_grows hserve
  cases served_append hserve with
  | duplicate => exact h
  | refused => exact h
  | accepted =>
    refine ⟨fun generation => ?_, fun generation hne => ?_, ?_⟩
    · rw [Disk.read_accept_ne deltaStream_ne_checkpointStream]
      refine ⟨(h.deltas generation).1, fun id => ?_⟩
      rw [Disk.last_accept_ne fun heq => deltaStream_ne_checkpointStream heq.1]
      exact (h.deltas generation).2 id
    · rw [Disk.read_accept_ne fun heq => hne (checkpointStream_inj heq)]
      exact h.checkpoints generation hne
    · have hmanifest : (w.disk.accept (checkpointAppend roomId a.activeDeltaGeneration bytes)).read
          (manifestStream roomId).physical = w.disk.read (manifestStream roomId).physical :=
        Disk.read_accept_ne checkpointStream_ne_manifestStream.symm
      refine h.manifest.imp hmanifest.trans fun ⟨next, checkpoint, hnext⟩ => ⟨next, checkpoint, ?_⟩
      obtain ⟨records, hrecords⟩ := hkept.stored
      obtain ⟨records', hrecords'⟩ := hkept'.stored
      have hwritten : w.disk.read (checkpointStream roomId a.activeDeltaGeneration).physical ≠ [] := by
        intro hnil
        have hlength := (CheckpointRecord.encode_length hnext.encode).1
        rw [hnil] at hlength
        exact absurd hlength (Nat.lt_irrefl 0)
      have hread := (hrecords.checkpoint a.activeDeltaGeneration).once.read_eq
        (hrecords'.checkpoint a.activeDeltaGeneration).once hgrow hwritten
      refine ⟨hnext.succ, (congrArg List.length hmanifest).trans hnext.current, hnext.built, ?_, ?_⟩
      · exact hnext.encode.trans (congrArg _ hread.symm)
      · rw [Disk.read_accept_ne deltaStream_ne_checkpointStream]
        exact hnext.empty

/-- A call that publishes the record of the rotation. -/
theorem publish {w w' : World} (h : a.Closing roomId d w.disk) (hkept : Kept Doc roomId config w)
    {before : World → Prop}
    (hbefore : ∀ w, before w → Kept Doc roomId config w ∧ a.Closing roomId d w.disk)
    {result : RotationResult} (hvalid : result.manifest.Valid)
    (hprepared : Prepared before roomId a.activeDeltaGeneration a.activeDeltaEndOffset a.doc a.history
      result w) {x : Except StoreError AppendOutcome}
    (hserve : served w (.append (manifestStream roomId).physical
      ⟨manifestProducerId roomId, 0, result.manifest.revision⟩ result.manifest.encoded) x w') :
    a.Closing roomId d w'.disk := by
  obtain ⟨records, hrecords⟩ := hkept.stored
  obtain ⟨hrevision, _⟩ := hprepared.linked fun w hw => (hbefore w hw).1.stored
  cases served_append hserve with
  | duplicate => exact h
  | refused => exact h
  | accepted haccepts =>
    have hlength : result.manifest.revision.toNat = records.length :=
      hrecords.manifest.log.revision_of_accepts haccepts
    refine ⟨fun generation => ?_, fun generation hne => ?_, .inr ?_⟩
    · rw [Disk.read_accept_ne deltaStream_ne_manifestStream]
      refine ⟨(h.deltas generation).1, fun id => ?_⟩
      rw [Disk.last_accept_ne fun heq => deltaStream_ne_manifestStream heq.1]
      exact (h.deltas generation).2 id
    · rw [Disk.read_accept_ne checkpointStream_ne_manifestStream]
      exact h.checkpoints generation hne
    · obtain ⟨bytes, hencode, hbytes, _⟩ := hprepared.stored
      obtain ⟨w₁, hw₁, hempty⟩ := hprepared.nextEmpty
      refine ⟨result.nextDeltaGeneration, result.checkpoint, hprepared.next, ?_, hprepared.built, ?_, ?_⟩
      · have hread := Disk.read_accept_self w.disk (manifestAppend roomId result.manifest)
        have hcontent := hrecords.manifest.log.content
        change (Disk.read _ (manifestStream roomId).physical) = _ at hread
        rw [Current]
        refine (congrArg List.length hread).trans ?_
        rw [List.length_append]
        change (w.disk.read (manifestStream roomId).physical).length + _ = _
        rw [hcontent, length_manifestBytes hrecords.manifest.log.valid, ← hlength, hrevision,
          hprepared.next]
        change 188 * _ + result.manifest.encoded.length = _
        rw [hvalid.length_eq]
        omega
      · rw [Disk.read_accept_ne checkpointStream_ne_manifestStream,
          (hrecords.checkpoints a.activeDeltaGeneration).eq_of_isPrefix hencode hbytes]
        exact hencode
      · rw [Disk.read_accept_ne deltaStream_ne_manifestStream, (h.deltas _).1,
          ← ((hbefore w₁ hw₁).2.deltas _).1, ← hprepared.stream]
        exact hempty

end RoomActor.Closing

/-! ## The rules -/

section Rules

variable {serve : Serve Request Answer World} (hs : Orderly Doc roomId config serve)
  {F : World → Prop} {w : World}

/-- The contract of a program that runs alone over a store in order. -/
abbrev Contract.orderly (Doc : Type) [Loro Doc] (roomId : String) (config : ActorConfig)
    (F : World → Prop) : Contract World :=
  .alone fun w => Kept Doc roomId config w ∧ F w

omit [Hashing] [Loro Doc] in
theorem stable_alone {σ : Type} {inv : σ → Prop} (assertion : σ → Prop) :
    (Contract.alone inv).Stable assertion := by
  rintro s _ h rfl
  exact h

omit [Hashing] [Loro Doc] in
theorem grounded_alone {inv : World → Prop}
    (hsub : ∀ {w req x w'}, serve w req x w' → served w req x w') :
    Grounded serve (.alone inv) where
  sub := hsub
  grows := by
    intro w w' hrely
    obtain rfl : w = w' := hrely
    exact .refl _
  guar_refl _ := trivial

include hs

theorem Orderly.grounded : Grounded serve (Contract.orderly Doc roomId config F) :=
  grounded_alone hs.sub

/-- A call keeps an assertion that says what `F` asks for. -/
theorem Orderly.keeps {assertion : World → Prop} {req : Request}
    (h : ∀ w x w', Kept Doc roomId config w → Kept Doc roomId config w' → assertion w →
      served w req x w' → assertion w')
    (hF : ∀ w, Kept Doc roomId config w → assertion w → F w) :
    Keeps serve (Contract.orderly Doc roomId config F) assertion req := by
  intro w x w' hw _ hserve
  obtain ⟨hkept, hkept'⟩ := hs.kept hserve
  have hw' := h w x w' hkept hkept' hw (hs.sub hserve)
  exact ⟨⟨⟨hkept', hF w' hkept' hw'⟩, trivial⟩, hw'⟩

/-- A resolution has tried the append, and when it succeeds the frame is the last one
of the log. -/
theorem Orderly.resolve {a : RoomActor Doc} (ha : a.Seated roomId config) {pending : PendingAppend}
    (hpending : a.Prepares pending) {seen : List DeltaFrame}
    (htracks : a.Tracks roomId config.frameLimits w.disk seen)
    (hF : ∀ w', Kept Doc roomId config w' → Tried w.disk pending.app w'.disk → F w') :
    wp serve (Contract.orderly Doc roomId config F) (resolveAppend a.config pending)
      (fun r (t : World) => Kept Doc roomId config t ∧ Tried w.disk pending.app t.disk ∧
        ∀ proof, r = .ok proof →
          DeltaLog (NamedFrame roomId a.activeDeltaGeneration) config.frameLimits
            (deltaStreamForGeneration roomId a.activeDeltaGeneration).physical t.disk
            (seen ++ [pending.frame]) ∧
          proof.nextOffset.toNat =
            (logBytes config.frameLimits (seen ++ [pending.frame])).length) w := by
  have hsettle : ∀ {n} {t : World}, Tried w.disk pending.app t.disk →
      Settled pending.app n t.disk →
      DeltaLog (NamedFrame roomId a.activeDeltaGeneration) config.frameLimits
        (deltaStreamForGeneration roomId a.activeDeltaGeneration).physical t.disk
        (seen ++ [pending.frame]) ∧
      n.toNat = (logBytes config.frameLimits (seen ++ [pending.frame])).length := by
    intro n t htried hsettled
    refine (htracks.tried ha hpending htried).log.settled (ha.config ▸ hpending.valid)
      (hpending.frame.trans hpending.producer) ?_
    rw [← hpending.append_eq ha]
    exact hsettled
  refine wp_resolveAppend hs.grounded (stable_alone fun w' => Tried w.disk pending.app w'.disk)
    (.inl rfl) (hs.keeps (fun _ _ _ _ _ h hserve => h.serve hserve) hF) ?_ ?_ ?_ ?_
  · intro w₁ n w₂ h₁ _ hserve h₂ hinv₂
    refine ⟨hinv₂.1, h₂, ?_⟩
    rintro proof ⟨⟩
    refine hsettle h₂ ?_
    have hserved := hs.sub hserve
    generalize hx : Except.ok (AppendOutcome.committed n) = x at hserved
    cases served_append hserved with
    | accepted haccepts hanswer =>
      rcases hanswer with heq | ⟨_, heq⟩ | ⟨_, heq⟩
      · rw [← hx] at heq
        cases heq
        exact settled_accept haccepts
      · rw [← hx] at heq
        cases heq
      · rw [← hx] at heq
        cases heq
    | duplicate => cases hx
    | refused => cases hx
  · rintro w₁ n w₂ _ _ hserve w₃ h₃ hinv₃ rfl hends
    refine ⟨hinv₃.1, h₃, ?_⟩
    rintro proof ⟨⟩
    obtain ⟨sequence, hlast⟩ := hs.duplicate hserve
    refine hsettle h₃ ⟨sequence, ?_, hends⟩
    have hserved := hs.sub hserve
    generalize hx : Except.ok (AppendOutcome.duplicate n) = x at hserved
    cases served_append hserved with
    | accepted _ hanswer =>
      rcases hanswer with heq | ⟨_, heq⟩ | ⟨_, heq⟩
      all_goals
        rw [← hx] at heq
        cases heq
    | duplicate => exact hlast
    | refused => cases hx
  · exact fun _ _ _ _ _ _ _ h₂ hinv₂ => ⟨hinv₂.1, h₂, nofun⟩
  · exact fun _ _ h₂ hinv₂ => ⟨hinv₂.1, h₂, nofun⟩

/-- A start fails, or it opens the room from the disk as it is. -/
theorem Orderly.boot {boot : Boot} {post : RoomActor Doc → World → Prop}
    (hkept : Kept Doc roomId config w)
    (hF : ∀ w', Kept Doc roomId config w' → w.disk.Same w'.disk → F w')
    (hfailed : ∀ endOffset lifecycle lastError t, Kept Doc roomId config t → w.disk.Same t.disk →
      lifecycle = .corrupt ∨ lifecycle = .unavailable →
      post (({ (RoomActor.new roomId boot config : RoomActor Doc) with
        activeDeltaEndOffset := endOffset } : RoomActor Doc).transition lifecycle lastError) t)
    (hopened : ∀ a base frames t, Kept Doc roomId config t → w.disk.Same t.disk →
      a.Reopened roomId config boot t.disk base frames → post a t) :
    wp serve (Contract.orderly Doc roomId config F) (RoomActor.activate roomId config boot) post
      w := by
  refine RoomActor.wp_activate hs.grounded
    (stable_alone fun w' => Kept Doc roomId config w' ∧ w.disk.Same w'.disk)
    (fun _ h => h.1.stored) ⟨hkept, .refl _⟩ (fun stream => hs.keeps ?_ fun w' hw' h => hF w' hw' h.2)
    ?_ ?_ ?_
  · rintro w₁ x w₂ _ hkept₂ ⟨_, hsame⟩ hserve
    refine ⟨hkept₂, ?_⟩
    rcases (served_ensureStream hserve).1 with rfl | rfl
    · exact hsame
    · exact hsame.ensure stream
  · exact fun endOffset lifecycle lastError t h => hfailed endOffset lifecycle lastError t h.1 h.2
  · rintro records checkpoint frames recovery t ⟨hkept', hsame⟩ _ h
    -- every world that the recovery read has the disk of the end
    have hback : ∀ {d}, w.disk.Same d → t.disk.read = d.read :=
      fun h => hsame.read.trans h.read.symm
    obtain ⟨w₁, hw₁, hrecords⟩ := h.manifest
    obtain ⟨latest, w₂, hlatest, hw₂, hof, hencode⟩ := h.latest
    obtain ⟨w₃, hw₃, hdecode, hend⟩ := h.delta
    obtain ⟨log, hlog⟩ := hkept'.delta.logs (activeGeneration records)
    rw [h.stream, ← hback hw₃.1.1.2] at hdecode hend
    obtain rfl := hlog.eq_of_decode hdecode
    obtain ⟨restored, start, hrestored, hstart, hdoc⟩ := h.doc
    have hlinked := hrecords.manifest.linked latest (List.mem_of_getLast? hlatest)
    have hactive : activeGeneration records = ⟨latest.activeDeltaGeneration⟩ := by
      rw [activeGeneration, hlatest]
    refine hopened _ (some checkpoint) frames t hkept' hsame
      { current := ?_
        start := ?_
        log := ?_
        history := h.history
        doc := ⟨start, ⟨restored, hrestored, importAll_of_importRecovered hstart⟩,
          importAll_of_importRecovered hdoc⟩
        endOffset := ?_
        producer := rfl
        sequence := rfl
        ready := rfl
        unblocked := rfl
        peers := rfl }
    · change Current roomId recovery.activeDeltaGeneration t.disk
      rw [Current, hback hw₁.1.1.2]
      exact hrecords.current_iff.mpr h.active.symm
    · change StartsFrom Doc roomId t.disk recovery.activeDeltaGeneration (some checkpoint)
      rw [h.active, hactive]
      have hnext : latest.activeDeltaGeneration.toNat =
          (⟨latest.checkpointGeneration⟩ : GenerationId).value.toNat + 1 :=
        hlinked.active.trans (by rw [hlinked.generation])
      refine .checkpoint hnext hof ?_
      · rw [hback hw₂.1.1.2]
        exact hencode
    · change DeltaLog (NamedFrame roomId recovery.activeDeltaGeneration) config.frameLimits
        (deltaStreamForGeneration roomId recovery.activeDeltaGeneration).physical t.disk frames
      rw [h.active]
      exact hlog
    · exact hend.trans (congrArg List.length hlog.content)
  · rintro w₁ endOffset history doc t ⟨_, hsame₁⟩ hstored ⟨hkept', hsame⟩ _ hend hreplay
    obtain ⟨frames, hdecode, hcollect, hdoc⟩ := replayStream_eq_ok hreplay
    obtain ⟨log, hlog⟩ := hkept'.delta.logs .zero
    obtain rfl := hlog.eq_of_decode hdecode
    have hhistory := collectHistory_eq_ok hcollect
    rw [List.nil_append] at hhistory
    refine hopened _ none frames t hkept' hsame
      { current := ?_
        start := .nothing
        log := hlog
        history := hhistory
        doc := ⟨Loro.new, rfl, hhistory ▸ hdoc⟩
        endOffset := hend.trans (congrArg List.length hlog.content)
        producer := rfl
        sequence := rfl
        ready := rfl
        unblocked := rfl
        peers := rfl }
    change Current roomId .zero t.disk
    rw [Current, hsame.read, ← hsame₁.read]
    exact hstored.current_iff.mpr rfl

/-- A retry of the blocked append: the room stays blocked, or it is reloaded from its
stream, whose last frame is now the pending one. -/
theorem Orderly.retry {a : RoomActor Doc} (ha : a.Seated roomId config) {seen : List DeltaFrame}
    {post : RoomActor Doc × Bool → World → Prop}
    (htracks : a.Live → a.Tracks roomId config.frameLimits w.disk seen)
    (hF : ∀ pending w', a.blocked = some pending → Kept Doc roomId config w' →
      Tried w.disk pending.app w'.disk → F w')
    (hnone : a.blocked = none → post (a, false) w)
    (hstuck : ∀ pending endOffset lifecycle lastError t, a.blocked = some pending →
      Kept Doc roomId config t → Tried w.disk pending.app t.disk → lifecycle ≠ .ready →
      post (({ a with activeDeltaEndOffset := endOffset } : RoomActor Doc).transition lifecycle
        lastError, false) t)
    (hreloaded : ∀ pending endOffset next history (doc : Doc) t, a.blocked = some pending →
      Kept Doc roomId config t → Tried w.disk pending.app t.disk →
      DeltaLog (NamedFrame roomId a.activeDeltaGeneration) config.frameLimits
        (deltaStreamForGeneration roomId a.activeDeltaGeneration).physical t.disk
        (seen ++ [pending.frame]) →
      endOffset.toNat = (logBytes config.frameLimits (seen ++ [pending.frame])).length →
      collectHistory Doc [] (seen ++ [pending.frame]) = .ok history → replay Doc history = .ok doc →
      serve t (.readAll a.stream) (.ok (t.disk.read a.stream)) t →
      next.toNat = pending.producer.sequence.toNat + 1 →
      post (({ a with
        blocked := none
        activeDeltaEndOffset := endOffset
        producerSequence := next
        history := history
        doc := doc } : RoomActor Doc).transition .ready none, true) t) :
    wp serve (Contract.orderly Doc roomId config F) a.retryPending post w := by
  let log (frame : DeltaFrame) (d : Disk) : Prop :=
    DeltaLog (NamedFrame roomId a.activeDeltaGeneration) config.frameLimits
      (deltaStreamForGeneration roomId a.activeDeltaGeneration).physical d (seen ++ [frame])
  refine RoomActor.wp_retryPending hs.grounded
    (fun t => Kept Doc roomId config t ∧
      ∀ pending, a.blocked = some pending → Tried w.disk pending.app t.disk)
    (fun t => (Kept Doc roomId config t ∧
      ∀ pending, a.blocked = some pending → Tried w.disk pending.app t.disk) ∧
      ∀ pending, a.blocked = some pending → log pending.frame t.disk)
    (stable_alone _) hnone ?_ ?_ ?_
  · intro pending hpending
    have hlive : a.Live := .inr (by rw [hpending]; exact Option.some_ne_none _)
    refine wp_mono ?_ (hs.resolve ha (ha.blocked pending hpending).2 (htracks hlive)
      fun w' hw' htried => hF pending w' hpending hw' htried)
    rintro r t ⟨hkept, htried, hsettled⟩
    have hafter : ∀ pending, a.blocked = some pending → Tried w.disk pending.app t.disk := by
      intro other hother
      obtain rfl := Option.some.inj (hpending.symm.trans hother)
      exact htried
    cases r with
    | error failure => exact ⟨hkept, hafter⟩
    | ok proof =>
      refine ⟨⟨hkept, hafter⟩, fun other hother => ?_⟩
      obtain rfl := Option.some.inj (hpending.symm.trans hother)
      exact (hsettled proof rfl).1
  · intro pending endOffset lifecycle lastError t hpending h hnot
    obtain ⟨hkept, htried⟩ := h.elim id And.left
    exact hstuck pending endOffset lifecycle lastError t hpending hkept (htried pending hpending) hnot
  · rintro pending endOffset next history doc t hpending ⟨⟨hkept, htried⟩, hsettled⟩ _ hserve hend
      hreplay hnext
    have hlog := hsettled pending hpending
    obtain ⟨frames, hdecode, hcollect, hdoc⟩ := replayStream_eq_ok hreplay
    rw [ha.stream, ha.config] at hdecode
    rw [ha.stream, hlog.content] at hend
    obtain rfl := hlog.eq_of_decode hdecode
    exact hreloaded pending endOffset next history doc t hpending hkept (htried pending hpending) hlog
      hend hcollect hdoc hserve hnext

/-- A rotation fails, or it closes the generation of the actor and opens the next one. -/
theorem Orderly.rotate {a : RoomActor Doc} (ha : a.Seated roomId config) {seen : List DeltaFrame}
    {post : RoomActor Doc × Bool → World → Prop} (hkept : Kept Doc roomId config w)
    (htracks : a.Live → a.Tracks roomId config.frameLimits w.disk seen)
    (hF : ∀ w', a.lifecycle = .ready → a.blocked = none → Kept Doc roomId config w' →
      a.Closing roomId w.disk w'.disk → F w')
    (hbusy : ¬ (a.lifecycle = .ready ∧ a.blocked = none) → post (a, false) w)
    (hfailed : ∀ message t, a.lifecycle = .ready → a.blocked = none → Kept Doc roomId config t →
      a.Closing roomId w.disk t.disk → post (a.transition .unavailable (some message), false) t)
    (hrotated : ∀ result t, a.lifecycle = .ready → a.blocked = none → Kept Doc roomId config t →
      a.Closing roomId w.disk t.disk →
      a.Superseded roomId result.nextDeltaGeneration result.checkpoint t.disk →
      result.nextDeltaStream = (deltaStreamForGeneration roomId result.nextDeltaGeneration).physical →
      result.retainedHistory = result.checkpoint.pendingUpdates →
      (a.withRotation result).Tracks roomId config.frameLimits t.disk [] →
      post (a.withRotation result, true) t) :
    wp serve (Contract.orderly Doc roomId config F) a.rotateGeneration post w := by
  refine RoomActor.wp_rotateGeneration hbusy fun hready hblocked => ?_
  have hcurrent := (htracks (.inl hready)).current
  rw [ha.room]
  refine wp_rotateRoom hs.grounded
    (stable_alone fun t => Kept Doc roomId config t ∧ a.Closing roomId w.disk t.disk)
    ⟨hkept, .refl a _⟩ (fun w h => ?_) (fun stream => hs.keeps ?_ ?_) (fun _ bytes _ _ => hs.keeps ?_ ?_)
    (fun result hvalid => hs.keeps ?_ ?_) ?_ ?_
  · obtain ⟨records, hrecords⟩ := h.1.stored
    exact ⟨records, hrecords.manifest.log⟩
  · rintro w₁ x w₂ _ hkept₂ ⟨_, hclosing⟩ hserve
    refine ⟨hkept₂, ?_⟩
    rcases (served_ensureStream hserve).1 with rfl | rfl
    · exact hclosing
    · exact hclosing.same ((Disk.Same.refl _).ensure stream)
  · exact fun w' hw' h => hF w' hready hblocked hw' h.2
  · rintro w₁ x w₂ hkept₁ hkept₂ ⟨_, hclosing⟩ hserve
    exact ⟨hkept₂, hclosing.persist hkept₁ hkept₂ hserve⟩
  · exact fun w' hw' h => hF w' hready hblocked hw' h.2
  · rintro w₁ x w₂ hkept₁ hkept₂ ⟨⟨⟨_, hclosing⟩, hprepared⟩, hchecked⟩ hserve
    have hgrow := served_grows hserve
    refine ⟨⟨⟨hkept₂, ?_⟩, Prepared.stable result _ _ hgrow hprepared⟩,
      CheckedAgainst.stable _ _ _ _ hgrow hchecked⟩
    exact hclosing.publish hkept₁ (fun _ h => h.1) hvalid hprepared hserve
  · exact fun w' hw' h => hF w' hready hblocked hw' h.1.1.2
  · exact fun error t h => hfailed error.display t hready hblocked h.1 h.2
  · rintro result t ⟨hkept', hclosing⟩ hrotated'
    obtain ⟨hrevision, _⟩ := hrotated'.toPrepared.linked fun w hw => hw.1.1.stored
    have hsuperseded : a.Superseded roomId result.nextDeltaGeneration result.checkpoint t.disk := by
      rcases hclosing.manifest with hsame | ⟨next, checkpoint, hnext⟩
      · -- the published record is there, so the manifest has grown
        have hfits := hrotated'.published.slice.2.1
        rw [hsame, hcurrent, hrevision] at hfits
        omega
      · obtain rfl : next = result.nextDeltaGeneration :=
          GenerationId.ext (UInt64.toNat_inj.mp (hnext.succ.trans hrotated'.next.symm))
        obtain rfl := Except.ok.inj (hnext.built.symm.trans hrotated'.built)
        exact hnext
    refine hrotated result t hready hblocked hkept' hclosing hsuperseded hrotated'.stream
      hrotated'.retained ?_
    obtain ⟨frames, hlog⟩ := hkept'.delta.logs result.nextDeltaGeneration
    obtain rfl := hlog.eq_nil hsuperseded.empty
    exact
      { current := hsuperseded.current
        log := .of_log hlog nofun
        history := ⟨result.retainedHistory, (List.append_nil _).symm, fun hzero => by
          have hnext := hsuperseded.succ
          rw [show result.nextDeltaGeneration = .zero from hzero] at hnext
          exact absurd hnext (Nat.succ_ne_zero _).symm⟩
        endOffset := fun _ => rfl }

end Rules

/-! ## What the outcomes have seen -/

namespace RoomActor.Tracks

variable {a : RoomActor Doc} {d d' : Disk} {seen : List DeltaFrame}

/-- The frames that an actor has seen after the resolution of an append. -/
def after (seen : List DeltaFrame) (frame : DeltaFrame) :
    Except AppendFailure DurableAppend → List DeltaFrame
  | .ok _ => seen ++ [frame]
  | .error _ => seen

theorem finishUpdate (h : a.Tracks roomId config.frameLimits d seen) (ha : a.Seated roomId config)
    {connectionId : UInt64} {batchId : BatchId} {updates : List Bytes} {peer : PeerSender}
    {admission : Admission Doc} (hadmitted : a.Admitted connectionId batchId updates admission)
    (htried : Tried d admission.pending.app d') {resolved : Except AppendFailure DurableAppend}
    (hok : ∀ proof, resolved = .ok proof →
      DeltaLog (NamedFrame roomId a.activeDeltaGeneration) config.frameLimits
        (deltaStreamForGeneration roomId a.activeDeltaGeneration).physical d'
        (seen ++ [admission.pending.frame]) ∧
      proof.nextOffset.toNat =
        (logBytes config.frameLimits (seen ++ [admission.pending.frame])).length) :
    (a.finishUpdate connectionId batchId updates peer admission resolved).1.Tracks roomId
      config.frameLimits d' (after seen admission.pending.frame resolved) := by
  have htried := h.tried ha hadmitted.prepares htried
  match resolved with
  | .error (.definitelyRejected kind message) => exact htried
  | .error (.outcomeUnknown error) => exact htried.congr rfl rfl rfl rfl nofun
  | .ok proof =>
    obtain ⟨hlog, hoffset⟩ := hok proof rfl
    refine h.advance (hadmitted.frame ▸ rfl) hlog htried.current rfl rfl hadmitted.next ?_ hoffset
    obtain ⟨kept, hkept, hzero⟩ := h.history
    refine ⟨kept, ?_, hzero⟩
    change admission.candidateHistory = _
    rw [hadmitted.history, hkept, hadmitted.frame, List.flatMap_append, List.flatMap_singleton,
      List.append_assoc]
    rfl

theorem reloaded (h : a.Tracks roomId config.frameLimits d seen) (ha : a.Seated roomId config)
    {pending : PendingAppend} (hpending : a.blocked = some pending) (htried : Tried d pending.app d')
    (hlog : DeltaLog (NamedFrame roomId a.activeDeltaGeneration) config.frameLimits
      (deltaStreamForGeneration roomId a.activeDeltaGeneration).physical d' (seen ++ [pending.frame]))
    {endOffset next : UInt64} {history : List Bytes} {doc : Doc}
    (hoffset : endOffset.toNat = (logBytes config.frameLimits (seen ++ [pending.frame])).length)
    (hhistory : collectHistory Doc [] (seen ++ [pending.frame]) = .ok history)
    (hnext : next.toNat = pending.producer.sequence.toNat + 1) :
    (({ a with
      blocked := none
      activeDeltaEndOffset := endOffset
      producerSequence := next
      history := history
      doc := doc } : RoomActor Doc).transition .ready none).Tracks roomId config.frameLimits d'
      (seen ++ [pending.frame]) := by
  have hprepares := (ha.blocked pending hpending).2
  rw [hprepares.producer] at hnext
  refine h.advance (hprepares.frame.trans hprepares.producer) hlog
    (h.tried ha hprepares htried).current rfl rfl hnext ⟨[], ?_, fun _ => rfl⟩ hoffset
  exact collectHistory_eq_ok hhistory

end RoomActor.Tracks

/-! ## Runs -/

section Runs

variable {policy : Policy Doc roomId config} {L : World → RoomActor Doc → Prop}
  {J : World → RoomActor Doc → List (Event (gateway Doc roomId config) World) → Prop}
  {F : World → List (Event (gateway Doc roomId config) World) → Prop}

/-- What a proof of an invariant has to show when nothing happens by itself: `J` of the
idle actor, and `F` of the world between any two calls. -/
theorem Policy.preserved_over (still : ∀ up w app, ¬ policy.deliver up w app)
    (crash_of_idle : ∀ {w a events}, Kept Doc roomId config w → J w a events → F w events)
    (crash : ∀ {w events}, Kept Doc roomId config w → F w events →
      F (crashedWorld w) (.crashed :: events))
    (activate : ∀ {w events boot}, FreshBoot roomId w boot → Kept Doc roomId config w → F w events →
      wp ((keptWith policy L).serve (.boot boot))
        (Contract.orderly Doc roomId config fun w => F w events)
        (RoomActor.activate roomId config boot)
        (fun (a : RoomActor Doc) t => J t a (.booted boot t a :: events)) w)
    (handle : ∀ {w} {a : RoomActor Doc} {events command}, policy.accept w a events command →
      L w a → Kept Doc roomId config w → J w a events →
      wp ((keptWith policy L).serve (.command command a))
        (Contract.orderly Doc roomId config fun w => F w events) (a.handle command)
        (fun r t => J t r.1 (.handled command w a r.2 t r.1 :: events)) w) :
    (Invariant.over (Kept Doc roomId config) J F).Preserved (keptWith policy L) := by
  refine .of_quiet (quiet_of_still still L) (fun h => ⟨h.1, crash_of_idle h.1 h.2⟩) ?_ ?_ ?_
  · rintro w events boot ⟨hfresh, _⟩ ⟨hkept, hF⟩
    refine wp_mono ?_ (wp_inv (c := Contract.orderly Doc roomId config fun w => F w events)
      ⟨hkept, hF⟩ (activate hfresh hkept hF))
    exact fun a t h => ⟨h.2.1, h.1⟩
  · rintro w a events command ⟨haccepts, hL⟩ ⟨hkept, hJ⟩
    refine wp_mono ?_ (wp_inv (c := Contract.orderly Doc roomId config fun w => F w events)
      ⟨hkept, crash_of_idle hkept hJ⟩ (handle haccepts hL hkept hJ))
    exact fun r t h => ⟨h.2.1, h.1⟩
  · rintro w w' events ⟨hkept, hF⟩ ⟨rfl, _, hkept'⟩
    exact ⟨hkept', crash hkept hF⟩

/-- The same over any store in order. -/
theorem Policy.Quiet.preserved (quiet : policy.Quiet)
    (crash_of_idle : ∀ {w a events}, Kept Doc roomId config w → J w a events → F w events)
    (crash : ∀ {w events}, Kept Doc roomId config w → F w events →
      F (crashedWorld w) (.crashed :: events))
    (activate : ∀ {serve w events boot}, Orderly Doc roomId config serve →
      FreshBoot roomId w boot → Kept Doc roomId config w → F w events →
      wp serve (Contract.orderly Doc roomId config fun w => F w events)
        (RoomActor.activate roomId config boot)
        (fun (a : RoomActor Doc) t => J t a (.booted boot t a :: events)) w)
    (handle : ∀ {serve w} {a : RoomActor Doc} {events command}, Orderly Doc roomId config serve →
      policy.accept w a events command → L w a → Kept Doc roomId config w → J w a events →
      wp serve (Contract.orderly Doc roomId config fun w => F w events) (a.handle command)
        (fun r t => J t r.1 (.handled command w a r.2 t r.1 :: events)) w) :
    (Invariant.over (Kept Doc roomId config) J F).Preserved (keptWith policy L) :=
  Policy.preserved_over quiet.still crash_of_idle crash
    (fun hfresh hkept hF => activate (quiet.honest.orderly L _) hfresh hkept hF)
    (fun haccepts hL hkept hJ => handle (quiet.honest.orderly L _) haccepts hL hkept hJ)

end Runs

end LoroGateway
