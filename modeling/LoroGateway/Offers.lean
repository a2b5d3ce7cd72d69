import LoroGateway.Reassembly

/-!
# What a connection hands to the rooms

Each turn of a connection lets out refusals, or one command for one room.
`Connection.run_posts` says where the commands come from.  An update that a
connection hands to a room is one that its client offered, in one message or in a
header and fragments that cover it.

`Gathers` is the invariant: what the buffers hold has come from the client.

A room sees sessions of a connection (`Connection.rooms_see_sessions`): updates and leaves
come only while the connection has joined the room, and the end of the connection leaves
every room.
-/

namespace LoroGateway

open ByteCodec

/-- The command that an effect brings to a room. -/
def Effect.post : Effect → Option (String × Command)
  | .room roomId command => some (roomId, command)
  | _ => none

/-- The effect turns something down. -/
def Effect.Refusal : Effect → Prop
  | .joinError _ _ _ _ _ _ => True
  | .ack _ _ _ status => status ≠ .ok
  | .room _ _ => False

theorem Effect.Refusal.post {effect : Effect} (h : effect.Refusal) : effect.post = none := by
  cases effect with
  | joinError | ack => rfl
  | room => exact h.elim

/-- The turns bring the fragment with the given index. -/
def Brings (turns : List Input) (key : FragmentKey) (index : Nat) (bytes : Bytes) : Prop :=
  ∃ now word, word.toNat = index ∧
    .message now (.docUpdateFragment .loro key.roomId key.batchId word bytes) ∈ turns

/-- The turns bring a header. -/
def Announces (turns : List Input) (key : FragmentKey) (fragmentCount totalSize : Nat) : Prop :=
  ∃ now count total, count.toNat = fragmentCount ∧ total.toNat = totalSize ∧
    .message now (.docUpdateFragmentHeader .loro key.roomId key.batchId count total) ∈ turns

/-- The updates that the turns bring under a key: in one message, or as fragments that
are all there. -/
inductive Offers (turns : List Input) (key : FragmentKey) : List Bytes → Prop
  | whole {now : Nat} {updates : List Bytes}
      (h : .message now (.docUpdate .loro key.roomId updates key.batchId) ∈ turns) :
      Offers turns key updates
  | parts {chunks : List Bytes}
      (hheader : Announces turns key chunks.length chunks.flatten.length)
      (hparts : ∀ index chunk, chunks[index]? = some chunk → Brings turns key index chunk) :
      Offers turns key [chunks.flatten]

/-- What the client asked for when the connection posts a command. -/
inductive Posts (s : Session) (turns : List Input) : String → Command → Prop
  | join {now : Nat} {roomId : String} {version : Bytes}
      (h : .message now (.joinRequest .loro roomId version) ∈ turns) :
      Posts s turns roomId (.join s.connectionId version s.outbound)
  | update {roomId : String} {batchId : BatchId} {updates : List Bytes}
      (h : Offers turns { roomId, batchId } updates) :
      Posts s turns roomId (.update s.connectionId batchId updates s.outbound)
  | leave {now : Nat} {roomId : String} (h : .message now (.leave .loro roomId) ∈ turns) :
      Posts s turns roomId (.leave s.connectionId)

section Growth

variable {turns turns' : List Input} {key : FragmentKey}

theorem Brings.mono (hsub : turns ⊆ turns') {index : Nat} {bytes : Bytes}
    (h : Brings turns key index bytes) : Brings turns' key index bytes := by
  have ⟨now, word, hword, hmem⟩ := h
  exact ⟨now, word, hword, hsub hmem⟩

theorem Announces.mono (hsub : turns ⊆ turns') {fragmentCount totalSize : Nat}
    (h : Announces turns key fragmentCount totalSize) :
    Announces turns' key fragmentCount totalSize := by
  have ⟨now, count, total, hcount, htotal, hmem⟩ := h
  exact ⟨now, count, total, hcount, htotal, hsub hmem⟩

theorem Offers.mono (hsub : turns ⊆ turns') {updates : List Bytes} (h : Offers turns key updates) :
    Offers turns' key updates := by
  cases h with
  | whole hmem => exact .whole (hsub hmem)
  | parts hheader hparts =>
    exact .parts (hheader.mono hsub) fun index chunk hchunk => (hparts index chunk hchunk).mono hsub

theorem Posts.mono {s : Session} (hsub : turns ⊆ turns') {roomId : String} {command : Command}
    (h : Posts s turns roomId command) : Posts s turns' roomId command := by
  cases h with
  | join hmem => exact .join (hsub hmem)
  | update hoffers => exact .update (hoffers.mono hsub)
  | leave hmem => exact .leave (hsub hmem)

end Growth

namespace Connection

variable {s : Session} {c next : Connection} {turns : List Input} {input : Input}

/-- What the buffers hold has come from the client. -/
structure Gathers (turns : List Input) (c : Connection) : Prop where
  header : ∀ key batch, c.fragments.lookup key = some batch →
    Announces turns key batch.chunks.length batch.totalSize.toNat
  chunk : ∀ key batch index bytes, c.fragments.lookup key = some batch →
    batch.chunks[index]? = some (some bytes) → Brings turns key index bytes

theorem Gathers.new : Gathers [] Connection.new := by
  constructor
  · intro key batch hlookup
    simp [Connection.new] at hlookup
  · intro key batch index bytes hlookup
    simp [Connection.new] at hlookup

/-- Batches can be dropped. -/
theorem Gathers.frame (h : Gathers turns c)
    (hsub : ∀ key batch, next.fragments.lookup key = some batch →
      c.fragments.lookup key = some batch) : Gathers (turns ++ [input]) next := by
  constructor
  · intro key batch hlookup
    exact (h.header key batch (hsub key batch hlookup)).mono (List.subset_append_left _ _)
  · intro key batch index bytes hlookup hslot
    exact (h.chunk key batch index bytes (hsub key batch hlookup) hslot).mono
      (List.subset_append_left _ _)

/-- A batch can be put under a key when the turns bring what it holds. -/
theorem Gathers.put (h : Gathers turns c) {key : FragmentKey} {batch : FragmentBatch}
    (hheader : Announces turns key batch.chunks.length batch.totalSize.toNat)
    (hchunk : ∀ index bytes, batch.chunks[index]? = some (some bytes) →
      Brings turns key index bytes) :
    Gathers turns (c.put key batch) := by
  constructor
  · intro other held hlookup
    by_cases heq : other = key
    · subst heq
      have hlookup : AList.lookup other (AList.insert other batch c.fragments) = some held :=
        hlookup
      rw [AList.lookup_insert] at hlookup
      cases hlookup
      exact hheader
    · have hlookup : AList.lookup other (AList.insert key batch c.fragments) = some held := hlookup
      rw [AList.lookup_insert_ne heq] at hlookup
      exact h.header other held hlookup
  · intro other held index bytes hlookup hslot
    by_cases heq : other = key
    · subst heq
      have hlookup : AList.lookup other (AList.insert other batch c.fragments) = some held :=
        hlookup
      rw [AList.lookup_insert] at hlookup
      cases hlookup
      exact hchunk index bytes hslot
    · have hlookup : AList.lookup other (AList.insert key batch c.fragments) = some held := hlookup
      rw [AList.lookup_insert_ne heq] at hlookup
      exact h.chunk other held index bytes hlookup hslot

theorem lookup_of_remove {key other : FragmentKey} {batch : FragmentBatch}
    (h : (c.remove key).fragments.lookup other = some batch) :
    c.fragments.lookup other = some batch := by
  have h : AList.lookup other (AList.erase key c.fragments) = some batch := h
  by_cases heq : other = key
  · subst heq
    simp at h
  · rwa [AList.lookup_erase_ne heq] at h

/-- The chunks of a batch after one more fragment. -/
theorem brings_fill {key : FragmentKey} {batch : FragmentBatch} {word : UInt64} {now : Nat}
    {fragment : Bytes} {receivedBytes : UInt64}
    (hchunk : ∀ index bytes, batch.chunks[index]? = some (some bytes) →
      Brings turns key index bytes) :
    ∀ index bytes,
      (batch.fill word.toNat fragment receivedBytes).chunks[index]? = some (some bytes) →
      Brings
        (turns ++ [.message now (.docUpdateFragment .loro key.roomId key.batchId word fragment)])
        key index bytes := by
  intro index bytes hslot
  have hslot : (batch.chunks.set word.toNat (some fragment))[index]? = some (some bytes) := hslot
  by_cases heq : word.toNat = index
  · subst heq
    rw [List.getElem?_set_self'] at hslot
    cases hold : batch.chunks[word.toNat]? with
    | none => simp [hold] at hslot
    | some slot =>
      simp [hold] at hslot
      subst hslot
      exact ⟨now, word, rfl, by simp⟩
  · rw [List.getElem?_set_ne heq] at hslot
    exact (hchunk index bytes hslot).mono (List.subset_append_left _ _)

/-- What a turn lets out: refusals, or one command that the client asked for. -/
inductive LetsOut (s : Session) (turns : List Input) : List Effect → Prop
  | refusals {effects : List Effect} (h : ∀ effect ∈ effects, effect.Refusal) :
      LetsOut s turns effects
  | post {roomId : String} {command : Command} (h : Posts s turns roomId command) :
      LetsOut s turns [.room roomId command]

theorem LetsOut.refusal {effect : Effect} (h : effect.Refusal) : LetsOut s turns [effect] :=
  .refusals fun _ hmem => List.mem_singleton.1 hmem ▸ h

theorem LetsOut.silent : LetsOut s turns [] := .refusals fun _ h => absurd h List.not_mem_nil

/-- A batch whose slots are all taken is the update that the client split. -/
theorem letsOut_assemble {key : FragmentKey} {batch : FragmentBatch}
    (hheader : Announces turns key batch.chunks.length batch.totalSize.toNat)
    (hchunk : ∀ index bytes, batch.chunks[index]? = some (some bytes) →
      Brings turns key index bytes) :
    LetsOut s turns (assemble s key batch) := by
  unfold assemble
  cases hchunks : batch.chunks.mapM id with
  | none => exact .silent
  | some chunks =>
    simp only
    split_ifs with hsize
    · exact .refusal (by simp [Effect.Refusal])
    · have hslots := Slots.eq_map_some_of_mapM hchunks
      have htotal := u64OfUsize_eq_some.1 (not_not.1 hsize)
      refine .post (.update (.parts ?_ ?_))
      · rw [hslots, List.length_map, htotal] at hheader
        exact hheader
      · intro index chunk hindex
        apply hchunk index chunk
        simp [hslots, hindex]

/-- A header keeps the buffers honest, and it is answered by refusals at most. -/
theorem gathers_fragmentHeader (h : Gathers turns c) (now : Nat) (crdt : CrdtType) (roomId : String)
    (batchId : BatchId) (fragmentCount totalSizeBytes : UInt64) :
    let turns' := turns ++
      [.message now (.docUpdateFragmentHeader crdt roomId batchId fragmentCount totalSizeBytes)]
    Gathers turns' (c.fragmentHeader s now crdt roomId batchId fragmentCount totalSizeBytes).1 ∧
      LetsOut s turns'
        (c.fragmentHeader s now crdt roomId batchId fragmentCount totalSizeBytes).2 := by
  intro turns'
  have hsame : Gathers turns' c := h.frame fun _ _ hlookup => hlookup
  by_cases hcrdt : crdt = .loro
  · subst hcrdt
    have hturn := fragmentHeader_turn (s := s) (c := c) now .loro roomId batchId fragmentCount
      totalSizeBytes
    generalize c.fragmentHeader s now .loro roomId batchId fragmentCount totalSizeBytes = turn at *
    cases hturn with
    | refused status hstatus => exact ⟨hsame, .refusal hstatus⟩
    | repeated => exact ⟨hsame, .silent⟩
    | conflict =>
      exact ⟨h.frame fun _ _ hlookup => lookup_of_remove hlookup,
        .refusal (by simp [Effect.Refusal])⟩
    | full status hstatus => exact ⟨hsame, .refusal hstatus⟩
    | opened now' =>
      refine ⟨hsame.put ?_ ?_, .silent⟩
      · exact ⟨now, fragmentCount, totalSizeBytes, by simp [opened], rfl, by simp [turns']⟩
      · intro index bytes hslot
        simp [opened, List.getElem?_replicate] at hslot
  · unfold fragmentHeader
    rw [if_pos (Or.inl hcrdt)]
    exact ⟨hsame, .refusal (by simp [Effect.Refusal])⟩

/-- A fragment is put into its slot, or it is turned down or ignored. -/
theorem fragment_put (crdt : CrdtType) (roomId : String) (batchId : BatchId) (index : UInt64)
    (bytes : Bytes) :
    (((c.fragment s crdt roomId batchId index bytes).1 = c ∨
        (c.fragment s crdt roomId batchId index bytes).1 = c.remove { roomId, batchId }) ∧
      ∀ effect ∈ (c.fragment s crdt roomId batchId index bytes).2, effect.Refusal) ∨
    crdt = .loro ∧ ∃ batch receivedBytes, c.fragments.lookup { roomId, batchId } = some batch ∧
      c.fragment s crdt roomId batchId index bytes =
        (c.put { roomId, batchId } (batch.fill index.toNat bytes receivedBytes)).complete s
          { roomId, batchId } (batch.fill index.toNat bytes receivedBytes) := by
  unfold fragment
  by_cases hdenied : crdt ≠ .loro ∨ roomId ∉ c.joined
  · rw [if_pos hdenied]
    simp [Effect.Refusal]
  rw [if_neg hdenied]
  cases hlookup : c.fragments.lookup { roomId, batchId } with
  | none => simp [hlookup, Effect.Refusal]
  | some batch =>
    simp only [hlookup]
    cases hslot : batch.chunks[index.toNat]? with
    | none => simp [Effect.Refusal]
    | some slot =>
      cases hlength : u64OfUsize bytes.length with
      | none => simp [Effect.Refusal]
      | some fragmentLen =>
        cases slot with
        | some existing =>
          simp only
          split_ifs
          · simp [Effect.Refusal]
          · simp
        | none =>
          simp only
          cases hadd : checkedAddU64 batch.receivedBytes fragmentLen with
          | none => simp [Effect.Refusal]
          | some receivedBytes =>
            simp only
            split_ifs
            · simp [Effect.Refusal]
            · exact .inr ⟨by tauto, batch, receivedBytes, rfl, rfl⟩

/-- A fragment keeps the buffers honest.  When it completes its batch, the client has
offered the update. -/
theorem gathers_fragment (h : Gathers turns c) (now : Nat) (crdt : CrdtType) (roomId : String)
    (batchId : BatchId) (index : UInt64) (bytes : Bytes) :
    let turns' := turns ++ [.message now (.docUpdateFragment crdt roomId batchId index bytes)]
    Gathers turns' (c.fragment s crdt roomId batchId index bytes).1 ∧
      LetsOut s turns' (c.fragment s crdt roomId batchId index bytes).2 := by
  intro turns'
  have hsame : Gathers turns' c := h.frame fun _ _ hlookup => hlookup
  rcases fragment_put (s := s) (c := c) crdt roomId batchId index bytes with
    ⟨hnext, hrefusals⟩ | ⟨hcrdt, batch, receivedBytes, hlookup, hnext⟩
  · refine ⟨?_, .refusals hrefusals⟩
    rcases hnext with hnext | hnext
    · rw [hnext]
      exact hsame
    · rw [hnext]
      exact h.frame fun _ _ hlookup => lookup_of_remove hlookup
  · subst hcrdt
    have hheader : Announces turns' { roomId, batchId }
        (batch.fill index.toNat bytes receivedBytes).chunks.length
        (batch.fill index.toNat bytes receivedBytes).totalSize.toNat := by
      simpa [FragmentBatch.fill] using hsame.header _ _ hlookup
    have hchunk : ∀ slot chunk,
        (batch.fill index.toNat bytes receivedBytes).chunks[slot]? = some (some chunk) →
          Brings turns' { roomId, batchId } slot chunk :=
      brings_fill fun slot chunk => h.chunk _ _ slot chunk hlookup
    rw [hnext]
    unfold complete
    split_ifs
    · rw [remove_put]
      exact ⟨h.frame fun _ _ hlookup => lookup_of_remove hlookup, letsOut_assemble hheader hchunk⟩
    · exact ⟨hsame.put hheader hchunk, .silent⟩

/-- One turn. -/
theorem gathers_step (h : Gathers turns c) (input : Input) :
    Gathers (turns ++ [input]) (c.step s input).1 ∧
      LetsOut s (turns ++ [input]) (c.step s input).2 := by
  cases input with
  | expire now =>
    constructor
    · exact h.frame fun _ _ hlookup => (Fragments.lookup_retain.1 hlookup).1
    · apply LetsOut.refusals
      intro effect heffect
      have ⟨entry, _, hack⟩ := List.mem_map.1 heffect
      subst hack
      simp [Effect.Refusal]
  | message now message =>
    cases message with
    | joinRequest crdt roomId version =>
      show Gathers _ (c.joinRequest s crdt roomId version).1 ∧
        LetsOut s _ (c.joinRequest s crdt roomId version).2
      unfold joinRequest
      split_ifs with hcrdt
      · exact ⟨h.frame fun _ _ hlookup => hlookup, .refusal trivial⟩
      · have hcrdt : crdt = .loro := not_not.1 hcrdt
        subst hcrdt
        have hmem : Input.message now (.joinRequest .loro roomId version) ∈
            turns ++ [.message now (.joinRequest .loro roomId version)] := by simp
        exact ⟨h.frame fun _ _ hlookup => hlookup, .post (.join hmem)⟩
    | docUpdate crdt roomId updates batchId =>
      show Gathers _ (c.docUpdate s crdt roomId updates batchId).1 ∧
        LetsOut s _ (c.docUpdate s crdt roomId updates batchId).2
      unfold docUpdate
      split_ifs with hdenied
      · exact ⟨h.frame fun _ _ hlookup => hlookup, .refusal (by simp [Effect.Refusal])⟩
      · have hcrdt : crdt = .loro := by tauto
        subst hcrdt
        have hmem : Input.message now (.docUpdate .loro roomId updates batchId) ∈
            turns ++ [.message now (.docUpdate .loro roomId updates batchId)] := by simp
        exact ⟨h.frame fun _ _ hlookup => hlookup, .post (.update (.whole hmem))⟩
    | docUpdateFragmentHeader crdt roomId batchId count total =>
      exact gathers_fragmentHeader h now crdt roomId batchId count total
    | docUpdateFragment crdt roomId batchId index bytes =>
      exact gathers_fragment h now crdt roomId batchId index bytes
    | leave crdt roomId =>
      show Gathers _ (c.leave s crdt roomId).1 ∧ LetsOut s _ (c.leave s crdt roomId).2
      unfold leave
      split_ifs with hleft
      · refine ⟨h.frame fun _ _ hlookup => (Fragments.lookup_retain.1 hlookup).1, .post ?_⟩
        have hcrdt := hleft.1
        subst hcrdt
        have hmem : Input.message now (.leave .loro roomId) ∈
            turns ++ [.message now (.leave .loro roomId)] := by simp
        exact .leave hmem
      · exact ⟨h.frame fun _ _ hlookup => hlookup, .silent⟩
    | ignored => exact ⟨h.frame fun _ _ hlookup => hlookup, .silent⟩

theorem run_append (inputs later : List Input) :
    c.run s (inputs ++ later) =
      (((c.run s inputs).1.run s later).1,
        (c.run s inputs).2 ++ ((c.run s inputs).1.run s later).2) := by
  induction inputs generalizing c with
  | nil => rfl
  | cons input inputs ih =>
    show (((c.step s input).1.run s (inputs ++ later)).1,
      (c.step s input).2 ++ ((c.step s input).1.run s (inputs ++ later)).2) = _
    rw [ih]
    simp [run]

/-- One more turn. -/
theorem run_turn (inputs : List Input) (input : Input) :
    c.run s (inputs ++ [input]) = (((c.run s inputs).1.step s input).1,
      (c.run s inputs).2 ++ ((c.run s inputs).1.step s input).2) := by
  rw [run_append]
  simp [run]

theorem gathers_run (s : Session) (turns : List Input) :
    Gathers turns (Connection.new.run s turns).1 := by
  induction turns using List.reverseRecOn with
  | nil => exact Gathers.new
  | append_singleton turns input ih =>
    rw [run_turn]
    exact (gathers_step ih input).1

/-- A command that a connection hands to a room is one that its client asked for. -/
theorem run_posts (s : Session) (turns : List Input) {roomId : String} {command : Command}
    (h : .room roomId command ∈ (Connection.new.run s turns).2) : Posts s turns roomId command := by
  induction turns using List.reverseRecOn with
  | nil => simp [run] at h
  | append_singleton turns input ih =>
    rw [run_turn, List.mem_append] at h
    rcases h with hold | hlast
    · exact (ih hold).mono (List.subset_append_left _ _)
    · have hout := (gathers_step (s := s) (gathers_run s turns) input).2
      generalize ((Connection.new.run s turns).1.step s input).2 = effects at *
      cases hout with
      | refusals hrefusals => exact (hrefusals _ hlast).elim
      | post hposts =>
        have hsame := List.mem_singleton.1 hlast
        cases hsame
        exact hposts

/-- An update in two fragments, the second one first. -/
theorem run_posts_fragments :
    let turns : List Input := [.message 0 (.joinRequest .loro "r" []),
      .message 1 (.docUpdateFragmentHeader .loro "r" (serverBatchId 1) 2 3),
      .message 2 (.docUpdateFragment .loro "r" (serverBatchId 1) 1 [3]),
      .message 3 (.docUpdateFragment .loro "r" (serverBatchId 1) 0 [1, 2])]
    (Connection.new.run ⟨.default, 1, 0⟩ turns).2 = [.room "r" (.join 1 [] 0),
      .room "r" (.update 1 (serverBatchId 1) [[1, 2, 3]] 0)] ∧
    Posts ⟨.default, 1, 0⟩ turns "r" (.update 1 (serverBatchId 1) [[1, 2, 3]] 0) := by
  intro turns
  have hrun : (Connection.new.run ⟨.default, 1, 0⟩ turns).2 = [.room "r" (.join 1 [] 0),
      .room "r" (.update 1 (serverBatchId 1) [[1, 2, 3]] 0)] := by rfl
  exact ⟨hrun, run_posts _ turns (by rw [hrun]; simp)⟩

end Connection

/-! ## What a room sees of a connection -/

/-- Whether the connection stands in the room after a command, if the command is in its
place: an update or a leave comes only while the connection stands there. -/
def Command.session : Bool → Command → Option Bool
  | _, .join _ _ _ => some true
  | true, .update _ _ _ _ => some true
  | true, .leave _ => some false
  | _, _ => none

/-- Whether the connection stands in the room after some commands in their places. -/
def sessionAfter (standing : Bool) (commands : List Command) : Option Bool :=
  commands.foldlM Command.session standing

/-- The commands that the effects bring to a room. -/
def postsTo (roomId : String) (effects : List Effect) : List Command :=
  effects.filterMap fun effect =>
    effect.post.bind fun post => if post.1 = roomId then some post.2 else none

theorem postsTo_append (roomId : String) (effects later : List Effect) :
    postsTo roomId (effects ++ later) = postsTo roomId effects ++ postsTo roomId later :=
  List.filterMap_append

theorem postsTo_refusals {roomId : String} {effects : List Effect}
    (h : ∀ effect ∈ effects, effect.Refusal) : postsTo roomId effects = [] := by
  apply List.filterMap_eq_nil_iff.2
  intro effect hmem
  rw [(h effect hmem).post]
  rfl

theorem postsTo_room (roomId target : String) (command : Command) :
    postsTo roomId [.room target command] = if target = roomId then [command] else [] := by
  by_cases heq : target = roomId
  · simp [postsTo, Effect.post, heq]
  · simp [postsTo, Effect.post, heq]

namespace Connection

variable {s : Session} {c : Connection} {roomId target : String} {turn : Connection × List Effect}

/-- What a turn brings to a room is in its place, and the connection knows where it stands. -/
def InSession (c : Connection) (roomId : String) (turn : Connection × List Effect) : Prop :=
  sessionAfter (decide (roomId ∈ c.joined)) (postsTo roomId turn.2) =
    some (decide (roomId ∈ turn.1.joined))

theorem InSession.silent (hjoined : turn.1.joined = c.joined)
    (h : ∀ effect ∈ turn.2, effect.Refusal) : c.InSession roomId turn := by
  rw [InSession, postsTo_refusals h, hjoined]
  rfl

theorem InSession.refused {effect : Effect} (h : effect.Refusal) :
    c.InSession roomId (c, [effect]) :=
  .silent rfl fun _ hmem => List.mem_singleton.1 hmem ▸ h

/-- An update for a room that the connection has joined. -/
theorem InSession.update (hjoined : turn.1.joined = c.joined) (hmem : target ∈ c.joined)
    {connectionId : UInt64} {batchId : BatchId} {updates : List Bytes} {peer : PeerSender}
    (h : turn.2 = [.room target (.update connectionId batchId updates peer)]) :
    c.InSession roomId turn := by
  rw [InSession, h, hjoined, postsTo_room]
  split_ifs with heq
  · subst heq
    simp [sessionAfter, Command.session, hmem]
  · rfl

theorem assemble_cases (key : FragmentKey) (batch : FragmentBatch) :
    (∀ effect ∈ assemble s key batch, effect.Refusal) ∨ ∃ updates, assemble s key batch =
      [.room key.roomId (.update s.connectionId key.batchId updates s.outbound)] := by
  unfold assemble
  cases batch.chunks.mapM id with
  | none => exact .inl fun _ h => absurd h List.not_mem_nil
  | some chunks =>
    dsimp only
    split_ifs
    · exact .inl (by simp [Effect.Refusal])
    · exact .inr ⟨_, rfl⟩

theorem inSession_joinRequest (crdt : CrdtType) (version : Bytes) :
    c.InSession roomId (c.joinRequest s crdt target version) := by
  unfold joinRequest
  split_ifs
  · exact .refused trivial
  · rw [InSession, postsTo_room]
    split_ifs with heq
    · simp [sessionAfter, Command.session, heq]
    · simp [sessionAfter, Ne.symm heq]

theorem inSession_docUpdate (crdt : CrdtType) (updates : List Bytes) (batchId : BatchId) :
    c.InSession roomId (c.docUpdate s crdt target updates batchId) := by
  unfold docUpdate
  split_ifs with hdenied
  · exact .refused (by simp [Effect.Refusal])
  · exact .update rfl (by tauto) rfl

theorem inSession_fragmentHeader (now : Nat) (crdt : CrdtType) (batchId : BatchId)
    (fragmentCount totalSizeBytes : UInt64) :
    c.InSession roomId
      (c.fragmentHeader s now crdt target batchId fragmentCount totalSizeBytes) := by
  have hturn := fragmentHeader_turn (s := s) (c := c) now crdt target batchId fragmentCount
    totalSizeBytes
  generalize c.fragmentHeader s now crdt target batchId fragmentCount totalSizeBytes = turn at *
  cases hturn with
  | refused status hstatus => exact .refused hstatus
  | repeated => exact .silent rfl fun _ h => absurd h List.not_mem_nil
  | conflict => exact .silent rfl (by simp [Effect.Refusal])
  | full status hstatus => exact .refused hstatus
  | opened => exact .silent rfl fun _ h => absurd h List.not_mem_nil

theorem inSession_fragment (crdt : CrdtType) (batchId : BatchId) (index : UInt64) (bytes : Bytes) :
    c.InSession roomId (c.fragment s crdt target batchId index bytes) := by
  by_cases hmem : target ∈ c.joined
  · rcases fragment_put (s := s) (c := c) crdt target batchId index bytes with
      ⟨hnext, hrefusals⟩ | ⟨_, batch, receivedBytes, _, hnext⟩
    · refine .silent ?_ hrefusals
      rcases hnext with hnext | hnext
      · rw [hnext]
      · rw [hnext]
        rfl
    · rw [hnext]
      unfold complete
      split_ifs
      · rcases assemble_cases (s := s) { roomId := target, batchId }
          (batch.fill index.toNat bytes receivedBytes) with hrefusals | ⟨updates, hupdate⟩
        · exact .silent rfl hrefusals
        · exact .update rfl hmem hupdate
      · exact .silent rfl fun _ h => absurd h List.not_mem_nil
  · unfold fragment
    rw [if_pos (.inr hmem)]
    exact .refused (by simp [Effect.Refusal])

theorem inSession_leave (crdt : CrdtType) : c.InSession roomId (c.leave s crdt target) := by
  unfold leave
  split_ifs with hleft
  · rw [InSession, postsTo_room]
    split_ifs with heq
    · subst heq
      simp [sessionAfter, Command.session, hleft.2]
    · simp [sessionAfter, Ne.symm heq]
  · exact .silent rfl fun _ h => absurd h List.not_mem_nil

/-- One turn. -/
theorem inSession_step (input : Input) : c.InSession roomId (c.step s input) := by
  cases input with
  | expire now =>
    refine .silent rfl fun effect hmem => ?_
    obtain ⟨entry, _, rfl⟩ := List.mem_map.1 hmem
    simp [Effect.Refusal]
  | message now message =>
    cases message with
    | joinRequest crdt target version => exact inSession_joinRequest crdt version
    | docUpdate crdt target updates batchId => exact inSession_docUpdate crdt updates batchId
    | docUpdateFragmentHeader crdt target batchId count total =>
      exact inSession_fragmentHeader now crdt batchId count total
    | docUpdateFragment crdt target batchId index bytes =>
      exact inSession_fragment crdt batchId index bytes
    | leave crdt target => exact inSession_leave crdt
    | ignored => exact .silent rfl fun _ h => absurd h List.not_mem_nil

/-- All turns of a connection: what it brings to a room is in its place. -/
theorem sessionAfter_run (s : Session) (turns : List Input) (roomId : String) :
    sessionAfter false (postsTo roomId (Connection.new.run s turns).2) =
      some (decide (roomId ∈ (Connection.new.run s turns).1.joined)) := by
  induction turns using List.reverseRecOn with
  | nil => rfl
  | append_singleton turns input ih =>
    rw [run_turn, postsTo_append, sessionAfter, List.foldlM_append]
    rw [sessionAfter] at ih
    rw [ih]
    exact inSession_step input

/-- The leaves of a connection that ends, in any order of its rooms. -/
theorem postsTo_leaves {roomIds : List String} (hnodup : roomIds.Nodup) (connectionId : UInt64) :
    postsTo roomId (roomIds.map fun joined => .room joined (.leave connectionId)) =
      if roomId ∈ roomIds then [.leave connectionId] else [] := by
  induction roomIds with
  | nil => rfl
  | cons first roomIds ih =>
    rw [List.nodup_cons] at hnodup
    rw [List.map_cons, ← List.singleton_append, postsTo_append, postsTo_room, ih hnodup.2]
    by_cases heq : first = roomId
    · subst heq
      simp [hnodup.1]
    · simp [heq, Ne.symm heq]

/-- Over the whole life of a connection, each room sees sessions: a join, then joins and
updates, then one leave.  The connection never updates a room that it has not joined or
has left, and at its end it has left every room. -/
theorem rooms_see_sessions (s : Session) (turns : List Input) {roomIds : List String}
    (hnodup : roomIds.Nodup)
    (hrooms : ∀ joined, joined ∈ roomIds ↔ joined ∈ (Connection.new.run s turns).1.joined)
    (roomId : String) :
    sessionAfter false (postsTo roomId ((Connection.new.run s turns).2 ++
      roomIds.map fun joined => .room joined (.leave s.connectionId))) = some false := by
  have hturns := sessionAfter_run s turns roomId
  rw [sessionAfter] at hturns ⊢
  rw [postsTo_append, List.foldlM_append, hturns, postsTo_leaves hnodup]
  by_cases hmem : roomId ∈ (Connection.new.run s turns).1.joined
  · simp [(hrooms roomId).2 hmem, hmem, Command.session]
  · simp [mt (hrooms roomId).1 hmem, hmem]

/-- A client joins, updates and hangs up. -/
theorem rooms_see_sessions_joined :
    let s : Session := ⟨.default, 1, 0⟩
    let turns : List Input := [.message 0 (.joinRequest .loro "r" []),
      .message 1 (.docUpdate .loro "r" [[1]] (serverBatchId 1))]
    let effects := (Connection.new.run s turns).2 ++
      ["r"].map fun joined => .room joined (.leave s.connectionId)
    postsTo "r" effects = [.join 1 [] 0, .update 1 (serverBatchId 1) [[1]] 0, .leave 1] ∧
      sessionAfter false (postsTo "r" effects) = some false := by
  intro s turns effects
  have hrooms : ∀ joined, joined ∈ ["r"] ↔ joined ∈ (Connection.new.run s turns).1.joined := by
    intro joined
    have hjoined : (Connection.new.run s turns).1.joined = {"r"} := rfl
    rw [hjoined]
    simp
  exact ⟨rfl, rooms_see_sessions s turns (List.nodup_singleton "r") hrooms "r"⟩

end Connection

end LoroGateway
