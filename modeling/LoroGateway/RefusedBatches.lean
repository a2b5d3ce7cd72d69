import LoroGateway.FragmentBudget

/-!
# Fragment batches that were refused

A client that gets an error answer about a fragment batch gives it up.  Most
exits of `handle_message` take the batch out of the buffers before they answer.
`Connection.refused_batch_is_dead_iff` says which do not: those that refuse the
message before they look at the batch, and the one for an index that the batch
does not have.
-/

namespace LoroGateway

open ByteCodec

/-- An error answer about a batch. -/
def Effect.refuses (key : FragmentKey) : Effect → Bool
  | .ack _ roomId refId status =>
    decide (roomId = key.roomId ∧ refId = key.batchId ∧ status ≠ .ok)
  | _ => false

/-- The turn is a header or a fragment of the batch, or an expiration. -/
def Input.concerns (key : FragmentKey) (input : Input) : Bool :=
  decide (input.headerKey = some key ∨ input.fragmentKey = some key) ||
    match input with
    | .expire _ => true
    | .message _ _ => false

namespace Connection

/-- `handle_message` or `expire_fragments` answers the batch with an error. -/
def Refuses (s : Session) (c : Connection) (input : Input) (key : FragmentKey) : Prop :=
  input.concerns key = true ∧ ∃ effect ∈ (c.step s input).2, effect.refuses key = true

/-- Until a header names it again, the batch is not in the buffers, and no
fragment of it makes the connection forward an update. -/
def Dead (s : Session) (c : Connection) (key : FragmentKey) : Prop :=
  ∀ later : List Input, (∀ input ∈ later, input.headerKey ≠ some key) →
    key ∉ (c.run s later).1.fragments ∧
      ∀ input : Input, input.fragmentKey = some key →
        ∀ roomId command, .room roomId command ∉ ((c.run s later).1.step s input).2

/-- The message is refused before the buffered batch is looked at, or because
it names a slot that the batch does not have. -/
def KeepsBatch (s : Session) (c : Connection) (key : FragmentKey) : Input → Prop
  | .message _ (.docUpdateFragmentHeader crdt roomId batchId fragmentCount totalSizeBytes) =>
    { roomId, batchId : FragmentKey } = key ∧ key ∈ c.fragments ∧
      (crdt ≠ .loro ∨ roomId ∉ c.joined ∨ ¬ headerFits s.config fragmentCount totalSizeBytes)
  | .message _ (.docUpdateFragment crdt roomId batchId index _) =>
    { roomId, batchId : FragmentKey } = key ∧
      ∃ batch, c.fragments.lookup key = some batch ∧
        (crdt ≠ .loro ∨ roomId ∉ c.joined ∨ batch.chunks.length ≤ index.toNat)
  | _ => False

variable {s : Session} {c : Connection} {input : Input} {key : FragmentKey}

/-- The two exits of a header that come before the batch is looked up. -/
theorem fragmentHeader_early (now : Nat) {crdt : CrdtType} {roomId : String} (batchId : BatchId)
    {fragmentCount totalSizeBytes : UInt64}
    (h : crdt ≠ .loro ∨ roomId ∉ c.joined ∨ ¬ headerFits s.config fragmentCount totalSizeBytes) :
    ∃ status, status ≠ .ok ∧
      c.fragmentHeader s now crdt roomId batchId fragmentCount totalSizeBytes =
        (c, [.ack crdt roomId batchId status]) := by
  unfold fragmentHeader
  by_cases hdenied : crdt ≠ .loro ∨ roomId ∉ c.joined
  · rw [if_pos hdenied]
    exact ⟨.permissionDenied, by decide, rfl⟩
  · have hfits : ¬ headerFits s.config fragmentCount totalSizeBytes := by tauto
    rw [if_neg hdenied, if_pos hfits]
    exact ⟨.payloadTooLarge, by decide, rfl⟩

/-- The exits of a fragment that leave a batch that is there as it is. -/
theorem fragment_early {crdt : CrdtType} {roomId : String} {batchId : BatchId} {index : UInt64}
    {batch : FragmentBatch} (bytes : Bytes)
    (hlookup : c.fragments.lookup { roomId, batchId } = some batch)
    (h : crdt ≠ .loro ∨ roomId ∉ c.joined ∨ batch.chunks.length ≤ index.toNat) :
    ∃ status, status ≠ .ok ∧ c.fragment s crdt roomId batchId index bytes =
      (c, [.ack crdt roomId batchId status]) := by
  unfold fragment
  by_cases hdenied : crdt ≠ .loro ∨ roomId ∉ c.joined
  · rw [if_pos hdenied]
    exact ⟨.permissionDenied, by decide, rfl⟩
  · have hslot : batch.chunks[index.toNat]? = none := by
      apply List.getElem?_eq_none
      tauto
    rw [if_neg hdenied]
    simp only [hlookup, hslot]
    exact ⟨.invalidUpdate, by decide, rfl⟩

/-- Every exit of a header that answers at all, but the first two, leaves no
batch. -/
theorem fragmentHeader_answers {now : Nat} {crdt : CrdtType} {roomId : String}
    {batchId : BatchId} {fragmentCount totalSizeBytes : UInt64} {effect : Effect}
    (h : effect ∈ (c.fragmentHeader s now crdt roomId batchId fragmentCount totalSizeBytes).2) :
    (crdt ≠ .loro ∨ roomId ∉ c.joined ∨ ¬ headerFits s.config fragmentCount totalSizeBytes) ∨
      { roomId, batchId } ∉
        (c.fragmentHeader s now crdt roomId batchId fragmentCount totalSizeBytes).1.fragments := by
  have hturn := fragmentHeader_turn (s := s) (c := c) now crdt roomId batchId fragmentCount
    totalSizeBytes
  generalize c.fragmentHeader s now crdt roomId batchId fragmentCount totalSizeBytes = turn at *
  cases hturn with
  | refused _ _ hearly => exact Or.inl hearly
  | repeated => simp at h
  | conflict => exact Or.inr (by simp [remove])
  | full _ _ hkey => exact Or.inr hkey
  | opened now hjoined hkey hfits hcount hreserved => simp at h

theorem fragment_answers {crdt : CrdtType} {roomId : String} {batchId : BatchId} {index : UInt64}
    {bytes : Bytes} {effect : Effect}
    (h : effect ∈ (c.fragment s crdt roomId batchId index bytes).2) :
    (∃ batch, c.fragments.lookup { roomId, batchId } = some batch ∧
      (crdt ≠ .loro ∨ roomId ∉ c.joined ∨ batch.chunks.length ≤ index.toNat)) ∨
      { roomId, batchId } ∉ (c.fragment s crdt roomId batchId index bytes).1.fragments := by
  have hturn := fragment_turn (s := s) (c := c) crdt roomId batchId index bytes
  generalize c.fragment s crdt roomId batchId index bytes = turn at *
  cases hturn with
  | denied hdenied =>
    cases hlookup : c.fragments.lookup { roomId, batchId } with
    | none => exact Or.inr (AList.lookup_eq_none.1 hlookup)
    | some batch => exact Or.inl ⟨batch, rfl, hdenied.imp_right Or.inl⟩
  | unknown hlookup => exact Or.inr (AList.lookup_eq_none.1 hlookup)
  | outside hlookup hindex => exact Or.inl ⟨_, hlookup, Or.inr (Or.inr hindex)⟩
  | repeated => simp at h
  | dropped _ _ => exact Or.inr (by simp [remove])
  | filled hlookup hslot hbytes hle hmissing => simp at h
  | completed _ => exact Or.inr (by simp [remove])

theorem expireFragments_answers {now : Nat} {effect : Effect}
    (h : effect ∈ (c.expireFragments now).2) (hrefuses : effect.refuses key = true) :
    key ∉ (c.expireFragments now).1.fragments := by
  unfold expireFragments at h ⊢
  have ⟨entry, hentry, heffect⟩ := List.mem_map.1 h
  have ⟨hmem, hlate⟩ := List.mem_filter.1 hentry
  subst heffect
  have hkey : entry.1 = key := by
    have hfields := of_decide_eq_true hrefuses
    exact FragmentKey.ext hfields.1 hfields.2.1
  subst hkey
  have hlookup : c.fragments.lookup entry.1 = some entry.2 := AList.mem_lookup_iff.2 hmem
  intro hkept
  have ⟨batch, hbatch⟩ := Option.isSome_iff_exists.1 (AList.lookup_isSome.2 hkept)
  have ⟨hold, hkeep⟩ := Fragments.lookup_retain.1 hbatch
  have hsame : entry.2 = batch := by simpa [hlookup] using hold
  subst hsame
  simp at hlate hkeep
  omega

theorem Refuses.gone (h : c.Refuses s input key) (hkeeps : ¬ c.KeepsBatch s key input) :
    key ∉ (c.step s input).1.fragments := by
  have ⟨hconcerns, effect, heffect, hrefuses⟩ := h
  cases input with
  | expire now => exact expireFragments_answers heffect hrefuses
  | message now message =>
    cases message with
    | docUpdateFragmentHeader crdt roomId batchId count total =>
      have hkey : { roomId, batchId } = key := by
        simpa [Input.concerns, Input.headerKey, Input.fragmentKey] using hconcerns
      subst hkey
      rcases fragmentHeader_answers heffect with hearly | hgone
      · have habsent : { roomId, batchId } ∉ c.fragments := by
          intro hmem
          exact hkeeps ⟨rfl, hmem, hearly⟩
        have ⟨_, _, hstep⟩ := fragmentHeader_early now batchId hearly
        show _ ∉ (c.fragmentHeader s now crdt roomId batchId count total).1.fragments
        rwa [hstep]
      · exact hgone
    | docUpdateFragment crdt roomId batchId index bytes =>
      have hkey : { roomId, batchId } = key := by
        simpa [Input.concerns, Input.headerKey, Input.fragmentKey] using hconcerns
      subst hkey
      rcases fragment_answers heffect with hearly | hgone
      · exact absurd ⟨rfl, hearly⟩ hkeeps
      · exact hgone
    | joinRequest crdt roomId version => simp [Input.concerns, Input.headerKey,
        Input.fragmentKey] at hconcerns
    | docUpdate crdt roomId updates batchId => simp [Input.concerns, Input.headerKey,
        Input.fragmentKey] at hconcerns
    | leave crdt roomId => simp [Input.concerns, Input.headerKey,
        Input.fragmentKey] at hconcerns
    | ignored => simp [Input.concerns, Input.headerKey, Input.fragmentKey] at hconcerns

theorem KeepsBatch.refuses (h : c.KeepsBatch s key input) :
    c.Refuses s input key ∧ key ∈ (c.step s input).1.fragments := by
  cases input with
  | expire now => exact h.elim
  | message now message =>
    cases message with
    | docUpdateFragmentHeader crdt roomId batchId count total =>
      have ⟨hkey, hmem, hearly⟩ := h
      subst hkey
      have ⟨status, hstatus, hstep⟩ :=
        fragmentHeader_early now batchId hearly
      unfold Refuses step handleMessage
      simp [hstep, Effect.refuses, Input.concerns, Input.headerKey, hstatus, hmem]
    | docUpdateFragment crdt roomId batchId index bytes =>
      have ⟨hkey, batch, hlookup, hearly⟩ := h
      subst hkey
      have ⟨status, hstatus, hstep⟩ := fragment_early (s := s) bytes hlookup hearly
      unfold Refuses step handleMessage
      simp [hstep, Effect.refuses, Input.concerns, Input.fragmentKey, hstatus,
        Fragments.mem_of_lookup hlookup]
    | joinRequest crdt roomId version => exact h.elim
    | docUpdate crdt roomId updates batchId => exact h.elim
    | leave crdt roomId => exact h.elim
    | ignored => exact h.elim

theorem absent_change {next : Connection} (hchange : Change s c input next)
    (habsent : key ∉ c.fragments) (hinput : input.headerKey ≠ some key) :
    key ∉ next.fragments := by
  intro hmem
  cases hchange with
  | same => exact habsent hmem
  | join roomId => exact habsent hmem
  | remove _ => exact habsent (AList.mem_erase.1 hmem).2
  | retain _ => exact habsent (Fragments.mem_of_mem_retain hmem).1
  | expire _ => exact habsent (Fragments.mem_of_mem_retain hmem).1
  | opened hheader _ _ _ _ _ =>
    rcases (AList.mem_insert _).1 hmem with heq | hold
    · exact hinput (by rw [hheader, heq])
    · exact habsent hold
  | filled _ hlookup _ _ _ _ =>
    rcases (AList.mem_insert _).1 hmem with heq | hold
    · exact habsent (heq ▸ Fragments.mem_of_lookup hlookup)
    · exact habsent hold

theorem absent_run (habsent : key ∉ c.fragments) (later : List Input)
    (hlater : ∀ input ∈ later, input.headerKey ≠ some key) :
    key ∉ (c.run s later).1.fragments := by
  induction later generalizing c with
  | nil => exact habsent
  | cons input later ih =>
    have hnext : key ∉ (c.step s input).1.fragments :=
      absent_change (step_change input) habsent (hlater input (List.mem_cons_self ..))
    exact ih hnext fun other hother => hlater other (List.mem_cons_of_mem _ hother)

/-- A fragment of a batch that is not in the buffers is answered, and that is
all. -/
theorem fragment_absent (habsent : key ∉ c.fragments) (hinput : input.fragmentKey = some key)
    (roomId : String) (command : Command) :
    .room roomId command ∉ (c.step s input).2 := by
  cases input with
  | expire now => simp [Input.fragmentKey] at hinput
  | message now message =>
    cases message with
    | docUpdateFragment crdt room batchId index bytes =>
      have hkey : { roomId := room, batchId } = key := by
        simpa [Input.fragmentKey] using hinput
      subst hkey
      have hlookup := AList.lookup_eq_none.2 habsent
      show _ ∉ (c.fragment s crdt room batchId index bytes).2
      unfold fragment
      split_ifs
      · simp
      · simp [hlookup]
    | joinRequest crdt room version => simp [Input.fragmentKey] at hinput
    | docUpdate crdt room updates batchId => simp [Input.fragmentKey] at hinput
    | docUpdateFragmentHeader crdt room batchId count total => simp [Input.fragmentKey] at hinput
    | leave crdt room => simp [Input.fragmentKey] at hinput
    | ignored => simp [Input.fragmentKey] at hinput

/-- An error answer to a header or to a fragment ends its batch, unless the
message was refused before the batch was looked at, or named a slot that the
batch does not have.  Then the batch lives on. -/
theorem refused_batch_is_dead_iff (s : Session) (c : Connection) (input : Input)
    (key : FragmentKey) :
    (c.Refuses s input key → (c.step s input).1.Dead s key) ↔ ¬ c.KeepsBatch s key input := by
  constructor
  · intro hdead hkeeps
    have ⟨hrefuses, hmem⟩ := hkeeps.refuses
    have ⟨hgone, _⟩ := hdead hrefuses [] (by simp)
    exact hgone hmem
  · intro hkeeps hrefuses later hlater
    have hgone := absent_run (s := s) (hrefuses.gone hkeeps) later hlater
    exact ⟨hgone, fun other hother => fragment_absent hgone hother⟩

/-- A connection has a batch of two fragments in its buffers.  A fragment with
the index 5 is refused as an invalid update, and the batch is still put
together and forwarded when its two fragments come. -/
theorem refused_batch_forwarded :
    let s : Session := ⟨.default, 1, 0⟩
    let key : FragmentKey := ⟨"r", serverBatchId 1⟩
    let c := (new.run s [.message 0 (.joinRequest .loro "r" []),
      .message 0 (.docUpdateFragmentHeader .loro "r" key.batchId 2 2)]).1
    let refused : Input := .message 1 (.docUpdateFragment .loro "r" key.batchId 5 [7])
    ¬ (c.Refuses s refused key → (c.step s refused).1.Dead s key) ∧
      ((c.step s refused).1.run s [.message 2 (.docUpdateFragment .loro "r" key.batchId 0 [7]),
        .message 2 (.docUpdateFragment .loro "r" key.batchId 1 [8])]).2 =
        [.room "r" (.update 1 key.batchId [[7, 8]] 0)] := by
  intro s key c refused
  have hrefuses : c.Refuses s refused key :=
    ⟨by decide, .ack .loro "r" key.batchId .invalidUpdate, by decide, by decide⟩
  have hkept : key ∈ (c.step s refused).1.fragments := by decide
  refine ⟨?_, by decide⟩
  intro hdead
  exact (hdead hrefuses [] (by simp)).1 hkept

end Connection

end LoroGateway
