import LoroGateway.FragmentBudget

/-!
# Reassembly

A client that splits an update into chunks sends a header and then the chunks,
in any order and perhaps some of them twice.  `Connection.reassembles` says
that the connection forwards the update once, when the last missing chunk
comes, and answers nothing about the batch before.  The messages of
`send_update` are such a sequence, so the gateway can read what it sends.

`Holding` is the invariant.  The slots of the batch hold exactly the chunks
that came so far, each in its place.  While it holds, a chunk is missing
(`Holding.not_covers`).
-/

namespace LoroGateway

open ByteCodec Slots

/-! ## The messages of one batch -/

section Messages

variable (key : FragmentKey) (chunks : List Bytes)

/-- The turn brings the chunk with the given index. -/
def Input.carries (index : Nat) (input : Input) : Prop :=
  ∃ (now : Nat) (word : UInt64) (chunk : Bytes), word.toNat = index ∧
    chunks[index]? = some chunk ∧
    input = .message now (.docUpdateFragment .loro key.roomId key.batchId word chunk)

/-- The turn brings the header once more. -/
def Input.repeatsHeader (input : Input) : Prop :=
  ∃ (now : Nat) (count total : UInt64), count.toNat = chunks.length ∧
    total.toNat = chunks.flatten.length ∧
    input = .message now (.docUpdateFragmentHeader .loro key.roomId key.batchId count total)

/-- The turn has nothing to do with the batch.  It is not a `Leave` of the
room, and it does not expire the batch. -/
def Input.unrelated (deadline : Nat) : Input → Prop
  | .expire now => now < deadline
  | .message _ (.docUpdate _ roomId _ batchId) => { roomId, batchId } ≠ key
  | .message _ (.docUpdateFragmentHeader _ roomId batchId _ _) => { roomId, batchId } ≠ key
  | .message _ (.docUpdateFragment _ roomId batchId _ _) => { roomId, batchId } ≠ key
  | .message _ (.leave crdt roomId) => crdt = .loro → roomId ≠ key.roomId
  | .message _ (.joinRequest _ _ _) => True
  | .message _ .ignored => True

/-- The turns bring every chunk. -/
def Covers (inputs : List Input) : Prop :=
  ∀ index < chunks.length, ∃ input ∈ inputs, input.carries key chunks index

/-- Turns that bring every chunk, in any order.  The header and the chunks may
be repeated until the last chunk has come.  Nothing else is about the batch. -/
structure Transmission (deadline : Nat) (inputs : List Input) : Prop where
  parts : ∀ input ∈ inputs, input.unrelated key deadline ∨ input.repeatsHeader key chunks ∨
    ∃ index, input.carries key chunks index
  covers : Covers key chunks inputs
  done : ∀ before after, inputs = before ++ after → Covers key chunks before →
    ∀ input ∈ after, input.unrelated key deadline

/-- The effect is about the batch. -/
def Effect.isFor : Effect → Prop
  | .ack _ roomId refId _ => { roomId, batchId := refId } = key
  | .room roomId (.update _ batchId _ _) => { roomId, batchId } = key
  | _ => False

end Messages

theorem Effect.isFor_of_mem {key : FragmentKey} {effect only : Effect} (h : effect ∈ [only])
    (hfor : effect.isFor key) : only.isFor key := by
  rwa [← List.mem_singleton.1 h]

/-! ## Turns about other batches -/

namespace Connection

variable {s : Session} {c : Connection} {input : Input} {key : FragmentKey}

theorem fragmentHeader_isFor {now : Nat} {crdt : CrdtType} {roomId : String} {batchId : BatchId}
    {fragmentCount totalSizeBytes : UInt64} {effect : Effect}
    (h : effect ∈ (c.fragmentHeader s now crdt roomId batchId fragmentCount totalSizeBytes).2)
    (hfor : effect.isFor key) : { roomId, batchId } = key := by
  have hturn := fragmentHeader_turn (s := s) (c := c) now crdt roomId batchId fragmentCount
    totalSizeBytes
  generalize c.fragmentHeader s now crdt roomId batchId fragmentCount totalSizeBytes = turn at *
  cases hturn with
  | refused _ _ _ => exact Effect.isFor_of_mem h hfor
  | repeated => simp at h
  | conflict => exact Effect.isFor_of_mem h hfor
  | full _ _ _ => exact Effect.isFor_of_mem h hfor
  | opened _ _ _ _ _ _ => simp at h

theorem assemble_isFor {other : FragmentKey} {batch : FragmentBatch} {effect : Effect}
    (h : effect ∈ assemble s other batch) (hfor : effect.isFor key) : other = key := by
  unfold assemble at h
  cases hchunks : batch.chunks.mapM id with
  | none => simp [hchunks] at h
  | some chunks =>
    simp only [hchunks] at h
    split_ifs at h
    · exact Effect.isFor_of_mem h hfor
    · exact Effect.isFor_of_mem h hfor

theorem fragment_isFor {crdt : CrdtType} {roomId : String} {batchId : BatchId} {index : UInt64}
    {bytes : Bytes} {effect : Effect}
    (h : effect ∈ (c.fragment s crdt roomId batchId index bytes).2)
    (hfor : effect.isFor key) : { roomId, batchId } = key := by
  have hturn := fragment_turn (s := s) (c := c) crdt roomId batchId index bytes
  generalize c.fragment s crdt roomId batchId index bytes = turn at *
  cases hturn with
  | denied _ => exact Effect.isFor_of_mem h hfor
  | unknown _ => exact Effect.isFor_of_mem h hfor
  | outside _ _ => exact Effect.isFor_of_mem h hfor
  | repeated => simp at h
  | dropped _ _ => exact Effect.isFor_of_mem h hfor
  | filled _ _ _ _ _ => simp at h
  | completed _ => exact assemble_isFor h hfor

/-- A turn that is not about the batch answers nothing about it. -/
theorem unrelated_effects {deadline : Nat} (hinput : input.unrelated key deadline)
    (hlate : ∀ batch, c.fragments.lookup key = some batch → batch.deadline = deadline) :
    ∀ effect ∈ (c.step s input).2, ¬ effect.isFor key := by
  intro effect heffect hfor
  cases input with
  | expire now =>
    have ⟨entry, hentry, hack⟩ := List.mem_map.1 heffect
    have ⟨hmem, hexpired⟩ := List.mem_filter.1 hentry
    subst hack
    have hkey : entry.1 = key := hfor
    subst hkey
    have hdeadline := hlate entry.2 (AList.mem_lookup_iff.2 hmem)
    have hexpired := of_decide_eq_true hexpired
    have hnow : now < deadline := hinput
    omega
  | message now message =>
    cases message with
    | joinRequest crdt roomId version =>
      have heffect : effect ∈ (c.joinRequest s crdt roomId version).2 := heffect
      unfold joinRequest at heffect
      split_ifs at heffect
      · exact Effect.isFor_of_mem heffect hfor
      · exact Effect.isFor_of_mem heffect hfor
    | docUpdate crdt roomId updates batchId =>
      have heffect : effect ∈ (c.docUpdate s crdt roomId updates batchId).2 := heffect
      unfold docUpdate at heffect
      split_ifs at heffect
      · exact hinput (Effect.isFor_of_mem heffect hfor)
      · exact hinput (Effect.isFor_of_mem heffect hfor)
    | docUpdateFragmentHeader crdt roomId batchId count total =>
      exact hinput (fragmentHeader_isFor heffect hfor)
    | docUpdateFragment crdt roomId batchId index bytes =>
      exact hinput (fragment_isFor heffect hfor)
    | leave crdt roomId =>
      have heffect : effect ∈ (c.leave s crdt roomId).2 := heffect
      unfold leave at heffect
      split_ifs at heffect
      · exact Effect.isFor_of_mem heffect hfor
      · simp at heffect
    | ignored => simp [step, handleMessage] at heffect

/-- What stays of a batch through a turn that is not about it. -/
theorem unrelated_lookup {deadline : Nat} (hinput : input.unrelated key deadline)
    (hjoined : key.roomId ∈ c.joined)
    (hlate : ∀ batch, c.fragments.lookup key = some batch → batch.deadline = deadline) :
    key.roomId ∈ (c.step s input).1.joined ∧
      (c.step s input).1.fragments.lookup key = c.fragments.lookup key := by
  have hchange := step_change (s := s) (c := c) input
  generalize (c.step s input).1 = next at *
  have hne : ∀ other, input.headerKey = some other ∨ input.fragmentKey = some other →
      key ≠ other := by
    intro other hother heq
    subst heq
    cases input with
    | expire now => simp [Input.headerKey, Input.fragmentKey] at hother
    | message now message =>
      cases message <;> simp [Input.headerKey, Input.fragmentKey] at hother <;>
        exact hinput hother
  cases hchange with
  | same => exact ⟨hjoined, rfl⟩
  | join roomId => exact ⟨Finset.mem_insert_of_mem hjoined, rfl⟩
  | remove hother => exact ⟨hjoined, AList.lookup_erase_ne (hne _ hother)⟩
  | retain hleave =>
    subst hleave
    have hroom := Ne.symm (hinput rfl)
    refine ⟨Finset.mem_erase.2 ⟨hroom, hjoined⟩, ?_⟩
    apply Fragments.lookup_retain_of_keep
    intro batch _
    simpa using hroom
  | expire hexpire =>
    subst hexpire
    refine ⟨hjoined, ?_⟩
    apply Fragments.lookup_retain_of_keep
    intro batch hbatch
    have hnow := hlate batch hbatch ▸ hinput
    simpa [Input.unrelated] using hnow
  | opened hother _ _ _ _ _ => exact ⟨hjoined, AList.lookup_insert_ne (hne _ (Or.inl hother))⟩
  | filled hother _ _ _ _ _ => exact ⟨hjoined, AList.lookup_insert_ne (hne _ (Or.inr hother))⟩

end Connection

/-! ## The batch while it is incomplete -/

theorem exists_toNat_eq {n : Nat} (h : n < wordSize) : ∃ word : UInt64, word.toNat = n :=
  ⟨UInt64.ofNat n, UInt64.toNat_ofNat_of_lt' h⟩

section Holding

variable (s : Session) (key : FragmentKey) (chunks : List Bytes) (deadline : Nat)

/-- The slots of the batch hold the chunks that came in `done`. -/
structure Came (done : List Input) (slots : List (Option Bytes)) : Prop where
  part : PartOf slots chunks
  missing : ∀ index < chunks.length,
    slots[index]? = some none ↔ ∀ input ∈ done, ¬ input.carries key chunks index

/-- The buffers hold the batch, and its slots hold the chunks that came. -/
structure Holding (done : List Input) (c : Connection) (batch : FragmentBatch) : Prop where
  joined : key.roomId ∈ c.joined
  lookup : c.fragments.lookup key = some batch
  late : batch.deadline = deadline
  total_pos : batch.totalSize ≠ 0
  total : batch.totalSize.toNat = chunks.flatten.length
  sound : batch.Sound s.config
  came : Came key chunks done batch.chunks

end Holding

section Steps

variable {s : Session} {key : FragmentKey} {chunks : List Bytes} {deadline : Nat}
  {done : List Input} {c : Connection} {batch : FragmentBatch} {input : Input}
  {slots : List (Option Bytes)}

theorem Input.carries_inj {i j : Nat} (hi : input.carries key chunks i)
    (hj : input.carries key chunks j) : i = j := by
  have ⟨_, word, _, hword, _, heq⟩ := hi
  have ⟨_, word', _, hword', _, heq'⟩ := hj
  have hsame : word = word' := by
    rw [heq] at heq'
    simp only [Input.message.injEq, ClientMessage.docUpdateFragment.injEq] at heq'
    tauto
  rw [← hword, ← hword', hsame]

theorem Came.covers_iff (h : Came key chunks done slots) :
    Covers key chunks done ↔ slots.reduceOption.length = slots.length := by
  have hlength : slots.length = chunks.length := h.part.length_eq
  constructor
  · intro hcovers
    by_contra hshort
    have hlt := lt_of_le_of_ne (List.reduceOption_length_le slots) hshort
    have hnone := List.reduceOption_length_lt_iff.1 hlt
    have ⟨index, hindex, hslot⟩ := List.mem_iff_getElem.1 hnone
    have ⟨input, hinput, hcarries⟩ := hcovers index (hlength ▸ hindex)
    have hmissing : slots[index]? = some none := by rw [List.getElem?_eq_getElem hindex, hslot]
    exact (h.missing index (hlength ▸ hindex)).1 hmissing input hinput hcarries
  · intro hfull index hindex
    have heq := h.part.eq_of_full hfull
    by_contra hnone
    have hmissing : slots[index]? = some none := by
      apply (h.missing index hindex).2
      intro input hinput hcarries
      exact hnone ⟨input, hinput, hcarries⟩
    rw [heq] at hmissing
    simp at hmissing

/-- While the batch is in the buffers, a chunk is missing. -/
theorem Holding.not_covers (h : Holding s key chunks deadline done c batch) :
    ¬ Covers key chunks done := by
  intro hcovers
  have hfull := h.came.covers_iff.1 hcovers
  have hreceived := h.sound.received
  have hmissing := h.sound.missing
  unfold FragmentBatch.filled at hreceived
  omega

/-- A turn that brings no new chunk. -/
theorem Came.skip (h : Came key chunks done slots)
    (hinput : ∀ index, input.carries key chunks index → slots[index]? ≠ some none) :
    Came key chunks (done ++ [input]) slots := by
  constructor
  · exact h.part
  · intro index hindex
    rw [h.missing index hindex]
    constructor
    · intro hnone other hother
      rcases List.mem_append.1 hother with hold | hlast
      · exact hnone other hold
      · intro hcarries
        rw [List.mem_singleton.1 hlast] at hcarries
        exact hinput index hcarries ((h.missing index hindex).2 hnone)
    · intro hnone other hother
      exact hnone other (List.mem_append_left _ hother)

/-- A turn that brings a new chunk. -/
theorem Came.fill {index : Nat} {chunk : Bytes} (h : Came key chunks done slots)
    (hcarries : input.carries key chunks index) (hchunk : chunks[index]? = some chunk) :
    Came key chunks (done ++ [input]) (slots.set index (some chunk)) := by
  have hlength : slots.length = chunks.length := h.part.length_eq
  constructor
  · exact h.part.set hchunk
  · intro other hother
    by_cases heq : index = other
    · subst heq
      rw [List.getElem?_set_self (by omega)]
      constructor
      · intro hsome
        simp at hsome
      · intro hnone
        exact absurd hcarries (hnone input (by simp))
    · rw [List.getElem?_set_ne heq, h.missing other hother]
      constructor
      · intro hnone turn hturn hcarried
        rcases List.mem_append.1 hturn with hold | hlast
        · exact hnone turn hold hcarried
        · rw [List.mem_singleton.1 hlast] at hcarried
          exact heq (Input.carries_inj hcarries hcarried)
      · intro hnone turn hturn
        exact hnone turn (List.mem_append_left _ hturn)

open Connection

theorem Holding.step_repeatsHeader (h : Holding s key chunks deadline done c batch)
    (hinput : input.repeatsHeader key chunks) : c.step s input = (c, []) := by
  have ⟨now, count, total, hcount, htotal, hmessage⟩ := hinput
  have hslots : batch.chunks.length = chunks.length := h.came.part.length_eq
  have hsize : batch.totalSize = total := UInt64.toNat_inj.1 (h.total.trans htotal.symm)
  have hfits : headerFits s.config count total := by
    refine ⟨?_, ?_, hsize ▸ h.total_pos, hsize ▸ h.sound.total_le⟩
    · intro hzero
      have hpos := h.sound.slots_pos
      rw [hzero] at hcount
      simp at hcount
      omega
    · rw [UInt64.le_iff_toNat_le, hcount, ← hslots]
      exact h.sound.slots_le
  have hlength : u64OfUsize batch.chunks.length = some count :=
    u64OfUsize_eq_some.2 (hcount.trans hslots.symm)
  subst hmessage
  show c.fragmentHeader s now .loro key.roomId key.batchId count total = (c, [])
  unfold fragmentHeader
  simp [h.joined, hfits, h.lookup, hsize, hlength]

theorem Holding.length_lt (h : Holding s key chunks deadline done c batch) {index : Nat}
    {chunk : Bytes} (hchunk : chunks[index]? = some chunk) : chunk.length < wordSize := by
  have hsub : chunk.Sublist chunks.flatten :=
    List.sublist_flatten_of_mem (List.mem_of_getElem? hchunk)
  have hle := hsub.length_le
  have hlt := batch.totalSize.toNat_lt
  rw [h.total] at hlt
  exact lt_of_le_of_lt hle hlt

theorem Holding.step_carries (h : Holding s key chunks deadline done c batch) {index : Nat}
    (hinput : input.carries key chunks index) (hslot : batch.chunks[index]? ≠ some none) :
    c.step s input = (c, []) := by
  have ⟨now, word, chunk, hword, hchunk, hmessage⟩ := hinput
  have hhere : batch.chunks[index]? = some (some chunk) :=
    (h.came.part.getElem? hchunk).resolve_left hslot
  have ⟨length, hlength⟩ := exists_toNat_eq (h.length_lt hchunk)
  have hlength := u64OfUsize_eq_some.2 hlength
  subst hmessage hword
  show c.fragment s .loro key.roomId key.batchId word chunk = (c, [])
  unfold fragment
  simp [h.joined, h.lookup, hhere, hlength]

/-- A chunk that fits in its slot and in the size of the batch. -/
theorem Holding.step_fill (h : Holding s key chunks deadline done c batch) {index : Nat}
    (hinput : input.carries key chunks index) (hslot : batch.chunks[index]? = some none) :
    ∃ chunk receivedBytes, chunks[index]? = some chunk ∧
      receivedBytes.toNat = batch.receivedBytes.toNat + chunk.length ∧
      receivedBytes ≤ batch.totalSize ∧
      c.step s input = complete s (c.put key (batch.fill index chunk receivedBytes)) key
        (batch.fill index chunk receivedBytes) := by
  have ⟨now, word, chunk, hword, hchunk, hmessage⟩ := hinput
  have ⟨length, hlength⟩ := exists_toNat_eq (h.length_lt hchunk)
  have hroom : batch.receivedBytes.toNat + chunk.length ≤ batch.totalSize.toNat := by
    have hsum := (h.came.part.set hchunk).sum_le List.length
    have hfilled := (FragmentBatch.filled_fill chunk batch.receivedBytes hslot).2
    have hbefore := h.sound.receivedBytes
    have htotal := h.total
    rw [List.length_flatten] at htotal
    unfold FragmentBatch.filled FragmentBatch.fill at hfilled
    unfold FragmentBatch.filled at hbefore
    simp only at hfilled
    omega
  have hword64 := batch.totalSize.toNat_lt
  have hsmall : batch.receivedBytes.toNat + length.toNat < wordSize := by
    rw [hlength]
    exact lt_of_le_of_lt hroom hword64
  have ⟨receivedBytes, hbytes⟩ := exists_toNat_eq hsmall
  have hle : receivedBytes ≤ batch.totalSize := by
    rw [UInt64.le_iff_toNat_le]
    omega
  refine ⟨chunk, receivedBytes, hchunk, by omega, hle, ?_⟩
  have hlength := u64OfUsize_eq_some.2 hlength
  have hadd := checkedAddU64_eq_some.2 hbytes
  subst hmessage hword
  show c.fragment s .loro key.roomId key.batchId word chunk = _
  unfold fragment
  simp [h.joined, h.lookup, hslot, hlength, hadd, UInt64.not_lt.2 hle, FragmentBatch.fill]

/-- The chunks of a batch that has them all. -/
theorem assemble_of_full (hpart : PartOf batch.chunks chunks)
    (hfull : batch.chunks.reduceOption.length = batch.chunks.length)
    (htotal : batch.totalSize.toNat = chunks.flatten.length) :
    assemble s key batch = [.room key.roomId
      (.update s.connectionId key.batchId [chunks.flatten] s.outbound)] := by
  have hlength : u64OfUsize chunks.flatten.length = some batch.totalSize :=
    u64OfUsize_eq_some.2 htotal
  unfold assemble
  rw [hpart.eq_of_full hfull, mapM_map_some]
  simp only [hlength, ne_eq, not_true_eq_false, if_false]

/-- One turn of a transmission.  Either the batch is still in the buffers and
nothing was said about it, or the turn brought the last chunk. -/
theorem Holding.step (h : Holding s key chunks deadline done c batch)
    (hinput : input.unrelated key deadline ∨ input.repeatsHeader key chunks ∨
      ∃ index, input.carries key chunks index) :
    (∃ next, Holding s key chunks deadline (done ++ [input]) (c.step s input).1 next ∧
      ∀ effect ∈ (c.step s input).2, ¬ effect.isFor key) ∨
    (Covers key chunks (done ++ [input]) ∧ key.roomId ∈ (c.step s input).1.joined ∧
      (c.step s input).1.fragments.lookup key = none ∧
      (c.step s input).2 = [.room key.roomId
        (.update s.connectionId key.batchId [chunks.flatten] s.outbound)]) := by
  rcases hinput with hother | hheader | ⟨index, hcarries⟩
  · left
    have hlate : ∀ found, c.fragments.lookup key = some found → found.deadline = deadline := by
      intro found hfound
      have hsame : batch = found := by simpa [h.lookup] using hfound
      rw [← hsame]
      exact h.late
    have ⟨hjoined, hlookup⟩ := unrelated_lookup (s := s) hother h.joined hlate
    have hskip : ∀ index, input.carries key chunks index → batch.chunks[index]? ≠ some none := by
      intro index hcarries
      have ⟨_, _, _, _, _, hmessage⟩ := hcarries
      subst hmessage
      exact absurd rfl hother
    have hnext : Holding s key chunks deadline (done ++ [input]) (c.step s input).1 batch :=
      { h with
        joined := hjoined
        lookup := hlookup.trans h.lookup
        came := h.came.skip hskip }
    exact ⟨batch, hnext, unrelated_effects hother hlate⟩
  · left
    have hskip : ∀ index, input.carries key chunks index → batch.chunks[index]? ≠ some none := by
      intro index hcarries
      have ⟨_, _, _, _, _, hmessage⟩ := hcarries
      have ⟨_, _, _, _, _, hmessage'⟩ := hheader
      simp [hmessage] at hmessage'
    rw [h.step_repeatsHeader hheader]
    exact ⟨batch, { h with came := h.came.skip hskip }, by simp⟩
  · by_cases hslot : batch.chunks[index]? = some none
    · have ⟨chunk, receivedBytes, hchunk, hbytes, hle, hstep⟩ := h.step_fill hcarries hslot
      have hcame := h.came.fill hcarries hchunk
      have hslots : (batch.fill index chunk receivedBytes).chunks.length = batch.chunks.length :=
        List.length_set
      have hfilled := (FragmentBatch.filled_fill chunk receivedBytes hslot).1
      have hreceived : (batch.fill index chunk receivedBytes).received =
          (batch.fill index chunk receivedBytes).filled.length := by
        have hword : batch.chunks.length < wordSize :=
          lt_of_le_of_lt h.sound.slots_le s.config.maxFragmentsPerBatch.toNat_lt
        have hnext := FragmentBatch.saturatingAdd_of_lt h.sound.missing hword
        rw [hfilled, ← h.sound.received]
        exact hnext
      rw [hstep]
      unfold complete
      by_cases hdone : (batch.fill index chunk receivedBytes).received =
          (batch.fill index chunk receivedBytes).chunks.length
      · right
        rw [if_pos hdone, remove_put]
        have hfull := hreceived.symm.trans hdone
        refine ⟨hcame.covers_iff.2 hfull, h.joined, AList.lookup_erase key _, ?_⟩
        exact assemble_of_full hcame.part hfull h.total
      · left
        rw [if_neg hdone]
        have hsound := h.sound.fill hslot hbytes hle (hslots ▸ hdone)
        exact ⟨_, ⟨h.joined, AList.lookup_insert _, h.late, h.total_pos, h.total, hsound, hcame⟩,
          by simp⟩
    · left
      have hskip : ∀ other, input.carries key chunks other → batch.chunks[other]? ≠ some none := by
        intro other hother
        rwa [← Input.carries_inj hcarries hother]
      rw [h.step_carries hcarries hslot]
      exact ⟨batch, { h with came := h.came.skip hskip }, by simp⟩

end Steps

/-! ## Whole transmissions -/

/-- Nothing is said about the batch in the turns before `last` and in those
after it, and at `last` the update is forwarded. -/
structure DeliversAt (s : Session) (key : FragmentKey) (chunks : List Bytes) (c : Connection)
    (before : List Input) (last : Input) (after : List Input) : Prop where
  quiet : ∀ effect ∈ (c.run s before).2, ¬ effect.isFor key
  forwards : ((c.run s before).1.step s last).2 = [.room key.roomId
    (.update s.connectionId key.batchId [chunks.flatten] s.outbound)]
  quietAfter : ∀ effect ∈ (((c.run s before).1.step s last).1.run s after).2, ¬ effect.isFor key

section Runs

open Connection

variable {s : Session} {key : FragmentKey} {chunks : List Bytes} {deadline : Nat}
  {done : List Input} {c : Connection} {batch : FragmentBatch}

theorem run_unrelated (hjoined : key.roomId ∈ c.joined) (hgone : c.fragments.lookup key = none)
    {inputs : List Input} (hinputs : ∀ input ∈ inputs, input.unrelated key deadline) :
    ∀ effect ∈ (c.run s inputs).2, ¬ effect.isFor key := by
  induction inputs generalizing c with
  | nil =>
    intro effect heffect
    simp [run] at heffect
  | cons input inputs ih =>
    have hinput := hinputs input (List.mem_cons_self ..)
    have hlate : ∀ batch, c.fragments.lookup key = some batch → batch.deadline = deadline := by
      intro batch hbatch
      simp [hgone] at hbatch
    have ⟨hnext, hlookup⟩ := unrelated_lookup (s := s) hinput hjoined hlate
    intro effect heffect
    rcases List.mem_append.1 heffect with hfirst | hlater
    · exact unrelated_effects hinput hlate effect hfirst
    · exact ih hnext (hlookup.trans hgone)
        (fun other hother => hinputs other (List.mem_cons_of_mem _ hother)) effect hlater

/-- The induction over the turns that follow the header. -/
theorem Holding.run (h : Holding s key chunks deadline done c batch) {inputs : List Input}
    (hparts : ∀ input ∈ inputs, input.unrelated key deadline ∨ input.repeatsHeader key chunks ∨
      ∃ index, input.carries key chunks index)
    (hcovers : Covers key chunks (done ++ inputs))
    (hdone : ∀ before after, inputs = before ++ after → Covers key chunks (done ++ before) →
      ∀ input ∈ after, input.unrelated key deadline) :
    ∃ before last after, inputs = before ++ last :: after ∧
      ¬ Covers key chunks (done ++ before) ∧ Covers key chunks (done ++ before ++ [last]) ∧
      DeliversAt s key chunks c before last after := by
  induction inputs generalizing c done batch with
  | nil => exact absurd (by simpa using hcovers) h.not_covers
  | cons input inputs ih =>
    rcases h.step (hparts input (List.mem_cons_self ..)) with
      ⟨next, hnext, hquiet⟩ | ⟨hlast, hjoined, hgone, hforward⟩
    · have hparts' := fun other hother => hparts other (List.mem_cons_of_mem _ hother)
      have hcovers' : Covers key chunks (done ++ [input] ++ inputs) := by simpa using hcovers
      have hdone' : ∀ before after, inputs = before ++ after →
          Covers key chunks (done ++ [input] ++ before) →
          ∀ other ∈ after, other.unrelated key deadline := by
        intro before after heq hcovered
        apply hdone (input :: before) after (by rw [heq]; rfl)
        simpa using hcovered
      have ⟨before, last, after, heq, hopen, hclosed, hdelivers⟩ := ih hnext hparts' hcovers' hdone'
      refine ⟨input :: before, last, after, by rw [heq]; rfl, by simpa using hopen,
        by simpa using hclosed, ?_, hdelivers.forwards, hdelivers.quietAfter⟩
      intro effect heffect
      rcases List.mem_append.1 heffect with hfirst | hlater
      · exact hquiet effect hfirst
      · exact hdelivers.quiet effect hlater
    · have hrest := hdone [input] inputs rfl hlast
      refine ⟨[], input, inputs, rfl, by simpa using h.not_covers, by simpa using hlast, ?_,
        hforward, run_unrelated hjoined hgone hrest⟩
      intro effect heffect
      simp [Connection.run] at heffect

/-- The batch of an accepted header, before the first chunk. -/
theorem holding_of_accepted {now : Nat} {count total : UInt64} (hcount : count.toNat = chunks.length)
    (htotal : total.toNat = chunks.flatten.length) (hkey : key ∉ c.fragments)
    (haccepted : (c.fragmentHeader s now .loro key.roomId key.batchId count total).2 = []) :
    ∃ batch, Holding s key chunks (now + s.config.fragmentTimeout) []
      (c.fragmentHeader s now .loro key.roomId key.batchId count total).1 batch := by
  have hlookup : c.fragments.lookup { roomId := key.roomId, batchId := key.batchId } = none :=
    AList.lookup_eq_none.2 hkey
  unfold fragmentHeader at haccepted ⊢
  simp only [hlookup] at haccepted ⊢
  split_ifs at haccepted ⊢ with hdenied hfits hmany hlarge
  have hjoined : key.roomId ∈ c.joined := by tauto
  have hfits : headerFits s.config count total := by tauto
  have hcame : Came key chunks [] (List.replicate count.toNat none) := by
    constructor
    · rw [hcount]
      exact partOf_replicate chunks
    · intro index hindex
      simp [hcount, hindex]
  exact ⟨opened s now count total, hjoined, AList.lookup_insert _, rfl, hfits.2.2.1, htotal,
    opened_sound hfits, hcame⟩

end Runs

/-! ## The fragmenter -/

/-- A message of a gateway, as another gateway reads it. -/
def ProtocolMessage.incoming : ProtocolMessage → ClientMessage
  | .docUpdate roomId updates batchId => .docUpdate .loro roomId updates batchId
  | .docUpdateFragmentHeader roomId batchId fragmentCount totalSizeBytes =>
    .docUpdateFragmentHeader .loro roomId batchId fragmentCount totalSizeBytes
  | .docUpdateFragment roomId batchId index fragment =>
    .docUpdateFragment .loro roomId batchId index fragment
  | .joinResponseOk .. | .joinError .. | .ack .. | .roomError .. => .ignored

def Output.incoming : Output → ClientMessage
  | .send _ message => message.incoming
  | .respond _ | .activated => .ignored

/-- What was sent arrives in order, each message at some time. -/
def arrivals (time : Nat → Nat) (outputs : List Output) : List Input :=
  outputs.mapIdx fun index output => .message (time index) output.incoming

theorem take_chunks (update : Bytes) (count : Nat) :
    (fragments update count).flatten = update.take (count * fragmentSize) := by
  unfold fragments
  induction count with
  | zero => simp
  | succ count ih =>
    rw [List.range_succ, List.map_append, List.flatten_append, ih]
    simp only [List.map_cons, List.map_nil, List.flatten_cons, List.flatten_nil, List.append_nil]
    rw [Nat.succ_mul, List.take_add]

theorem flatten_fragments {update : Bytes} {count : Nat}
    (h : update.length ≤ count * fragmentSize) : (fragments update count).flatten = update := by
  rw [take_chunks, List.take_of_length_le h]

theorem length_fragments (update : Bytes) (count : Nat) :
    (fragments update count).length = count := by
  simp [fragments]

theorem toNat_lengthWord {n : Nat} (h : n < wordSize) : (lengthWord n).toNat = n := by
  unfold lengthWord u64OfUsize
  rw [if_pos h]
  exact UInt64.toNat_ofNat_of_lt' h

/-- The chunks of `send_update`, in the order in which it sends them. -/
def chunkInputs (key : FragmentKey) (time : Nat → Nat) (chunks : List Bytes) : List Input :=
  chunks.mapIdx fun index chunk => .message (time index)
    (.docUpdateFragment .loro key.roomId key.batchId (lengthWord index) chunk)

theorem chunkInputs_carries {key : FragmentKey} {time : Nat → Nat} {chunks : List Bytes}
    (hword : chunks.length < wordSize) {index : Nat} {input : Input}
    (h : (chunkInputs key time chunks)[index]? = some input) :
    index < chunks.length ∧ input.carries key chunks index := by
  unfold chunkInputs at h
  rw [List.getElem?_mapIdx, Option.map_eq_some_iff] at h
  have ⟨chunk, hchunk, hinput⟩ := h
  have hindex := (List.getElem?_eq_some_iff.1 hchunk).1
  exact ⟨hindex, time index, lengthWord index, chunk, toNat_lengthWord (hindex.trans hword),
    hchunk, hinput.symm⟩

theorem chunkInputs_transmission (key : FragmentKey) (time : Nat → Nat) {chunks : List Bytes}
    (hword : chunks.length < wordSize) (deadline : Nat) :
    Transmission key chunks deadline (chunkInputs key time chunks) := by
  have hlength : (chunkInputs key time chunks).length = chunks.length := by
    simp [chunkInputs]
  constructor
  · intro input hinput
    have ⟨index, hindex⟩ := List.mem_iff_getElem?.1 hinput
    exact Or.inr (Or.inr ⟨index, (chunkInputs_carries hword hindex).2⟩)
  · intro index hindex
    have hlt : index < (chunkInputs key time chunks).length := hlength ▸ hindex
    have hget := List.getElem?_eq_getElem hlt
    exact ⟨_, List.mem_of_getElem? hget, (chunkInputs_carries hword hget).2⟩
  · -- The chunk at the place where `after` starts is not in `before`.
    intro before after heq hcovers input hinput
    have hpos := List.length_pos_of_mem hinput
    have hsum : before.length + after.length = chunks.length := by
      rw [← hlength, heq, List.length_append]
    have ⟨other, hother, hcarries⟩ := hcovers before.length (by omega)
    have ⟨place, hplace⟩ := List.mem_iff_getElem?.1 hother
    have hlt := (List.getElem?_eq_some_iff.1 hplace).1
    have hget : (chunkInputs key time chunks)[place]? = some other := by
      rw [heq, List.getElem?_append_left hlt, hplace]
    have hsame := Input.carries_inj hcarries (chunkInputs_carries hword hget).2
    omega

/-- `send_update` sends a header and then the chunks of the update. -/
theorem arrivals_sendUpdate {update : Bytes} (peer : PeerSender) (roomId : String)
    (counter : UInt64) (time : Nat → Nat) (hlong : fragmentSize < update.length) :
    let count := (update.length + fragmentSize - 1) / fragmentSize
    arrivals time (sendUpdate peer roomId update counter) =
      .message (time 0) (.docUpdateFragmentHeader .loro roomId (serverBatchId counter)
        (lengthWord count) (lengthWord update.length)) ::
      chunkInputs { roomId, batchId := serverBatchId counter } (fun index => time (index + 1))
        (fragments update count) := by
  intro count
  unfold arrivals sendUpdate chunkInputs
  rw [if_neg (not_le.2 hlong)]
  simp only [List.mapIdx_cons, List.mapIdx_mapIdx]
  rfl

/-- Any order of the chunks of an accepted batch, with repeats, and among
messages of other batches and rooms, is put together once and exactly.  What
`send_update` sends for a long update is such a transmission of it. -/
theorem fragments_reassemble :
    (∀ (s : Session) (c : Connection) (key : FragmentKey) (chunks : List Bytes) (now : Nat)
      (count total : UInt64) (inputs : List Input),
      count.toNat = chunks.length → total.toNat = chunks.flatten.length → key ∉ c.fragments →
      (c.fragmentHeader s now .loro key.roomId key.batchId count total).2 = [] →
      Transmission key chunks (now + s.config.fragmentTimeout) inputs →
      ∃ before last after, inputs = before ++ last :: after ∧
        ¬ Covers key chunks before ∧ Covers key chunks (before ++ [last]) ∧
        DeliversAt s key chunks
          (c.fragmentHeader s now .loro key.roomId key.batchId count total).1 before last after) ∧
    (∀ (peer : PeerSender) (roomId : String) (update : Bytes) (counter : UInt64)
      (time : Nat → Nat) (deadline : Nat),
      fragmentSize < update.length → update.length < wordSize →
      ∃ (chunks : List Bytes) (count total : UInt64) (inputs : List Input),
        chunks.flatten = update ∧ count.toNat = chunks.length ∧
        total.toNat = chunks.flatten.length ∧
        arrivals time (sendUpdate peer roomId update counter) =
          .message (time 0) (.docUpdateFragmentHeader .loro roomId (serverBatchId counter)
            count total) :: inputs ∧
        Transmission { roomId, batchId := serverBatchId counter } chunks deadline inputs) := by
  constructor
  · intro s c key chunks now count total inputs hcount htotal hkey haccepted htransmission
    have ⟨batch, hbatch⟩ := holding_of_accepted hcount htotal hkey haccepted
    have hcovers : Covers key chunks ([] ++ inputs) := htransmission.covers
    exact hbatch.run htransmission.parts hcovers htransmission.done
  · intro peer roomId update counter time deadline hlong hword
    have hsize : update.length ≤
        (update.length + fragmentSize - 1) / fragmentSize * fragmentSize := by
      unfold fragmentSize at hlong ⊢
      omega
    have hflatten := flatten_fragments hsize
    have hlength := length_fragments update ((update.length + fragmentSize - 1) / fragmentSize)
    have hcount : (update.length + fragmentSize - 1) / fragmentSize < wordSize := by
      unfold fragmentSize at hlong ⊢
      omega
    refine ⟨fragments update ((update.length + fragmentSize - 1) / fragmentSize), _, _, _,
      hflatten, ?_, ?_, arrivals_sendUpdate peer roomId counter time hlong, ?_⟩
    · rw [hlength, toNat_lengthWord hcount]
    · rw [hflatten, toNat_lengthWord hword]
    · apply chunkInputs_transmission
      rwa [hlength]

/-- Two chunks, in the wrong order and the second of them twice. -/
theorem fragments_reassemble_sample :
    let s : Session := ⟨.default, 1, 0⟩
    let key : FragmentKey := ⟨"r", serverBatchId 1⟩
    let c : Connection := ⟨{"r"}, ∅⟩
    let chunk (index : UInt64) (bytes : Bytes) : Input :=
      .message 1 (.docUpdateFragment .loro "r" key.batchId index bytes)
    let inputs := [chunk 1 [8], .message 1 (.joinRequest .loro "q" []), chunk 1 [8], chunk 0 [7]]
    (∃ before last after, inputs = before ++ last :: after ∧
      ¬ Covers key [[7], [8]] before ∧ Covers key [[7], [8]] (before ++ [last]) ∧
      DeliversAt s key [[7], [8]]
        (c.fragmentHeader s 0 .loro key.roomId key.batchId 2 2).1 before last after) ∧
    ∃ (chunks : List Bytes) (count total : UInt64) (inputs : List Input),
      chunks.flatten = List.replicate 300000 7 ∧ count.toNat = chunks.length ∧
      total.toNat = chunks.flatten.length ∧
      arrivals (fun _ => 1) (sendUpdate 0 "r" (List.replicate 300000 7) 1) =
        .message 1 (.docUpdateFragmentHeader .loro "r" (serverBatchId 1) count total) :: inputs ∧
      Transmission ⟨"r", serverBatchId 1⟩ chunks 10000 inputs := by
  intro s key c chunk inputs
  have hcarries : ∀ (index : UInt64) (bytes : Bytes),
      [[7], [8]][index.toNat]? = some bytes →
      (chunk index bytes).carries key [[7], [8]] index.toNat := by
    intro index bytes hbytes
    exact ⟨1, index, bytes, rfl, hbytes, rfl⟩
  have hfirst := hcarries 0 [7] rfl
  have hsecond := hcarries 1 [8] rfl
  constructor
  · apply fragments_reassemble.1 s c key [[7], [8]] 0 2 2 inputs rfl rfl (by decide) (by decide)
    constructor
    · intro input hinput
      simp only [inputs, List.mem_cons, List.not_mem_nil, or_false] at hinput
      rcases hinput with h | h | h | h
      · exact Or.inr (Or.inr ⟨1, h ▸ hsecond⟩)
      · exact Or.inl (by rw [h]; exact trivial)
      · exact Or.inr (Or.inr ⟨1, h ▸ hsecond⟩)
      · exact Or.inr (Or.inr ⟨0, h ▸ hfirst⟩)
    · intro index hindex
      have : index = 0 ∨ index = 1 := by
        simp at hindex
        omega
      rcases this with h | h
      · exact ⟨chunk 0 [7], by simp [inputs], h ▸ hfirst⟩
      · exact ⟨chunk 1 [8], by simp [inputs], h ▸ hsecond⟩
    · -- The first chunk comes last, so nothing is left when all have come.
      intro before after heq hcovers input hinput
      have ⟨other, hother, hzero⟩ := hcovers 0 (by decide)
      have hfront : inputs.dropLast = before ++ after.dropLast := by
        rw [heq, List.dropLast_append_of_ne_nil (List.ne_nil_of_mem hinput)]
      have hmem : other ∈ inputs.dropLast := hfront ▸ List.mem_append_left _ hother
      simp only [inputs, List.dropLast, List.mem_cons, List.not_mem_nil, or_false] at hmem
      rcases hmem with h | h | h
      · exact absurd (Input.carries_inj (h ▸ hzero) hsecond) (by decide)
      · have ⟨_, _, _, _, _, hchunk⟩ := hzero
        simp [h] at hchunk
      · exact absurd (Input.carries_inj (h ▸ hzero) hsecond) (by decide)
  · apply fragments_reassemble.2
    · rw [List.length_replicate]
      decide
    · rw [List.length_replicate]
      decide

end LoroGateway
