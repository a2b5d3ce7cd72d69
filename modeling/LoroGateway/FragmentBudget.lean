import LoroGateway.Connection
import LoroGateway.Lib.Slots

/-!
# The fragment buffers of a connection

A client chooses the headers and the fragments that it sends, so the buffers
of a connection are only as safe as the checks of `handle_message`.
`Connection.fragments_within_budget` says that for every list of messages and
expirations the buffers stay within the limits of the configuration, and that
the counters of a batch agree with its slots.

It rests on `Change`, which says once what a turn can do to the buffers.
-/

namespace LoroGateway

open ByteCodec

/-! ## Sums over the buffers -/

namespace Fragments

/-- The bytes that the batches may come to hold. -/
def reserved (fragments : Fragments) : Nat :=
  (fragments.entries.map fun entry => entry.2.totalSize.toNat).sum

theorem reservedBytes_eq_some {fragments : Fragments} {bytes : UInt64}
    (h : fragments.reservedBytes = some bytes) : bytes.toNat = fragments.reserved := by
  have hfold : ∀ (entries : List (Sigma fun _ : FragmentKey => FragmentBatch)) (acc : UInt64),
      entries.foldlM (fun sum entry => checkedAddU64 sum entry.2.totalSize) acc = some bytes →
      bytes.toNat = acc.toNat + (entries.map fun entry => entry.2.totalSize.toNat).sum := by
    intro entries
    induction entries with
    | nil =>
      intro acc h
      have hacc : acc = bytes := by simpa using h
      simp [hacc]
    | cons entry entries ih =>
      intro acc h
      rw [List.foldlM_cons, Option.bind_eq_bind, Option.bind_eq_some_iff] at h
      have ⟨sum, hsum, hrest⟩ := h
      have hadd := checkedAddU64_eq_some.1 hsum
      have := ih sum hrest
      simp only [List.map_cons, List.sum_cons]
      omega
  have := hfold fragments.entries 0 h
  unfold reserved
  simpa using this

theorem mem_of_lookup {fragments : Fragments} {key : FragmentKey} {batch : FragmentBatch}
    (h : fragments.lookup key = some batch) : key ∈ fragments := by
  apply AList.lookup_isSome.1
  rw [h]
  rfl

theorem reserved_le_of_sublist {f g : Fragments} (h : f.entries.Sublist g.entries) :
    f.reserved ≤ g.reserved :=
  (h.map _).sum_le_sum fun _ _ => Nat.zero_le _

/-- A batch that takes the place of another of the same size. -/
theorem reserved_insert_of_lookup {fragments : Fragments} {key : FragmentKey}
    {old new : FragmentBatch} (hold : fragments.lookup key = some old)
    (hsize : new.totalSize = old.totalSize) :
    reserved (fragments.insert key new) = fragments.reserved ∧
      (fragments.insert key new).entries.length = fragments.entries.length := by
  obtain ⟨batch, front, back, -, hentries, herase⟩ := List.exists_of_kerase (mem_of_lookup hold)
  have hbatch : batch = old := by
    have hlook : batch ∈ fragments.lookup key := by
      apply AList.mem_lookup_iff.2
      simp [hentries]
    simpa [hold] using hlook.symm
  unfold reserved
  rw [AList.entries_insert, herase, hentries, hbatch]
  simp [hsize]
  omega

theorem reserved_insert_of_notMem {fragments : Fragments} {key : FragmentKey}
    {batch : FragmentBatch} (h : key ∉ fragments) :
    reserved (fragments.insert key batch) = batch.totalSize.toNat + fragments.reserved := by
  unfold reserved
  rw [AList.entries_insert_of_notMem h]
  simp

theorem lookup_retain {fragments : Fragments} {keep : FragmentKey → FragmentBatch → Bool}
    {key : FragmentKey} {batch : FragmentBatch} :
    (fragments.retain keep).lookup key = some batch ↔
      fragments.lookup key = some batch ∧ keep key batch = true := by
  have hleft := AList.mem_lookup_iff (s := fragments.retain keep) (a := key) (b := batch)
  have hright := AList.mem_lookup_iff (s := fragments) (a := key) (b := batch)
  rw [Option.mem_def] at hleft hright
  rw [hleft, hright]
  unfold retain
  simp [List.mem_filter]

theorem lookup_retain_of_keep {fragments : Fragments}
    {keep : FragmentKey → FragmentBatch → Bool} {key : FragmentKey}
    (h : ∀ batch, fragments.lookup key = some batch → keep key batch = true) :
    (fragments.retain keep).lookup key = fragments.lookup key := by
  cases hlookup : fragments.lookup key with
  | some batch => exact lookup_retain.2 ⟨hlookup, h batch hlookup⟩
  | none =>
    apply AList.lookup_eq_none.2
    intro hmem
    have ⟨batch, hbatch⟩ := Option.isSome_iff_exists.1 (AList.lookup_isSome.2 hmem)
    have hold := (lookup_retain.1 hbatch).1
    simp [hlookup] at hold

theorem mem_of_mem_retain {fragments : Fragments} {keep : FragmentKey → FragmentBatch → Bool}
    {key : FragmentKey} (h : key ∈ fragments.retain keep) :
    key ∈ fragments ∧ ∃ batch, keep key batch = true := by
  have ⟨batch, hlookup⟩ := Option.isSome_iff_exists.1 (AList.lookup_isSome.2 h)
  have ⟨hold, hkeep⟩ := lookup_retain.1 hlookup
  exact ⟨mem_of_lookup hold, batch, hkeep⟩

end Fragments

/-! ## Slots -/

namespace FragmentBatch

/-- The chunks that arrived, in the order of their slots. -/
def filled (batch : FragmentBatch) : List Bytes := batch.chunks.reduceOption

/-- The batch after one more chunk. -/
def fill (batch : FragmentBatch) (index : Nat) (fragment : Bytes) (receivedBytes : UInt64) :
    FragmentBatch :=
  { batch with
    chunks := batch.chunks.set index (some fragment)
    received := saturatingAdd batch.received 1
    receivedBytes }

/-- The counters of a batch agree with its slots, and the batch is one that
the configuration allows.  It is not complete: a complete batch is not kept. -/
structure Sound (config : ServerConfig) (batch : FragmentBatch) : Prop where
  slots_pos : 1 ≤ batch.chunks.length
  slots_le : batch.chunks.length ≤ config.maxFragmentsPerBatch.toNat
  received : batch.received = batch.filled.length
  missing : batch.received < batch.chunks.length
  receivedBytes : batch.receivedBytes.toNat = (batch.filled.map List.length).sum
  bytes_le : batch.receivedBytes ≤ batch.totalSize
  total_le : batch.totalSize ≤ config.maxReassembledBytes

theorem filled_fill {batch : FragmentBatch} {index : Nat} (fragment : Bytes)
    (receivedBytes : UInt64) (hslot : batch.chunks[index]? = some none) :
    (batch.fill index fragment receivedBytes).filled.length = batch.filled.length + 1 ∧
      ((batch.fill index fragment receivedBytes).filled.map List.length).sum =
        (batch.filled.map List.length).sum + fragment.length := by
  have ⟨front, back, hold, hnew⟩ := Slots.reduceOption_set hslot fragment
  unfold filled fill
  rw [hold, hnew]
  constructor
  · simp
    omega
  · simp
    omega

theorem saturatingAdd_of_lt {a b : Nat} (h : a < b) (hb : b < wordSize) :
    saturatingAdd a 1 = a + 1 := by
  unfold saturatingAdd
  omega

theorem Sound.fill {config : ServerConfig} {batch : FragmentBatch} {index : Nat}
    {fragment : Bytes} {receivedBytes : UInt64} (h : batch.Sound config)
    (hslot : batch.chunks[index]? = some none)
    (hbytes : receivedBytes.toNat = batch.receivedBytes.toNat + fragment.length)
    (hle : receivedBytes ≤ batch.totalSize)
    (hmissing : (batch.fill index fragment receivedBytes).received ≠ batch.chunks.length) :
    (batch.fill index fragment receivedBytes).Sound config := by
  have hfilled := filled_fill fragment receivedBytes hslot
  have hlength : (batch.fill index fragment receivedBytes).chunks.length = batch.chunks.length :=
    List.length_set
  have hword : batch.chunks.length < wordSize :=
    lt_of_le_of_lt h.slots_le config.maxFragmentsPerBatch.toNat_lt
  have hnext : (batch.fill index fragment receivedBytes).received = batch.received + 1 :=
    saturatingAdd_of_lt h.missing hword
  have hmissed := h.missing
  constructor
  · rw [hlength]
    exact h.slots_pos
  · rw [hlength]
    exact h.slots_le
  · rw [hnext, hfilled.1, h.received]
  · omega
  · show receivedBytes.toNat = _
    rw [hfilled.2, hbytes, h.receivedBytes]
  · exact hle
  · exact h.total_le

end FragmentBatch

/-! ## What a turn does to the buffers -/

/-- The batch that a header is for. -/
def Input.headerKey : Input → Option FragmentKey
  | .message _ (.docUpdateFragmentHeader _ roomId batchId _ _) => some { roomId, batchId }
  | _ => none

/-- The batch that a fragment is for. -/
def Input.fragmentKey : Input → Option FragmentKey
  | .message _ (.docUpdateFragment _ roomId batchId _ _) => some { roomId, batchId }
  | _ => none

namespace Connection

/-- The batch of an accepted header. -/
def opened (s : Session) (now : Nat) (fragmentCount totalSizeBytes : UInt64) : FragmentBatch where
  totalSize := totalSizeBytes
  chunks := List.replicate fragmentCount.toNat none
  received := 0
  receivedBytes := 0
  deadline := now + s.config.fragmentTimeout

section Turns

variable (s : Session) (c : Connection) (crdt : CrdtType) (roomId : String) (batchId : BatchId)

/-- What a header leads to. -/
inductive HeaderTurn (fragmentCount totalSizeBytes : UInt64) : Connection × List Effect → Prop
  | refused (status : UpdateStatusCode) (hstatus : status ≠ .ok)
      (h : crdt ≠ .loro ∨ roomId ∉ c.joined ∨ ¬ headerFits s.config fragmentCount totalSizeBytes) :
      HeaderTurn fragmentCount totalSizeBytes (c, [.ack crdt roomId batchId status])
  | repeated : HeaderTurn fragmentCount totalSizeBytes (c, [])
  | conflict : HeaderTurn fragmentCount totalSizeBytes
      (c.remove { roomId, batchId }, [.ack crdt roomId batchId .invalidUpdate])
  | full (status : UpdateStatusCode) (hstatus : status ≠ .ok)
      (hkey : { roomId, batchId } ∉ c.fragments) :
      HeaderTurn fragmentCount totalSizeBytes (c, [.ack crdt roomId batchId status])
  | opened (now : Nat) (hjoined : roomId ∈ c.joined) (hkey : { roomId, batchId } ∉ c.fragments)
      (hfits : headerFits s.config fragmentCount totalSizeBytes)
      (hcount : c.fragments.entries.length < s.config.maxFragmentBatches)
      (hreserved : c.fragments.reserved + totalSizeBytes.toNat ≤
        s.config.maxFragmentBytesPerConnection.toNat) :
      HeaderTurn fragmentCount totalSizeBytes
        (c.put { roomId, batchId } (opened s now fragmentCount totalSizeBytes), [])

/-- What a fragment leads to. -/
inductive FragmentTurn (index : UInt64) (fragment : Bytes) : Connection × List Effect → Prop
  | denied (h : crdt ≠ .loro ∨ roomId ∉ c.joined) :
      FragmentTurn index fragment (c, [.ack crdt roomId batchId .permissionDenied])
  | unknown (hlookup : c.fragments.lookup { roomId, batchId } = none) :
      FragmentTurn index fragment (c, [.ack crdt roomId batchId .fragmentTimeout])
  | outside {batch : FragmentBatch} (hlookup : c.fragments.lookup { roomId, batchId } = some batch)
      (hindex : batch.chunks.length ≤ index.toNat) :
      FragmentTurn index fragment (c, [.ack crdt roomId batchId .invalidUpdate])
  | repeated : FragmentTurn index fragment (c, [])
  | dropped (status : UpdateStatusCode) (hstatus : status ≠ .ok) :
      FragmentTurn index fragment
        (c.remove { roomId, batchId }, [.ack crdt roomId batchId status])
  | filled {batch : FragmentBatch} {receivedBytes : UInt64}
      (hlookup : c.fragments.lookup { roomId, batchId } = some batch)
      (hslot : batch.chunks[index.toNat]? = some none)
      (hbytes : receivedBytes.toNat = batch.receivedBytes.toNat + fragment.length)
      (hle : receivedBytes ≤ batch.totalSize)
      (hmissing : (batch.fill index.toNat fragment receivedBytes).received ≠
        batch.chunks.length) :
      FragmentTurn index fragment
        (c.put { roomId, batchId } (batch.fill index.toNat fragment receivedBytes), [])
  | completed (batch : FragmentBatch) :
      FragmentTurn index fragment
        (c.remove { roomId, batchId }, assemble s { roomId, batchId } batch)

end Turns

variable {s : Session} {c : Connection} {input : Input}

theorem fragmentHeader_turn (now : Nat) (crdt : CrdtType) (roomId : String) (batchId : BatchId)
    (fragmentCount totalSizeBytes : UInt64) :
    HeaderTurn s c crdt roomId batchId fragmentCount totalSizeBytes
      (c.fragmentHeader s now crdt roomId batchId fragmentCount totalSizeBytes) := by
  unfold fragmentHeader
  by_cases hdenied : crdt ≠ .loro ∨ roomId ∉ c.joined
  · rw [if_pos hdenied]
    exact .refused _ (by decide) (hdenied.imp_right Or.inl)
  rw [if_neg hdenied]
  by_cases hfits : headerFits s.config fragmentCount totalSizeBytes
  · rw [if_neg (not_not.2 hfits)]
    cases hlookup : c.fragments.lookup { roomId, batchId } with
    | some existing =>
      simp only [hlookup]
      split_ifs
      · exact .repeated
      · exact .conflict
    | none =>
      have hkey := AList.lookup_eq_none.1 hlookup
      simp only [hlookup]
      split_ifs with hcount hreserved
      · exact .full _ (by decide) hkey
      · exact .full _ (by decide) hkey
      · have hjoined : roomId ∈ c.joined := by
          by_contra hout
          exact hdenied (Or.inr hout)
        apply HeaderTurn.opened now hjoined hkey hfits (not_le.1 hcount)
        cases hbytes : c.fragments.reservedBytes.bind (checkedAddU64 · totalSizeBytes) with
        | none => simp [hbytes] at hreserved
        | some bytes =>
          have ⟨sum, hsum, hadd⟩ := Option.bind_eq_some_iff.1 hbytes
          have htotal := checkedAddU64_eq_some.1 hadd
          rw [← Fragments.reservedBytes_eq_some hsum]
          have hle : bytes ≤ s.config.maxFragmentBytesPerConnection := by
            simpa [hbytes] using hreserved
          have := UInt64.le_iff_toNat_le.1 hle
          omega
  · rw [if_pos hfits]
    exact .refused _ (by decide) (Or.inr (Or.inr hfits))

theorem remove_put (key : FragmentKey) (batch : FragmentBatch) :
    (c.put key batch).remove key = c.remove key := by
  unfold put remove
  congr 1
  apply AList.ext
  show List.kerase key (c.fragments.insert key batch).entries = _
  exact List.kerase_cons_eq rfl

theorem fragment_turn (crdt : CrdtType) (roomId : String) (batchId : BatchId) (index : UInt64)
    (bytes : Bytes) :
    FragmentTurn s c crdt roomId batchId index bytes
      (c.fragment s crdt roomId batchId index bytes) := by
  unfold fragment
  by_cases hdenied : crdt ≠ .loro ∨ roomId ∉ c.joined
  · rw [if_pos hdenied]
    exact .denied hdenied
  rw [if_neg hdenied]
  cases hlookup : c.fragments.lookup { roomId, batchId } with
  | none =>
    simp only [hlookup]
    exact .unknown hlookup
  | some batch =>
    simp only [hlookup]
    cases hslot : batch.chunks[index.toNat]? with
    | none => exact .outside hlookup (List.getElem?_eq_none_iff.1 hslot)
    | some slot =>
      cases hlength : u64OfUsize bytes.length with
      | none => exact .dropped _ (by decide)
      | some fragmentLen =>
        cases slot with
        | some existing =>
          simp only
          split_ifs
          · exact .dropped _ (by decide)
          · exact .repeated
        | none =>
          simp only
          cases hadd : checkedAddU64 batch.receivedBytes fragmentLen with
          | none => exact .dropped _ (by decide)
          | some receivedBytes =>
            simp only
            split_ifs with hover
            · exact .dropped _ (by decide)
            · have hword := u64OfUsize_eq_some.1 hlength
              have htotal := checkedAddU64_eq_some.1 hadd
              show FragmentTurn s c crdt roomId batchId index bytes
                (complete s (c.put _ (batch.fill index.toNat bytes receivedBytes)) _
                  (batch.fill index.toNat bytes receivedBytes))
              unfold complete
              have hslots : (batch.fill index.toNat bytes receivedBytes).chunks.length =
                  batch.chunks.length := List.length_set
              split_ifs with hdone
              · rw [remove_put]
                exact .completed _
              · apply FragmentTurn.filled hlookup hslot _ (UInt64.not_lt.1 hover)
                · rwa [← hslots]
                · omega

/-- The connections that one turn can lead to. -/
inductive Change (s : Session) (c : Connection) (input : Input) : Connection → Prop
  | same : Change s c input c
  | join (roomId : String) : Change s c input { c with joined := insert roomId c.joined }
  | remove {key : FragmentKey}
      (hinput : input.headerKey = some key ∨ input.fragmentKey = some key) :
      Change s c input (c.remove key)
  | retain {now : Nat} {roomId : String} (hinput : input = .message now (.leave .loro roomId)) :
      Change s c input
      { joined := c.joined.erase roomId
        fragments := c.fragments.retain fun key _ => key.roomId ≠ roomId }
  | expire {now : Nat} (hinput : input = .expire now) : Change s c input (c.expireFragments now).1
  | opened {key : FragmentKey} {now : Nat} {fragmentCount totalSizeBytes : UInt64}
      (hinput : input.headerKey = some key) (hjoined : key.roomId ∈ c.joined)
      (hkey : key ∉ c.fragments) (hfits : headerFits s.config fragmentCount totalSizeBytes)
      (hcount : c.fragments.entries.length < s.config.maxFragmentBatches)
      (hreserved : c.fragments.reserved + totalSizeBytes.toNat ≤
        s.config.maxFragmentBytesPerConnection.toNat) :
      Change s c input (c.put key (Connection.opened s now fragmentCount totalSizeBytes))
  | filled {key : FragmentKey} {batch : FragmentBatch} {index : Nat} {fragment : Bytes}
      {receivedBytes : UInt64} (hinput : input.fragmentKey = some key)
      (hlookup : c.fragments.lookup key = some batch) (hslot : batch.chunks[index]? = some none)
      (hbytes : receivedBytes.toNat = batch.receivedBytes.toNat + fragment.length)
      (hle : receivedBytes ≤ batch.totalSize)
      (hmissing : (batch.fill index fragment receivedBytes).received ≠ batch.chunks.length) :
      Change s c input (c.put key (batch.fill index fragment receivedBytes))

theorem fragmentHeader_change {now : Nat} {crdt : CrdtType} {roomId : String} {batchId : BatchId}
    {fragmentCount totalSizeBytes : UInt64}
    (hinput : input.headerKey = some { roomId, batchId }) :
    Change s c input
      (c.fragmentHeader s now crdt roomId batchId fragmentCount totalSizeBytes).1 := by
  have hturn := fragmentHeader_turn (s := s) (c := c) now crdt roomId batchId fragmentCount
    totalSizeBytes
  generalize c.fragmentHeader s now crdt roomId batchId fragmentCount totalSizeBytes = turn at *
  cases hturn with
  | refused _ _ _ => exact .same
  | repeated => exact .same
  | conflict => exact .remove (Or.inl hinput)
  | full _ _ _ => exact .same
  | opened now hjoined hkey hfits hcount hreserved =>
    exact .opened hinput hjoined hkey hfits hcount hreserved

theorem fragment_change {crdt : CrdtType} {roomId : String} {batchId : BatchId} {index : UInt64}
    {bytes : Bytes} (hinput : input.fragmentKey = some { roomId, batchId }) :
    Change s c input (c.fragment s crdt roomId batchId index bytes).1 := by
  have hturn := fragment_turn (s := s) (c := c) crdt roomId batchId index bytes
  generalize c.fragment s crdt roomId batchId index bytes = turn at *
  cases hturn with
  | denied _ => exact .same
  | unknown _ => exact .same
  | outside _ _ => exact .same
  | repeated => exact .same
  | dropped _ _ => exact .remove (Or.inr hinput)
  | filled hlookup hslot hbytes hle hmissing =>
    exact .filled hinput hlookup hslot hbytes hle hmissing
  | completed _ => exact .remove (Or.inr hinput)

/-- The inversion of `step`. -/
theorem step_change (input : Input) : Change s c input (c.step s input).1 := by
  cases input with
  | expire now => exact .expire rfl
  | message now message =>
    cases message with
    | joinRequest crdt roomId version =>
      show Change s c _ (c.joinRequest s crdt roomId version).1
      unfold joinRequest
      split_ifs
      · exact .same
      · exact .join roomId
    | docUpdate crdt roomId updates batchId =>
      show Change s c _ (c.docUpdate s crdt roomId updates batchId).1
      unfold docUpdate
      split_ifs
      · exact .same
      · exact .same
    | docUpdateFragmentHeader crdt roomId batchId count total =>
      exact fragmentHeader_change rfl
    | docUpdateFragment crdt roomId batchId index bytes =>
      exact fragment_change rfl
    | leave crdt roomId =>
      show Change s c _ (c.leave s crdt roomId).1
      unfold leave
      split_ifs with hleft
      · exact .retain (by rw [hleft.1])
      · exact .same
    | ignored => exact .same

/-! ## The budget -/

/-- The fragments that a connection buffers are within the limits of the
configuration. -/
structure WithinBudget (config : ServerConfig) (c : Connection) : Prop where
  batches : c.fragments.entries.length ≤ config.maxFragmentBatches
  reserved : c.fragments.reserved ≤ config.maxFragmentBytesPerConnection.toNat
  sound : ∀ key batch, c.fragments.lookup key = some batch → batch.Sound config
  joined : ∀ key ∈ c.fragments, key.roomId ∈ c.joined

theorem opened_sound {now : Nat} {fragmentCount totalSizeBytes : UInt64}
    (h : headerFits s.config fragmentCount totalSizeBytes) :
    (Connection.opened s now fragmentCount totalSizeBytes).Sound s.config := by
  have ⟨hpos, hle, _, htotal⟩ := h
  have hcount : 0 < fragmentCount.toNat := by
    apply Nat.pos_of_ne_zero
    intro hzero
    exact hpos (UInt64.toNat_inj.1 hzero)
  constructor
  · simpa [opened] using Nat.succ_le_of_lt hcount
  · simpa [opened] using UInt64.le_iff_toNat_le.1 hle
  · simp [opened, FragmentBatch.filled]
  · simpa [opened] using hcount
  · simp [opened, FragmentBatch.filled]
  · simp [opened]
  · exact htotal

theorem WithinBudget.of_sublist {next : Connection} (h : c.WithinBudget s.config)
    (hsub : next.fragments.entries.Sublist c.fragments.entries)
    (hjoined : ∀ key ∈ next.fragments, key.roomId ∈ next.joined) :
    next.WithinBudget s.config := by
  constructor
  · exact hsub.length_le.trans h.batches
  · exact (Fragments.reserved_le_of_sublist hsub).trans h.reserved
  · intro key batch hlookup
    have hmem := hsub.subset (AList.mem_lookup_iff.1 hlookup)
    exact h.sound key batch (AList.mem_lookup_iff.2 hmem)
  · exact hjoined

theorem WithinBudget.put {key : FragmentKey} {batch : FragmentBatch}
    (h : c.WithinBudget s.config) (hsound : batch.Sound s.config) (hroom : key.roomId ∈ c.joined)
    (hcount : (c.put key batch).fragments.entries.length ≤ s.config.maxFragmentBatches)
    (hreserved : (c.put key batch).fragments.reserved ≤
      s.config.maxFragmentBytesPerConnection.toNat) :
    (c.put key batch).WithinBudget s.config := by
  constructor
  · exact hcount
  · exact hreserved
  · intro other found hlookup
    by_cases hother : other = key
    · subst hother
      have hfound : some batch = some found := (AList.lookup_insert _).symm.trans hlookup
      rwa [← Option.some.inj hfound]
    · exact h.sound other found ((AList.lookup_insert_ne hother).symm.trans hlookup)
  · intro other hother
    rcases (AList.mem_insert _).1 hother with heq | hold
    · rwa [heq]
    · exact h.joined other hold

theorem WithinBudget.change {next : Connection} (h : c.WithinBudget s.config)
    (hchange : Change s c input next) : next.WithinBudget s.config := by
  cases hchange with
  | same => exact h
  | join roomId =>
    have hjoined : ∀ key ∈ c.fragments, key.roomId ∈ insert roomId c.joined := by
      intro key hkey
      exact Finset.mem_insert_of_mem (h.joined key hkey)
    exact ⟨h.batches, h.reserved, h.sound, hjoined⟩
  | remove _ =>
    apply h.of_sublist (List.kerase_sublist _ _)
    intro other hother
    exact h.joined other (AList.mem_erase.1 hother).2
  | retain _ =>
    apply h.of_sublist List.filter_sublist
    intro key hkey
    have ⟨hold, _, hkeep⟩ := Fragments.mem_of_mem_retain hkey
    exact Finset.mem_erase.2 ⟨of_decide_eq_true hkeep, h.joined key hold⟩
  | expire _ =>
    apply h.of_sublist List.filter_sublist
    intro key hkey
    exact h.joined key (Fragments.mem_of_mem_retain hkey).1
  | opened _ hjoined hkey hfits hcount hreserved =>
    apply h.put (opened_sound hfits) hjoined
    · show (c.fragments.insert _ _).entries.length ≤ _
      rw [AList.entries_insert_of_notMem hkey]
      exact hcount
    · show Fragments.reserved (c.fragments.insert _ _) ≤ _
      rw [Fragments.reserved_insert_of_notMem hkey, Nat.add_comm]
      exact hreserved
  | filled _ hlookup hslot hbytes hle hmissing =>
    have hsound := h.sound _ _ hlookup
    have hroom := h.joined _ (Fragments.mem_of_lookup hlookup)
    have hsums := Fragments.reserved_insert_of_lookup hlookup rfl
    apply h.put (hsound.fill hslot hbytes hle hmissing) hroom
    · exact hsums.2.trans_le h.batches
    · exact hsums.1.trans_le h.reserved

theorem WithinBudget.run (h : c.WithinBudget s.config) (inputs : List Input) :
    (c.run s inputs).1.WithinBudget s.config := by
  induction inputs generalizing c with
  | nil => exact h
  | cons input inputs ih => exact ih (h.change (step_change input))

/-- Whatever a client sends and whenever it sends it, the buffers of its
connection stay within their budget. -/
theorem fragments_within_budget (s : Session) (inputs : List Input) :
    (new.run s inputs).1.WithinBudget s.config := by
  apply WithinBudget.run
  constructor
  · exact Nat.zero_le _
  · exact Nat.zero_le _
  · intro key batch hlookup
    simp [new] at hlookup
  · intro key hkey
    simp [new] at hkey

end Connection

end LoroGateway
