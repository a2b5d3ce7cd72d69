import LoroGateway.MessageReader

/-!
# The grammar of a message

* `VarBytes`, `UpdateList`, `Body` and `Message` are the language of the messages
  within the limits.
* `Reader.parses_varBytes`, `parses_readUpdates`, `finishes_readOptional` and
  `finishes_readBody` say of each part of the precheck what it accepts.
* `precheck_exact` puts them together.
-/

namespace LoroGateway

open ByteCodec Leb128

/-- A byte field: the length of the content, then the content. -/
def VarBytes (content field : Bytes) : Prop :=
  ∃ n header, Encodes n header ∧ n.toNat = content.length ∧ field = header ++ content

inductive UpdateList : List Bytes → Bytes → Prop
  | nil : UpdateList [] []
  | cons {content field contents bytes} : VarBytes content field → UpdateList contents bytes →
      UpdateList (content :: contents) (field ++ bytes)

/-- The bytes of some updates. -/
def updatesTotal (contents : List Bytes) : Nat := (contents.map List.length).sum

/-- What stands behind the type of a message. -/
inductive Body (limits : ProtocolLimits) : UInt8 → Bytes → Prop
  | joinRequest {a b field field'} : VarBytes a field → VarBytes b field' →
      Body limits 0x00 (field ++ field')
  | joinResponse {a b c field field' field''} : VarBytes a field → VarBytes b field' →
      VarBytes c field'' → Body limits 0x01 (field ++ (field' ++ field''))
  | joinError {code a field} : VarBytes a field → Body limits 0x02 (code :: field)
  | joinErrorMore {code a b field field'} : code = 0x01 ∨ code = 0x7f → VarBytes a field →
      VarBytes b field' → Body limits 0x02 (code :: (field ++ field'))
  | docUpdate {count header contents bytes batch} : Encodes count header →
      count.toNat = contents.length → contents.length ≤ limits.maxUpdates →
      UpdateList contents bytes → (∀ content ∈ contents, content.length ≤ limits.maxUpdateBytes) →
      updatesTotal contents ≤ limits.maxUpdatesBytes → batch.length = 8 →
      Body limits 0x03 (header ++ (bytes ++ batch))
  | fragmentHeader {batch m n number number'} : batch.length = 8 → Encodes m number →
      Encodes n number' → Body limits 0x04 (batch ++ (number ++ number'))
  | fragment {batch n number a field} : batch.length = 8 → Encodes n number → VarBytes a field →
      Body limits 0x05 (batch ++ (number ++ field))
  | roomError {code a field} : VarBytes a field → Body limits 0x06 (code :: field)
  | leave : Body limits 0x07 []
  | ack {bytes} : bytes.length = 9 → Body limits 0x08 bytes

/-- A message within the limits. -/
def Message [LoroProtocol] (limits : ProtocolLimits) (input : Bytes) : Prop :=
  input.length ≤ min limits.maxMessageBytes LoroProtocol.maxMessageSize.toNat ∧
  ∃ tag room field messageType body, tag.length = 4 ∧ VarBytes room field ∧
    room.length ≤ limits.maxRoomIdBytes ∧ Body limits messageType body ∧
    input = tag ++ (field ++ messageType :: body)

namespace Reader

theorem parses_varLen :
    Parses feed Safe varLen (fun len header => ∃ n, Encodes n header ∧ len = n.toNat) := by
  refine (parses_uleb128.bind fun n => Parses.pure n.toNat).of_iff fun len _ _ => ?_
  constructor
  · intro ⟨n, header, back, hencodes, ⟨hlen, hback⟩, hbytes⟩
    subst hback
    rw [List.append_nil] at hbytes
    exact ⟨n, hbytes ▸ hencodes, hlen⟩
  · intro ⟨n, hencodes, hlen⟩
    exact ⟨n, _, [], hencodes, ⟨hlen, rfl⟩, (List.append_nil _).symm⟩

theorem parses_varBytes : Parses feed Safe varBytes VarBytes := by
  refine (parses_varLen.bind parses_take).of_iff fun content _ _ => ?_
  constructor
  · intro ⟨len, header, back, ⟨n, hencodes, hlen⟩, ⟨hcontent, hlength⟩, hbytes⟩
    subst hcontent
    exact ⟨n, header, hencodes, by rw [hlength, hlen], hbytes⟩
  · intro ⟨n, header, hencodes, hlength, hbytes⟩
    exact ⟨n.toNat, header, content, ⟨n, hencodes, rfl⟩, ⟨rfl, hlength.symm⟩, hbytes⟩

end Reader

section Parts

open Reader

variable {limits : ProtocolLimits}

theorem parses_enforceLimit {α : Type} {m : Reading α} {accepts : α → Bytes → Prop}
    (resource : String) (actual limit : Nat) (hm : Parses feed Safe m accepts) :
    Parses feed Safe (Precheck.enforceLimit resource actual limit >>= fun _ => m)
      (fun a bytes => actual ≤ limit ∧ accepts a bytes) :=
  Parses.guard (safe_error _) hm

/-! ## The updates -/

/-- What the loop over the updates accepts behind `before` bytes of updates. -/
structure UpdatesFrom (limits : ProtocolLimits) (count before : Nat) (contents : List Bytes)
    (bytes : Bytes) : Prop where
  list : UpdateList contents bytes
  count_eq : contents.length = count
  individual : ∀ content ∈ contents, content.length ≤ limits.maxUpdateBytes
  aggregate : contents = [] ∨
    before + updatesTotal contents ≤ limits.maxUpdatesBytes ∧
    before + updatesTotal contents < wordSize

theorem updatesTotal_cons (content : Bytes) (contents : List Bytes) :
    updatesTotal (content :: contents) = content.length + updatesTotal contents := rfl

/-- One turn of the loop. -/
theorem updatesFrom_succ {count before : Nat} {bytes : Bytes} :
    (∃ contents, UpdatesFrom limits (count + 1) before contents bytes) ↔
      ∃ content field tail, VarBytes content field ∧ content.length ≤ limits.maxUpdateBytes ∧
        before + content.length < wordSize ∧
        before + content.length ≤ limits.maxUpdatesBytes ∧
        (∃ contents, UpdatesFrom limits count (before + content.length) contents tail) ∧
        bytes = field ++ tail := by
  constructor
  · intro ⟨contents, hlist, hcount, hindividual, haggregate⟩
    cases hlist with
    | nil => cases hcount
    | @cons content field contents tail hfield hlist =>
      have hbounds := haggregate.resolve_left (List.cons_ne_nil content contents)
      rw [updatesTotal_cons, ← Nat.add_assoc] at hbounds
      refine ⟨content, field, tail, hfield, hindividual content List.mem_cons_self, by omega,
        by omega, ⟨contents, hlist, Nat.succ.inj hcount, ?_, .inr hbounds⟩, rfl⟩
      exact fun other hmem => hindividual other (List.mem_cons_of_mem content hmem)
  · rintro ⟨content, field, tail, hfield, hlength, hword, hmax, ⟨contents, hfrom⟩, rfl⟩
    refine ⟨content :: contents, .cons hfield hfrom.list, congrArg (· + 1) hfrom.count_eq, ?_,
      .inr ?_⟩
    · exact List.forall_mem_cons.2 ⟨hlength, hfrom.individual⟩
    · rw [updatesTotal_cons, ← Nat.add_assoc]
      rcases hfrom.aggregate with hnil | hbounds
      · rw [hnil]
        exact ⟨hmax, hword⟩
      · exact hbounds

theorem parses_readUpdates_from (count before : Nat) :
    Parses feed Safe (readUpdates limits count before)
      (fun _ bytes => ∃ contents, UpdatesFrom limits count before contents bytes) := by
  induction count generalizing before with
  | zero =>
    refine (Parses.pure ()).of_iff fun _ _ _ => ?_
    constructor
    · rintro ⟨_, rfl⟩
      exact ⟨[], .nil, rfl, List.forall_mem_nil _, .inl rfl⟩
    · rintro ⟨contents, hlist, hcount, _, _⟩
      cases hlist with
      | nil => exact ⟨rfl, rfl⟩
      | cons => cases hcount
  | succ count ih =>
    have hturn (len : Nat) := parses_enforceLimit "individual update bytes" len
      limits.maxUpdateBytes (Parses.guardSome (checkedAdd before len) (safe_error .lengthOverflow)
        fun total => parses_enforceLimit "aggregate update bytes" total limits.maxUpdatesBytes
          ((parses_take len).bind fun _ => ih total))
    refine (parses_varLen.bind hturn).of_iff fun _ _ _ => ?_
    rw [updatesFrom_succ]
    constructor
    · rintro ⟨_, header, _, ⟨n, hencodes, rfl⟩, ⟨hlength, _, hadd, hmax, content, _, tail,
        ⟨rfl, hcontent⟩, hfrom, rfl⟩, rfl⟩
      obtain ⟨rfl, hword⟩ := checkedAdd_eq_some.1 hadd
      rw [← hcontent] at hlength hword hmax hfrom
      exact ⟨content, header ++ content, tail, ⟨n, header, hencodes, hcontent.symm, rfl⟩, hlength,
        hword, hmax, hfrom, (List.append_assoc ..).symm⟩
    · rintro ⟨content, _, tail, ⟨n, header, hencodes, hcontent, rfl⟩, hlength, hword, hmax, hfrom,
        rfl⟩
      rw [← hcontent] at hlength hword hmax hfrom
      exact ⟨n.toNat, header, content ++ tail, ⟨n, hencodes, rfl⟩, ⟨hlength, _,
        checkedAdd_eq_some.2 ⟨rfl, hword⟩, hmax, content, content, tail, ⟨rfl, hcontent.symm⟩,
        hfrom, rfl⟩, List.append_assoc ..⟩

/-- An update list is at least as long as its updates. -/
theorem UpdateList.total_le {contents : List Bytes} {bytes : Bytes}
    (h : UpdateList contents bytes) : updatesTotal contents ≤ bytes.length := by
  induction h with
  | nil => exact Nat.le_refl 0
  | cons hfield _ ih =>
    obtain ⟨_, _, _, _, rfl⟩ := hfield
    rw [updatesTotal_cons, List.length_append, List.length_append]
    omega

theorem parses_readUpdates (count : Nat) :
    Parses feed Safe (readUpdates limits count 0) (fun _ bytes => ∃ contents,
      UpdateList contents bytes ∧ contents.length = count ∧
      (∀ content ∈ contents, content.length ≤ limits.maxUpdateBytes) ∧
      updatesTotal contents ≤ limits.maxUpdatesBytes) := by
  refine (parses_readUpdates_from count 0).of_iff fun _ hready heats => ?_
  constructor
  · rintro ⟨contents, hlist, hcount, hindividual, haggregate⟩
    refine ⟨contents, hlist, hcount, hindividual, ?_⟩
    rcases haggregate with rfl | hbounds
    · exact Nat.zero_le _
    · omega
  · rintro ⟨contents, hlist, hcount, hindividual, haggregate⟩
    refine ⟨contents, hlist, hcount, hindividual, .inr ?_⟩
    -- the updates are in the input, so their sum is a length
    have htotal := hlist.total_le
    have hbytes := heats.1.length_le
    have hsized := hready.sized
    rw [length_rest] at hbytes
    omega

/-! ## The body -/

theorem readOptional_of_ne {code wanted : UInt8} (h : code ≠ wanted) :
    readOptional code wanted = pure () := by
  unfold readOptional
  simp only [h, false_and, if_false]
  rfl

theorem run_readOptional (code : UInt8) (r : Reader) :
    (readOptional code code).run r =
      if r.isEmpty then .ok ((), r) else (varBytes >>= fun _ => pure () : Reading Unit).run r := by
  unfold readOptional
  rw [StateT.run_bind, StateT.run_get, pure_bind]
  by_cases hempty : r.isEmpty
  · rw [if_pos hempty, if_neg (fun h => h.2 hempty)]
    rfl
  · rw [if_neg hempty, if_pos ⟨rfl, hempty⟩]

/-- The reader is at the end. -/
abbrev Done (r : Reader) : Prop := r.isEmpty

theorem finishes_readOptional (code : UInt8) :
    Finishes feed Done Done Safe (readOptional code code)
      (fun bytes => bytes = [] ∨ ∃ content, VarBytes content bytes) where
  ok_iff := by
    intro r hr
    rw [run_readOptional]
    by_cases hempty : r.isEmpty
    · rw [if_pos hempty]
      constructor
      · intro _
        exact ⟨[], r, .inl rfl, feed.eats_nil.2 rfl, hempty⟩
      · intro _
        exact ⟨(), r, rfl, hempty⟩
    · rw [if_neg hempty, (Finishes.of_parses parses_varBytes.discard).ok_iff hr]
      constructor
      · intro ⟨bytes, r', ⟨_, hfield⟩, heats, hdone⟩
        exact ⟨bytes, r', .inr hfield, heats, hdone⟩
      · rintro ⟨bytes, r', rfl | hfield, heats, hdone⟩
        · rw [feed.eats_nil.1 heats] at hdone
          exact absurd hdone hempty
        · exact ⟨bytes, r', ⟨(), hfield⟩, heats, hdone⟩
  errors := by
    intro r stop hr heq
    rw [run_readOptional] at heq
    split_ifs at heq
    exact parses_varBytes.discard.errors hr heq

/-- The two optional fields of a join error are one. -/
theorem readOptional_twice (code : UInt8) :
    (readOptional code 0x01 >>= fun _ => readOptional code 0x7f) =
      if code = 0x01 ∨ code = 0x7f then readOptional code code else pure () := by
  by_cases hfirst : code = 0x01
  · subst hfirst
    rw [if_pos (.inl rfl), readOptional_of_ne (by decide : (0x01 : UInt8) ≠ 0x7f)]
    exact bind_pure _
  · rw [readOptional_of_ne hfirst, pure_bind]
    by_cases hsecond : code = 0x7f
    · rw [if_pos (.inr hsecond), hsecond]
    · rw [readOptional_of_ne hsecond, if_neg (not_or.2 ⟨hfirst, hsecond⟩)]

theorem finishes_optional (code : UInt8) :
    Finishes feed Done Done Safe (readOptional code 0x01 >>= fun _ => readOptional code 0x7f)
      (fun bytes => bytes = [] ∨
        (code = 0x01 ∨ code = 0x7f) ∧ ∃ content, VarBytes content bytes) := by
  rw [readOptional_twice]
  by_cases hcode : code = 0x01 ∨ code = 0x7f
  · rw [if_pos hcode]
    exact (finishes_readOptional code).of_iff fun bytes => by simp [hcode]
  · rw [if_neg hcode]
    exact (Finishes.of_parses (Parses.pure ())).of_iff fun bytes => by simp [hcode]

theorem finishes_readBody (messageType : UInt8) :
    Finishes feed Done Done Safe (readBody limits messageType) (Body limits messageType) := by
  unfold readBody
  split
  · refine (Finishes.bind parses_varBytes fun _ =>
      .of_parses parses_varBytes.discard).of_iff fun _ => ⟨?_, ?_⟩
    · rintro ⟨_, _, _, ha, ⟨_, _, hb⟩, rfl⟩
      exact .joinRequest ha hb
    · intro h
      cases h with
      | joinRequest ha hb => exact ⟨_, _, _, ha, ⟨(), _, hb⟩, rfl⟩
  · refine (Finishes.bind parses_varBytes fun _ => Finishes.bind parses_varBytes fun _ =>
      .of_parses parses_varBytes.discard).of_iff fun _ => ⟨?_, ?_⟩
    · rintro ⟨_, _, _, ha, ⟨_, _, _, hb, ⟨_, _, hc⟩, rfl⟩, rfl⟩
      exact .joinResponse ha hb hc
    · intro h
      cases h with
      | joinResponse ha hb hc => exact ⟨_, _, _, ha, ⟨_, _, _, hb, ⟨(), _, hc⟩, rfl⟩, rfl⟩
  · refine (Finishes.bind parses_byte fun code => Finishes.bind parses_varBytes fun _ =>
      finishes_optional code).of_iff fun _ => ⟨?_, ?_⟩
    · rintro ⟨code, _, _, rfl, ⟨_, field, _, ha, rfl | ⟨hcode, _, hb⟩, rfl⟩, rfl⟩
      · rw [List.append_nil]
        exact .joinError ha
      · rw [List.singleton_append]
        exact .joinErrorMore hcode ha hb
    · intro h
      cases h with
      | @joinError code _ _ ha =>
        exact ⟨code, _, _, rfl, ⟨_, _, [], ha, .inl rfl, (List.append_nil _).symm⟩, rfl⟩
      | @joinErrorMore code _ _ _ _ hcode ha hb =>
        exact ⟨code, _, _, rfl, ⟨_, _, _, ha, .inr ⟨hcode, _, hb⟩, rfl⟩, rfl⟩
  · refine (Finishes.bind parses_varLen fun count => Finishes.guard (safe_error _)
      (Finishes.bind (parses_readUpdates count) fun _ =>
        .of_parses (parses_take 8).discard)).of_iff fun _ => ⟨?_, ?_⟩
    · rintro ⟨_, _, _, ⟨n, hencodes, rfl⟩, ⟨hmax, _, _, _, ⟨contents, hlist, hcount, hindividual,
        haggregate⟩, ⟨_, batch, rfl, hbatch⟩, rfl⟩, rfl⟩
      rw [← hcount] at hmax
      exact .docUpdate hencodes hcount.symm hmax hlist hindividual haggregate hbatch
    · intro h
      cases h with
      | docUpdate hencodes hcount hmax hlist hindividual haggregate hbatch =>
        rw [← hcount] at hmax
        exact ⟨_, _, _, ⟨_, hencodes, rfl⟩, ⟨hmax, (), _, _, ⟨_, hlist, hcount.symm, hindividual,
          haggregate⟩, ⟨(), _, rfl, hbatch⟩, rfl⟩, rfl⟩
  · refine (Finishes.bind (parses_take 8) fun _ => Finishes.bind parses_uleb128 fun _ =>
      .of_parses parses_uleb128.discard).of_iff fun _ => ⟨?_, ?_⟩
    · rintro ⟨_, _, _, ⟨rfl, hbatch⟩, ⟨_, _, _, hm, ⟨_, _, hn⟩, rfl⟩, rfl⟩
      exact .fragmentHeader hbatch hm hn
    · intro h
      cases h with
      | fragmentHeader hbatch hm hn =>
        exact ⟨_, _, _, ⟨rfl, hbatch⟩, ⟨_, _, _, hm, ⟨(), _, hn⟩, rfl⟩, rfl⟩
  · refine (Finishes.bind (parses_take 8) fun _ => Finishes.bind parses_uleb128 fun _ =>
      .of_parses parses_varBytes.discard).of_iff fun _ => ⟨?_, ?_⟩
    · rintro ⟨_, _, _, ⟨rfl, hbatch⟩, ⟨_, _, _, hn, ⟨_, _, ha⟩, rfl⟩, rfl⟩
      exact .fragment hbatch hn ha
    · intro h
      cases h with
      | fragment hbatch hn ha =>
        exact ⟨_, _, _, ⟨rfl, hbatch⟩, ⟨_, _, _, hn, ⟨(), _, ha⟩, rfl⟩, rfl⟩
  · refine (Finishes.bind parses_byte fun _ =>
      .of_parses parses_varBytes.discard).of_iff fun _ => ⟨?_, ?_⟩
    · rintro ⟨code, _, _, rfl, ⟨_, _, ha⟩, rfl⟩
      exact .roomError ha
    · intro h
      cases h with
      | roomError ha => exact ⟨_, _, _, rfl, ⟨(), _, ha⟩, rfl⟩
  · refine (Finishes.of_parses (Parses.pure ())).of_iff fun _ => ⟨?_, ?_⟩
    · rintro ⟨_, _, rfl⟩
      exact .leave
    · intro h
      cases h with
      | leave => exact ⟨(), rfl, rfl⟩
  · refine (Finishes.of_parses (parses_take 9).discard).of_iff fun _ => ⟨?_, ?_⟩
    · rintro ⟨_, _, rfl, hlength⟩
      exact .ack hlength
    · intro h
      cases h with
      | ack hlength => exact ⟨(), _, rfl, hlength⟩
  · refine (Finishes.of_parses (Parses.throw (safe_error _))).of_iff fun _ => ⟨?_, ?_⟩
    · rintro ⟨_, hfalse⟩
      exact hfalse.elim
    · intro h
      cases h <;> contradiction

/-! ## The message -/

theorem finishes_readMessage :
    Finishes feed Done (fun _ => True) Safe (readMessage limits) (fun bytes =>
      ∃ tag room field messageType body, tag.length = 4 ∧ VarBytes room field ∧
        room.length ≤ limits.maxRoomIdBytes ∧ Body limits messageType body ∧
        bytes = tag ++ (field ++ messageType :: body)) := by
  refine (Finishes.bind (parses_take 4) fun _ => Finishes.bind parses_varLen fun len =>
    Finishes.guard (safe_error _) (Finishes.bind (parses_take len) fun _ =>
      Finishes.bind parses_byte fun messageType =>
        (finishes_readBody messageType).ended (safe_error _))).of_iff fun _ => ⟨?_, ?_⟩
  · rintro ⟨_, tag, _, ⟨rfl, htag⟩, ⟨_, header, _, ⟨n, hencodes, rfl⟩, ⟨hmax, room, _, _,
      ⟨rfl, hroom⟩, ⟨messageType, _, body, rfl, hbody, rfl⟩, rfl⟩, rfl⟩, rfl⟩
    rw [← hroom] at hmax
    exact ⟨_, room, header ++ room, messageType, body, htag, ⟨n, header, hencodes, hroom.symm, rfl⟩,
      hmax, hbody, by rw [List.append_assoc]; rfl⟩
  · rintro ⟨tag, room, _, messageType, body, htag, ⟨n, header, hencodes, hroom, rfl⟩, hmax, hbody,
      rfl⟩
    rw [← hroom] at hmax
    exact ⟨_, tag, _, ⟨rfl, htag⟩, ⟨_, header, _, ⟨n, hencodes, rfl⟩, ⟨hmax, room, _, _,
      ⟨rfl, hroom.symm⟩, ⟨messageType, _, body, rfl, hbody, rfl⟩, rfl⟩, rfl⟩,
      by rw [List.append_assoc]; rfl⟩

/-- To reach the end is to read all that is left. -/
theorem eats_done {r : Reader} (hr : r.Ready) {bytes : Bytes} :
    (∃ r', feed.eats r bytes r' ∧ Done r') ↔ bytes = r.rest := by
  have hinside := hr.inside
  constructor
  · rintro ⟨_, ⟨hbytes, rfl⟩, hdone⟩
    refine hbytes.eq_of_length ?_
    have hend : r.cursor + bytes.length = r.input.length := of_decide_eq_true hdone
    rw [length_rest]
    omega
  · rintro rfl
    refine ⟨_, ⟨List.prefix_refl _, rfl⟩, decide_eq_true ?_⟩
    show r.cursor + r.rest.length = r.input.length
    rw [length_rest]
    omega

end Parts

section Whole

variable [LoroProtocol] {input : Bytes} {limits : ProtocolLimits}

theorem Reader.new_ready
    (h : input.length ≤ min limits.maxMessageBytes LoroProtocol.maxMessageSize.toNat) :
    (Reader.new input).Ready where
  sized := Nat.lt_of_le_of_lt (Nat.le_trans h (Nat.min_le_right _ _)) (UInt64.toNat_lt _)
  inside := Nat.zero_le _

theorem precheck_of_le
    (h : input.length ≤ min limits.maxMessageBytes LoroProtocol.maxMessageSize.toNat) :
    precheck input limits = (readMessage limits).run' (Reader.new input) := by
  unfold precheck Precheck.enforceLimit check
  rw [if_pos h]
  rfl

theorem precheck_of_lt
    (h : ¬ input.length ≤ min limits.maxMessageBytes LoroProtocol.maxMessageSize.toNat) :
    precheck input limits = .error (.error (.limitExceeded "message bytes" input.length
      (min limits.maxMessageBytes LoroProtocol.maxMessageSize.toNat))) := by
  unfold precheck Precheck.enforceLimit check
  rw [if_neg h]
  rfl

theorem precheck_ok_iff : precheck input limits = .ok () ↔ Message limits input := by
  unfold Message
  by_cases hlength : input.length ≤ min limits.maxMessageBytes LoroProtocol.maxMessageSize.toNat
  · have hready := Reader.new_ready hlength
    rw [precheck_of_le hlength, and_iff_right hlength, finishes_readMessage.answer_ok_iff hready]
    simp only [eats_done hready]
    exact exists_eq_right
  · rw [precheck_of_lt hlength]
    simp [hlength]

theorem precheck_inside : precheck input limits ≠ .error .outOfBounds := by
  by_cases hlength : input.length ≤ min limits.maxMessageBytes LoroProtocol.maxMessageSize.toNat
  · rw [precheck_of_le hlength]
    intro heq
    exact (@finishes_readMessage limits).answer_error (Reader.new_ready hlength) heq rfl
  · rw [precheck_of_lt hlength]
    simp

end Whole

/-- The precheck accepts the messages within the limits, and nothing else; it never
reads outside its input. -/
theorem precheck_exact [LoroProtocol] (input : Bytes) (limits : ProtocolLimits) :
    (precheck input limits = .ok () ↔ Message limits input) ∧
      precheck input limits ≠ .error .outOfBounds :=
  ⟨precheck_ok_iff, precheck_inside⟩

end LoroGateway
