import LoroGateway.Lib.Bytes

/-!
# Encodings that show where they end

An encoding is self delimiting when two values whose encodings are followed by
anything agree in the bytes only when the values agree and what follows agrees.
`valid` are the values whose lengths fit a machine word.

* `SelfDelimiting.of_length`: an injective encoding of one width;
* `SelfDelimiting.seq`: one encoding after another;
* `selfDelimiting_prefixed`: bytes behind their length;
* `SelfDelimiting.counted`: a list behind the number of its members.
-/

namespace ByteCodec

variable {α β : Type}

def SelfDelimiting (valid : α → Prop) (encode : α → Bytes) : Prop :=
  ∀ a b s t, valid a → valid b → encode a ++ s = encode b ++ t → a = b ∧ s = t

/-- Bytes behind their length. -/
def prefixed (bytes : Bytes) : Bytes := be64 (lengthWord bytes.length) ++ bytes

/-- A list behind the number of its members. -/
def counted (encode : α → Bytes) (values : List α) : Bytes :=
  be64 (lengthWord values.length) ++ values.flatMap encode

theorem be64_injective : Function.Injective be64 := by
  intro x y h
  rw [← ofBE_be64 x, h, ofBE_be64]

theorem lengthWord_toNat {n : Nat} (h : n < wordSize) : (lengthWord n).toNat = n := by
  have ⟨x, hx⟩ : ∃ x : UInt64, x.toNat = n := ⟨UInt64.ofNat n, UInt64.toNat_ofNat_of_lt' h⟩
  unfold lengthWord
  rw [u64OfUsize_eq_some.2 hx]
  exact hx

theorem lengthWord_inj {m n : Nat} (hm : m < wordSize) (hn : n < wordSize)
    (h : lengthWord m = lengthWord n) : m = n := by
  rw [← lengthWord_toNat hm, h, lengthWord_toNat hn]

namespace SelfDelimiting

variable {valid : α → Prop} {encode : α → Bytes}

theorem injOn (h : SelfDelimiting valid encode) : Set.InjOn encode {a | valid a} := by
  intro a ha b hb heq
  exact (h a b [] [] ha hb (congrArg (· ++ []) heq)).1

theorem of_length {width : Nat} (hlength : ∀ a, (encode a).length = width)
    (hinj : Set.InjOn encode {a | valid a}) : SelfDelimiting valid encode := by
  intro a b s t ha hb h
  have hparts := List.append_inj h ((hlength a).trans (hlength b).symm)
  exact ⟨hinj ha hb hparts.1, hparts.2⟩

theorem seq {valid' : β → Prop} {encode' : β → Bytes} (h : SelfDelimiting valid encode)
    (h' : SelfDelimiting valid' encode') :
    SelfDelimiting (fun p : α × β => valid p.1 ∧ valid' p.2)
      (fun p => encode p.1 ++ encode' p.2) := by
  intro p q s t hp hq heq
  rw [List.append_assoc, List.append_assoc] at heq
  have hfirst := h p.1 q.1 _ _ hp.1 hq.1 heq
  have hsecond := h' p.2 q.2 s t hp.2 hq.2 hfirst.2
  exact ⟨Prod.ext hfirst.1 hsecond.1, hsecond.2⟩

/-- Two lists of one length that are encoded member by member. -/
theorem flatMap (h : SelfDelimiting valid encode) {xs ys : List α} (hlength : xs.length = ys.length)
    (hxs : ∀ x ∈ xs, valid x) (hys : ∀ y ∈ ys, valid y) {s t : Bytes}
    (heq : xs.flatMap encode ++ s = ys.flatMap encode ++ t) : xs = ys ∧ s = t := by
  induction xs generalizing ys with
  | nil =>
    cases ys with
    | nil => exact ⟨rfl, heq⟩
    | cons y ys => cases hlength
  | cons x xs ih =>
    cases ys with
    | nil => cases hlength
    | cons y ys =>
      rw [List.flatMap_cons, List.flatMap_cons, List.append_assoc, List.append_assoc] at heq
      have hhead := h x y _ _ (hxs x List.mem_cons_self) (hys y List.mem_cons_self) heq
      have htail := ih (Nat.succ.inj hlength) (fun z hz => hxs z (List.mem_cons_of_mem x hz))
        (fun z hz => hys z (List.mem_cons_of_mem y hz)) hhead.2
      exact ⟨by rw [hhead.1, htail.1], htail.2⟩

theorem counted (h : SelfDelimiting valid encode) :
    SelfDelimiting (fun values => values.length < wordSize ∧ ∀ a ∈ values, valid a)
      (counted encode) := by
  intro xs ys s t hxs hys heq
  unfold ByteCodec.counted at heq
  rw [List.append_assoc, List.append_assoc] at heq
  have hcount := List.append_inj heq (by rw [length_be64, length_be64])
  have hlength := lengthWord_inj hxs.1 hys.1 (be64_injective hcount.1)
  exact h.flatMap hlength hxs.2 hys.2 hcount.2

end SelfDelimiting

theorem selfDelimiting_be64 : SelfDelimiting (fun _ => True) be64 :=
  .of_length length_be64 be64_injective.injOn

theorem selfDelimiting_byteArr (n : Nat) :
    SelfDelimiting (fun _ => True) (fun arr : ByteArr n => arr.val) :=
  .of_length (fun arr => arr.property) Subtype.val_injective.injOn

theorem selfDelimiting_prefixed :
    SelfDelimiting (fun bytes : Bytes => bytes.length < wordSize) prefixed := by
  intro a b s t ha hb heq
  unfold prefixed at heq
  rw [List.append_assoc, List.append_assoc] at heq
  have hcount := List.append_inj heq (by rw [length_be64, length_be64])
  have hlength := lengthWord_inj ha hb (be64_injective hcount.1)
  exact List.append_inj hcount.2 hlength

/-- Tags that differ at a position both of them have. -/
theorem append_ne_append {a b : Bytes} (i : Nat) (ha : i < a.length) (hb : i < b.length)
    (hne : a[i]? ≠ b[i]?) (s t : Bytes) : a ++ s ≠ b ++ t := by
  intro h
  apply hne
  rw [← List.getElem?_append_left ha, h, List.getElem?_append_left hb]

end ByteCodec
