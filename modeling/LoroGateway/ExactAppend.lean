import LoroGateway.Store

/-!
# Appends that are settled or given up

`src/exact_append.rs`.  An append is repeated with the same tuple and the same
bytes while its outcome is ambiguous.  An answer that the tuple is a duplicate
counts only after the bytes before the answered offset have been read back and
compared.
-/

namespace LoroGateway

open ByteCodec CrashLogic

inductive ExactAppendOutcome
  | committed (nextOffset : UInt64)
  | verifiedDuplicate (nextOffset : UInt64)
  deriving DecidableEq, Repr

def ExactAppendOutcome.nextOffset : ExactAppendOutcome → UInt64
  | .committed nextOffset => nextOffset
  | .verifiedDuplicate nextOffset => nextOffset

namespace ExactAppend

def verifyDuplicateBytes (stream : String) (nextOffset : UInt64) (expected : Bytes) :
    ExceptT StoreError StoreM Unit := do
  let expectedLen ← okOr (u64OfUsize expected.length)
    (StoreError.integrity "exact append length does not fit u64")
  let start ← okOr (checkedSubU64 nextOffset expectedLen)
    (StoreError.integrity "duplicate next offset is smaller than exact append body")
  let stored ← ExceptT.mk (UrsulaStore.readRange stream start expected.length)
  check (stored.length = expected.length)
    (StoreError.integrity ("duplicate exact append length mismatch: expected " ++
      expected.length.repr ++ ", received " ++ stored.length.repr))
  check (stored = expected)
    (StoreError.integrity "duplicate producer tuple is bound to different bytes")

/-- The loop of `append_exact_with_retry`, with the retries that are left. -/
def attempts (stream : String) (producer : ProducerTuple) (body : Bytes) (left : Nat) :
    StoreM (Except StoreError ExactAppendOutcome) := do
  match ← UrsulaStore.append stream producer body with
  | .ok (.committed nextOffset) => return .ok (.committed nextOffset)
  | .ok (.duplicate nextOffset) =>
    match ← (verifyDuplicateBytes stream nextOffset body).run with
    | .ok () => return .ok (.verifiedDuplicate nextOffset)
    | .error err => return .error err
  | .error (.ambiguous message) =>
    match left with
    | 0 => return .error (.ambiguous message)
    | left + 1 => attempts stream producer body left
  | .error err => return .error err

end ExactAppend

def appendExactWithRetry (stream : String) (producer : ProducerTuple) (body : Bytes)
    (maxAmbiguousRetries : Nat) : StoreM (Except StoreError ExactAppendOutcome) :=
  if body = [] then return .error (.integrity "exact append body is empty")
  else ExactAppend.attempts stream producer body maxAmbiguousRetries

end LoroGateway
