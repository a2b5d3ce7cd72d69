import LoroGateway.Store

/-!
# The HTTP client of the store

`src/ursula.rs`: a chain of leader redirects, the two reads of a stream in windows,
and the two writes.  A function that awaits the network is a program over
`HttpRequest`; what a server sends, and whether it sends it in time, is the answer.
`HttpUrsula.serve` is the client as a `UrsulaStore`.

A URL has the parts that the client looks at.  The crates that parse URLs and
name status codes are `Reqwest`.  The delays between two attempts, the log lines
and the counter of requests are left out.
-/

namespace LoroGateway

open ByteCodec CrashLogic

/-- The origin of an URL with a host. -/
structure Origin where
  scheme : String
  host : String
  port : UInt16
  deriving DecidableEq

structure Url where
  /-- `none` where the scheme has no hosts. -/
  origin : Option Origin
  username : String
  password : Option String
  path : String
  query : Option String
  fragment : Option String
  deriving DecidableEq

/-- What the client uses of the crates `reqwest` and `http`. -/
class Reqwest where
  /-- `Url::parse`, with the text of its error. -/
  parse : String → Except String Url
  /-- The path with the given segments. -/
  path : List String → String
  canonicalReason : Nat → Option String

/-- The value of a header, which need not be text. -/
structure HeaderValue where
  bytes : Bytes

def HeaderValue.toStr (value : HeaderValue) : Option String :=
  if value.bytes.all fun b => (32 ≤ b.toNat && b.toNat < 127) || b.toNat == 9 then
    some (String.ofList (value.bytes.map fun b => Char.ofNat b.toNat))
  else none

/-- `parse::<u64>` -/
def u64FromStr (text : String) : Option UInt64 :=
  let digits := if text.toList.head? = some '+' then text.toList.tail else text.toList
  if digits ≠ [] ∧ digits.all Char.isDigit then
    let value := digits.foldl (fun n c => n * 10 + (c.toNat - '0'.toNat)) 0
    if value < wordSize then some (UInt64.ofNat value) else none
  else none

/-- How the body of a response ends. -/
inductive BodyEnd
  | complete
  | failed (error : String)
  | timedOut

/-- What a server sends back: the body comes in chunks. -/
structure Response where
  status : Nat
  headers : String → Option HeaderValue
  chunks : List Bytes
  bodyEnd : BodyEnd

/-- Why there is no response. -/
inductive SendError
  | timedOut
  | failed (error : String)

/-- A request, up to its URL. -/
inductive Call
  | get
  | put (contentType : Option String)
  | post (contentType : String) (producer : ProducerTuple) (body : Bytes)

structure HttpRequest where
  call : Call
  url : Url

/-- A program that awaits the network. -/
abbrev HttpM := Prog HttpRequest fun _ => Except SendError Response

structure HttpUrsulaConfig where
  baseUrl : String
  redirectBaseUrls : List String
  maxRedirects : Nat
  bucket : String
  readChunkBytes : Nat
  maxStreamBytes : Nat
  safeRetries : Nat

def HttpUrsulaConfig.default : HttpUrsulaConfig where
  baseUrl := "http://127.0.0.1:4437"
  redirectBaseUrls := []
  maxRedirects := 4
  bucket := "qloro"
  readChunkBytes := 64 * 1024
  maxStreamBytes := 512 * 1024 * 1024
  safeRetries := 3

def urlOrigin (url : Url) : Option Origin := url.origin

/-- An HTTP(S) origin without credentials, path, query, or fragment. -/
def Url.IsNodeBase (url : Url) : Prop :=
  url.origin.any (fun o => o.scheme = "http" ∨ o.scheme = "https") ∧ url.username = "" ∧
    url.password = none ∧ url.query = none ∧ url.fragment = none ∧ url.path = "/"

instance (url : Url) : Decidable url.IsNodeBase := by
  unfold Url.IsNodeBase
  infer_instance

def parseNodeBase [Reqwest] (value : String) : Except StoreError { url : Url // url.IsNodeBase } :=
  match Reqwest.parse value with
  | .error error => .error (.rejected .invalid ("invalid Ursula node URL: " ++ error))
  | .ok url =>
    if h : url.IsNodeBase then .ok ⟨url, h⟩
    else .error (.rejected .invalid
      ("Ursula node URL must be an HTTP(S) origin without credentials, path, query, " ++
        "or fragment"))

/-- A client: its base URL is the base of a node that it may be sent to. -/
structure HttpUrsula where
  config : HttpUrsulaConfig
  baseUrl : Url
  allowedOrigins : List (Option Origin)
  base_node : baseUrl.IsNodeBase
  base_allowed : urlOrigin baseUrl ∈ allowedOrigins

def HttpUrsula.new [Reqwest] (config : HttpUrsulaConfig) : Except StoreError HttpUrsula := do
  check (¬ config.bucket.utf8ByteSize < 4)
    (StoreError.rejected .invalid "Ursula bucket names must contain at least four bytes")
  check (¬ (config.readChunkBytes = 0 ∨ config.maxStreamBytes = 0))
    (StoreError.rejected .invalid "Ursula read limits must be non-zero")
  let base ← parseNodeBase config.baseUrl
  let peers ← config.redirectBaseUrls.mapM parseNodeBase
  return {
    config
    baseUrl := base.val
    allowedOrigins := urlOrigin base.val :: peers.map fun peer => urlOrigin peer.val
    base_node := base.property
    base_allowed := List.mem_cons_self }

def headerNextOffset : String := "stream-next-offset"

def headerUpToDate : String := "stream-up-to-date"

def headerRaftLeaderId : String := "x-ursula-raft-leader-id"

def isUnknownStatus (status : Nat) : Bool := (500 ≤ status && status < 600) || status == 408

/-- A status code as it is printed. -/
def displayStatus [Reqwest] (status : Nat) : String :=
  status.repr ++ " " ++ (Reqwest.canonicalReason status).getD "<unknown status code>"

def classifyRejection [Reqwest] (status : Nat) (operation : String) : StoreError :=
  let kind : RejectionKind :=
    if 300 ≤ status ∧ status < 400 then .unsupported
    else if status = 400 then .invalid
    else if status = 401 ∨ status = 403 then .permissionDenied
    else if status = 404 ∨ status = 410 then .notFound
    else if status = 409 ∨ status = 412 then .conflict
    else if status = 413 then .payloadTooLarge
    else if status = 429 then .rateLimited
    else .other
  .rejected kind (operation ++ " returned HTTP " ++ displayStatus status)

def parseOffset (response : Response) (name : String) : Except StoreError UInt64 :=
  okOr (((response.headers name).bind HeaderValue.toStr).bind u64FromStr)
    (StoreError.integrity ("missing or invalid " ++ name ++ " header"))

namespace HttpUrsula

variable [Reqwest] (client : HttpUrsula)

def objectUrl (stream : Option String) : Url :=
  { client.baseUrl with path := Reqwest.path (client.config.bucket :: stream.toList) }

def bucketUrl : Url := client.objectUrl none

def streamUrl (stream : String) : Url := client.objectUrl (some stream)

def send (request : HttpRequest) : ExceptT StoreError HttpM Response := do
  match ← (ExceptT.lift (Prog.request request) : ExceptT StoreError HttpM _) with
  | .ok response => return response
  | .error .timedOut => throw (.ambiguous "response header timeout")
  | .error (.failed error) => throw (.ambiguous error)

/-- The leader that a response names, if it is a redirect to one. -/
def leaderRedirect (response : Response) : Option HeaderValue :=
  if response.status = 307 then response.headers headerRaftLeaderId else none

/-- Where a leader redirect leads, after the checks of the loop below that do not depend on the
chain so far. -/
def redirectTarget (operation : String) (initialUrl : Url) (response : Response) :
    Except StoreError Url := do
  let location ← okOr ((response.headers "location").bind HeaderValue.toStr) (StoreError.ambiguous
    (operation ++ " received Ursula leader redirect without valid Location"))
  let target ← (Reqwest.parse location).mapError fun error => StoreError.ambiguous
    (operation ++ " received malformed Ursula redirect target: " ++ error)
  check (urlOrigin target ∈ client.allowedOrigins) (StoreError.ambiguous
    (operation ++ " received Ursula redirect to an unconfigured origin"))
  check (target.username = "" ∧ target.password = none) (StoreError.ambiguous
    (operation ++ " received Ursula redirect containing credentials"))
  check (target.path = initialUrl.path ∧ target.query = initialUrl.query) (StoreError.ambiguous
    (operation ++ " received Ursula redirect that changed the request target"))
  return target

/-- The loop of `send_following_redirects`, for some more rounds. -/
def sendFollowingFrom (operation : String) (initialUrl : Url) (call : Call) :
    Nat → Nat → Url → List Url → ExceptT StoreError HttpM Response
  | 0, _, _, _ => throw (.ambiguous (operation ++ " exhausted Ursula redirect handling"))
  | rounds + 1, redirects, currentUrl, visited => do
    let response ← send ⟨call, currentUrl⟩
    match leaderRedirect response with
    | none => return response
    | some leaderId => do
      let _ ← okOr (leaderId.toStr.bind u64FromStr)
        (StoreError.ambiguous (operation ++ " received malformed Ursula leader ID"))
      check (¬ client.config.maxRedirects ≤ redirects) (StoreError.ambiguous (operation ++
        " exceeded " ++ client.config.maxRedirects.repr ++ " Ursula leader redirects"))
      let target ← liftM (client.redirectTarget operation initialUrl response)
      check (target ∉ visited)
        (StoreError.ambiguous (operation ++ " detected an Ursula redirect loop"))
      sendFollowingFrom operation initialUrl call rounds (redirects + 1) target (target :: visited)

def sendFollowingRedirects (operation : String) (initialUrl : Url) (call : Call) :
    ExceptT StoreError HttpM Response :=
  client.sendFollowingFrom operation initialUrl call (client.config.maxRedirects + 1) 0 initialUrl
    [initialUrl]

end HttpUrsula

/-- The loop of `read_body_bounded`. -/
def readChunks (maxBytes : Nat) (bodyEnd : BodyEnd) (output : Bytes) :
    List Bytes → Except StoreError Bytes
  | [] =>
    match bodyEnd with
    | .complete => .ok output
    | .failed error => .error (.ambiguous error)
    | .timedOut => .error (.ambiguous "response body timeout")
  | chunk :: chunks => do
    let nextLen ← okOr (checkedAdd output.length chunk.length)
      (StoreError.integrity "response body length overflow")
    check (nextLen ≤ maxBytes) (StoreError.integrity
      ("response body exceeds requested maximum of " ++ maxBytes.repr ++ " bytes"))
    readChunks maxBytes bodyEnd (output ++ chunk) chunks

def readBodyBounded (response : Response) (maxBytes : Nat) : Except StoreError Bytes :=
  readChunks maxBytes response.bodyEnd [] response.chunks

/-- A window of a stream. -/
structure Window (offset : UInt64) where
  body : Bytes
  nextOffset : UInt64
  upToDate : Bool
  next_eq : nextOffset.toNat = offset.toNat + body.length

/-- A window behind which more has to be read is not empty. -/
theorem Window.length_pos_of_progress {offset : UInt64} (window : Window offset)
    (hprogress : ¬ (window.nextOffset < offset ∨ window.nextOffset = offset ∧ ¬ window.upToDate))
    (hdone : ¬ window.upToDate) : 0 < window.body.length := by
  have hnext := window.next_eq
  have hne : window.nextOffset ≠ offset := fun heq => hprogress (.inr ⟨heq, hdone⟩)
  have hne' : window.nextOffset.toNat ≠ offset.toNat := fun heq => hne (UInt64.toNat_inj.1 heq)
  omega

def Response.isUpToDate (response : Response) : Bool :=
  ((response.headers headerUpToDate).bind HeaderValue.toStr).any
    fun value => value.map Char.toLower = "true"

/-- What `read_exact_window_once` makes of a response. -/
def Response.window [Reqwest] (response : Response) (offset : UInt64) (maxBytes : Nat) :
    Except StoreError (Window offset) := do
  if response.status ≠ 200 then
    if isUnknownStatus response.status then
      throw (.ambiguous ("read stream returned HTTP " ++ displayStatus response.status))
    throw (classifyRejection response.status "read stream")
  let nextOffset ← parseOffset response headerNextOffset
  let body ← readBodyBounded response maxBytes
  let bodyLen ← okOr (u64OfUsize body.length)
    (StoreError.integrity "response body length does not fit u64")
  let _ ← okOr (checkedAddU64 offset bodyLen) (StoreError.integrity "read offset overflow")
  if h : nextOffset.toNat = offset.toNat + body.length then
    return ⟨body, nextOffset, response.isUpToDate, h⟩
  else throw (.integrity ("read offset mismatch: requested " ++ offset.toNat.repr ++
    ", received " ++ body.length.repr ++ " bytes, next offset " ++ nextOffset.toNat.repr))

/-- The pairs `offset` and `max_bytes` of a query. -/
def windowQuery (offset : UInt64) (maxBytes : Nat) : String :=
  "offset=" ++ offset.toNat.repr ++ "&max_bytes=" ++ maxBytes.repr

namespace HttpUrsula

variable [Reqwest] (client : HttpUrsula)

/-- The URL of a window. -/
def windowUrl (stream : String) (offset : UInt64) (maxBytes : Nat) : Url :=
  { client.streamUrl stream with query := some (windowQuery offset maxBytes) }

def readExactWindowOnce (stream : String) (offset : UInt64) (maxBytes : Nat) :
    ExceptT StoreError HttpM (Window offset) := do
  let response ←
    client.sendFollowingRedirects "read stream" (client.windowUrl stream offset maxBytes) .get
  liftM (response.window offset maxBytes)

/-- An error that a read is tried again after. -/
def isRetryable : StoreError → Bool
  | .ambiguous _ => true
  | .rejected .rateLimited _ => true
  | _ => false

/-- The loop of `read_exact_window`, for some more attempts. -/
def readExactWindowFrom (stream : String) (offset : UInt64) (maxBytes : Nat) :
    Nat → Nat → ExceptT StoreError HttpM (Window offset)
  | 0, _ => throw (.ambiguous "read stream exhausted safe retries")
  | attempts + 1, attempt => ExceptT.mk do
    match ← (client.readExactWindowOnce stream offset maxBytes).run with
    | .ok window => return .ok window
    | .error error =>
      if isRetryable error ∧ attempt < client.config.safeRetries then
        (readExactWindowFrom stream offset maxBytes attempts (attempt + 1)).run
      else return .error error

def readExactWindow (stream : String) (offset : UInt64) (maxBytes : Nat) :
    ExceptT StoreError HttpM (Window offset) :=
  client.readExactWindowFrom stream offset maxBytes (client.config.safeRetries + 1) 0

/-- The loop of `read_all_observed`. -/
def readAllFrom (stream : String) (output : Bytes) (offset : UInt64) :
    ExceptT StoreError HttpM Bytes := do
  let window ← client.readExactWindow stream offset client.config.readChunkBytes
  if _hprogress : window.nextOffset < offset ∨
      window.nextOffset = offset ∧ ¬ window.upToDate then
    throw (.integrity "read made no offset progress")
  else
    match _hlen : checkedAdd output.length window.body.length with
    | none => throw (.integrity "stream length overflow")
    | some nextLen =>
      if _hmax : client.config.maxStreamBytes < nextLen then
        throw (.integrity ("stream exceeds configured limit of " ++
          client.config.maxStreamBytes.repr ++ " bytes"))
      else if _hdone : window.upToDate then return output ++ window.body
      else readAllFrom stream (output ++ window.body) window.nextOffset
termination_by client.config.maxStreamBytes - output.length
decreasing_by
  obtain ⟨rfl, _⟩ := checkedAdd_eq_some.1 _hlen
  have hbody := window.length_pos_of_progress _hprogress _hdone
  rw [List.length_append]
  omega

def readAllObserved (stream : String) : ExceptT StoreError HttpM Bytes :=
  client.readAllFrom stream [] 0

def readAll (stream : String) : ExceptT StoreError HttpM Bytes := client.readAllObserved stream

/-- The loop of `read_range`. -/
def readRangeFrom (stream : String) (length : Nat) (output : Bytes) (next : UInt64) :
    ExceptT StoreError HttpM Bytes :=
  if _hmore : output.length < length then do
    let window ← client.readExactWindow stream next (length - output.length)
    if _hprogress : window.nextOffset ≤ next ∨ window.body = [] then
      throw (.integrity "committed range ended before expected frame length")
    else readRangeFrom stream length (output ++ window.body) window.nextOffset
  else if output.length ≠ length then
    throw (.integrity "committed range exceeded expected frame length")
  else return output
termination_by length - output.length
decreasing_by
  have hbody := List.length_pos_iff.2 (not_or.1 _hprogress).2
  rw [List.length_append]
  omega

def readRange (stream : String) (offset : UInt64) (length : Nat) :
    ExceptT StoreError HttpM Bytes :=
  if length = 0 then return [] else client.readRangeFrom stream length [] offset

end HttpUrsula

def contentType : String := "application/vnd.quorum-loro.delta-frame.v1"

def isRetryableStatus (status : Nat) : Bool := isUnknownStatus status || status == 429

/-- What `append` makes of a response. -/
def Response.appended [Reqwest] (response : Response) : Except StoreError AppendOutcome := do
  if response.status = 200 ∨ response.status = 204 then
    let nextOffset ← parseOffset response headerNextOffset
    if response.status = 200 then return .committed nextOffset else return .duplicate nextOffset
  else if (500 ≤ response.status ∧ response.status < 600) ∨ response.status = 408 then
    throw (.ambiguous ("append returned HTTP " ++ displayStatus response.status))
  else throw (classifyRejection response.status "append")

namespace HttpUrsula

variable [Reqwest] (client : HttpUrsula)

/-- The loop of `send_safe`, for some more attempts. -/
def sendSafeFrom (operation : String) (initialUrl : Url) (call : Call) :
    Nat → Nat → ExceptT StoreError HttpM Response
  | 0, _ => throw (.ambiguous (operation ++ " exhausted safe retries"))
  | attempts + 1, attempt => ExceptT.mk do
    match ← (client.sendFollowingRedirects operation initialUrl call).run with
    | .ok response =>
      if isRetryableStatus response.status ∧ attempt < client.config.safeRetries then
        (sendSafeFrom operation initialUrl call attempts (attempt + 1)).run
      else return .ok response
    | .error (.ambiguous message) =>
      if attempt < client.config.safeRetries then
        (sendSafeFrom operation initialUrl call attempts (attempt + 1)).run
      else return .error (.ambiguous message)
    | .error error => return .error error

def sendSafe (operation : String) (initialUrl : Url) (call : Call) :
    ExceptT StoreError HttpM Response :=
  client.sendSafeFrom operation initialUrl call (client.config.safeRetries + 1) 0

def ensureStream (stream : String) : ExceptT StoreError HttpM Unit := do
  let bucket ← client.sendSafe "create bucket" client.bucketUrl (.put none)
  if ¬ (200 ≤ bucket.status ∧ bucket.status < 300) then
    if isUnknownStatus bucket.status then
      throw (.ambiguous ("create bucket returned HTTP " ++ displayStatus bucket.status))
    throw (classifyRejection bucket.status "create bucket")
  let response ← client.sendSafe "create stream" (client.streamUrl stream) (.put (some contentType))
  if response.status = 201 ∨ response.status = 200 then return ()
  else if isUnknownStatus response.status then
    throw (.ambiguous ("create stream returned HTTP " ++ displayStatus response.status))
  else throw (classifyRejection response.status "create stream")

def append (stream : String) (producer : ProducerTuple) (body : Bytes) :
    ExceptT StoreError HttpM AppendOutcome := do
  let response ← client.sendFollowingRedirects "append" (client.streamUrl stream)
    (.post contentType producer body)
  liftM response.appended

/-- The client as a store. -/
def serve : (req : Request) → HttpM (Answer req)
  | .ensureStream stream => (client.ensureStream stream).run
  | .readAll stream => (client.readAll stream).run
  | .readRange stream offset length => (client.readRange stream offset length).run
  | .append stream producer body => (client.append stream producer body).run

end HttpUrsula

end LoroGateway
