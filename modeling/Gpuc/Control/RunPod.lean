import Gpuc.Basis.Decode
import Gpuc.Control.Providers
import Gpuc.Control.Registry

/-!
# The RunPod client

One request to the API is tried up to five times: a 429 is waited out for as long as its `Retry-After`
says, any other status is an error. The body of an answer is JSON, and what it says of a pod is validated
by pydantic. The methods of `RunPodProvider` are here as functions of the state of the API, with the
class of what they raise: a `ProviderError` of some kind, or an exception of another class, which nobody
in the client was looking for.

`urlopen` and `sleep` are parameters (`Api`), with what an answer holds that the client reads. How a text
is decoded, which texts spell a number or a time, and what pydantic takes for a number are parameters too
(`Library`). Texts of messages are left out, with `offers`, `logs` and `ensure_ssh_key`.
-/

set_option autoImplicit false

namespace Gpuc.Control.RunPod

open Gpuc.Basis

/-! ## Exceptions -/

/-- The class of an exception that is no `ProviderError`. -/
inductive Foreign where
  /-- `OSError`: a `URLError`, a timeout, a reset. -/
  | os
  /-- `ValueError`, with the errors of decoding, of JSON and of a validation. -/
  | value
  | key
  | type
  | attribute
  | overflow
  | recursion
  | assertion
  /-- Any other: `http.client.HTTPException`, of an answer that is no HTTP or that breaks off. -/
  | other
  deriving DecidableEq

/-- What a method of the client raises. -/
inductive Failure where
  /-- A `ProviderError`, and no `RunPodError`. -/
  | provider
  /-- `RunPodError`, with its status. -/
  | runPod (status : Int)
  | podNotFound
  | createRefused
  | foreign (e : Foreign)
  deriving DecidableEq

/-- It is a `ProviderError`. -/
def Failure.isProvider : Failure → Bool
  | .provider | .runPod _ | .podNotFound | .createRefused => true
  | .foreign _ => false

/-- What a handler outside of the client sees of it. -/
def Failure.exn : Failure → Exn
  | .provider | .runPod _ | .podNotFound => .provider
  | .createRefused => .createRefused
  | .foreign _ => .exception

/-! ## The API -/

structure Request where
  method : String
  path : String
  params : List (String × String) := []
  body : Option Json := none

/-- The bytes of a body: none, bytes that are no text, or a text. -/
inductive Body where
  | empty
  | undecodable
  | text (s : Text)

structure Response where
  /-- The `RateLimit` header, whose digits are ASCII's, as a header is Latin-1. -/
  rateLimit : Option Text := none
  /-- What `read` returns or raises. -/
  raw : Except Foreign Body

/-- What one `urlopen` comes to. -/
inductive Opened where
  | answered (response : Response)
  /-- `HTTPError`, with the `Retry-After` header, and what reading the body raises. -/
  | httpError (code : Int) (retryAfter : Option String) (text : Except Foreign Unit)
  /-- Any other exception. -/
  | raised (e : Foreign)

structure Api (σ : Type) where
  urlopen : Request → σ → Opened × σ
  sleep : Float64 → σ → Except Foreign Unit × σ

/-- **What the client takes from its libraries.** -/
structure Library extends Pydantic where
  /-- `float` of a text, among others. -/
  texts : Texts
  /-- `int` of a text. -/
  intText : String → Option Int
  /-- What pydantic takes for a `float`. A float validates as itself. -/
  floatField : Json → Option Float64
  floatField_float : ∀ x, floatField (.float x) = some x
  /-- `datetime.fromisoformat`, as seconds. -/
  fromisoformat : String → Option ℚ
  /-- The scan of the text goes deeper than the interpreter lets it. -/
  tooDeep : Text → Bool

/-! ## Headers -/

/-- `r=(\d+);t=(\d+)`, matched at the front of a text. -/
def windowAt : Text → Option (Text × Text)
  | 'r' :: '=' :: cs =>
    match cs.span Char.isDigit with
    | (r, ';' :: 't' :: '=' :: rest) =>
      let t := rest.takeWhile Char.isDigit
      if r = [] ∨ t = [] then none else some (r, t)
    | _ => none
  | _ => none

/-- The matches in a text. A match has its only `r` in front, so that no two overlap. -/
def windows : Text → List (Text × Text)
  | [] => []
  | c :: cs => (windowAt (c :: cs)).toList ++ windows cs

def maxRateLimitSleepS : Nat := 60

/-- **`_rate_limit_pause`**: wait out any window with no requests left. It raises a `ValueError` for a
number with more digits than are read; a pause is a float that is a whole number, since it is one from
the start or over the cap. -/
def rateLimitPause : Option Text → Option Nat
  | none => some 0
  | some header =>
    let found := windows header
    if found.any fun window => Json.maxStrDigits < window.1.length then none
    else
      let waits := (found.filter fun window => Json.ofDigits window.1 = 0).map fun window =>
        Json.ofDigits window.2
      some (min (waits.foldl max 0) maxRateLimitSleepS)

section Client
variable {σ : Type} (api : Api σ) (lib : Library)

/-- How long a 429 of an attempt is waited out: none where the header is no number. -/
def retryPause (attempt : Nat) (retryAfter : Option String) : Option Float64 :=
  match retryAfter.filter (· ≠ "") with
  | some text => lib.texts.toFloat text
  | none => some (.finite (2 * (attempt + 1)))

/-! ## Requests -/

/-- The attempts of `_open`, with so many of the five left. -/
def openBy (request : Request) : Nat → σ → Except Failure Response × σ
  | 0, s => (.error (.foreign .assertion), s)
  | n + 1, s =>
    let attempt := 4 - n
    match api.urlopen request s with
    | (.answered response, s) => (.ok response, s)
    | (.raised .os, s) => (.error .provider, s)
    | (.raised e, s) => (.error (.foreign e), s)
    | (.httpError _ _ (.error e), s) => (.error (.foreign e), s)
    | (.httpError code retryAfter (.ok ()), s) =>
      if code = 429 ∧ attempt < 4 then
        match retryPause lib attempt retryAfter with
        | none => (.error (.foreign .value), s)
        | some pause =>
          match api.sleep pause s with
          | (.error e, s) => (.error (.foreign e), s)
          | (.ok (), s) => openBy request n s
      else if code = 404 then (.error .podNotFound, s)
      else (.error (.runPod code), s)

/-- `json.loads(raw) if raw else None`. -/
def decode : Body → Except Foreign Json
  | .empty => .ok .null
  | .undecodable => .error .value
  | .text s =>
    if lib.tooDeep s then .error .recursion
    else (Json.loads lib.texts s).mapError fun _ => .value

/-- **`_json`**. -/
def json (request : Request) (s : σ) : Except Failure Json × σ :=
  match openBy api lib request 5 s with
  | (.error e, s) => (.error e, s)
  | (.ok response, s) =>
    match response.raw with
    | .error .os => (.error .provider, s)
    | .error e => (.error (.foreign e), s)
    | .ok body =>
      match rateLimitPause response.rateLimit with
      | none => (.error (.foreign .value), s)
      | some pause =>
        if pause = 0 then ((decode lib body).mapError .foreign, s)
        else
          match api.sleep (.finite pause) s with
          | (.error e, s) => (.error (.foreign e), s)
          | (.ok (), s) => ((decode lib body).mapError .foreign, s)

end Client

/-! ## A pod, as the API describes it -/

/-- `Pod`, with all its fields. -/
structure ApiPod extends Pod where
  costUsdHr : Float64
  gpuName : Option String := none
  gpuCount : Int := 0
  cudaVersion : Option String := none
  gpuUtils : List Int := []
  createdAt : Option ℚ := none

/-- What has a `get`. -/
def asDict (value : Json) : Except Foreign (Dict String Json) :=
  match value.members with
  | some fields => .ok fields
  | none => .error .attribute

/-- `value or default`. -/
def orElse (value : Option Json) (default : Json) : Json := (value.filter Json.truthy).getD default

/-- `fields[key]`, of a dictionary. -/
def item (fields : Dict String Json) (key : String) : Except Foreign Json :=
  match fields.get? key with
  | some value => .ok value
  | none => .error .key

/-- `for x in value`. -/
def elements : Json → Except Foreign (List Json)
  | .arr items => .ok items
  | .obj pairs => .ok ((Dict.ofList pairs).keys.map .str)
  | .str s => .ok (s.toList.map fun c => .str (String.singleton c))
  | .null | .bool _ | .int _ | .float _ => .error .type

def podStatus : String → Option PodStatus
  | "PROVISIONING" => some .provisioning
  | "STARTING" => some .starting
  | "RUNNING" => some .running
  | "EXITED" => some .exited
  | "ERROR" => some .error
  | "TERMINATED" => some .terminated
  | _ => none

/-- A `PodStatus` field. -/
def statusField : Json → Option PodStatus
  | .str s => podStatus s
  | _ => none

/-- A `str` field that has to be there. -/
def textField : Json → Option String
  | .str s => some s
  | _ => none

/-- A field that does not validate is a `ValueError`. -/
def validated {α : Type} (field : Option α) : Except Foreign α :=
  match field with
  | some a => .ok a
  | none => .error .value

/-- `created_at.replace("Z", "+00:00")`. -/
def withOffset (s : String) : String :=
  String.ofList (s.toList.flatMap fun c => if c = 'Z' then "+00:00".toList else [c])

section Reader
variable (lib : Library)

/-- `int(value)`. -/
def intOf : Json → Except Foreign Int
  | .bool b => .ok (if b then 1 else 0)
  | .int n => .ok n
  | .float (.infinite _) => .error .overflow
  | .float x => validated x.toInt
  | .str s => validated (lib.intText s)
  | .null | .arr _ | .obj _ => .error .type

/-- `gpu.get("id") or machine.get("gpuTypeId") or payload.get("gpuTypeId")`. -/
def gpuNameOf (gpu : Dict String Json) (machine : Json) (fields : Dict String Json) :
    Except Foreign (Option Json) :=
  match (gpu.get? "id").filter Json.truthy with
  | some name => .ok (some name)
  | none => do
    let machine ← asDict machine
    match (machine.get? "gpuTypeId").filter Json.truthy with
    | some name => return some name
    | none => return fields.get? "gpuTypeId"

/-- `SshEndpoint`, of the three keys of `direct` where there is one. -/
def endpointOf (direct : Option Json) : Except Foreign (Option SshEndpoint) :=
  match direct.filter Json.truthy with
  | none => .ok none
  | some (.obj pairs) => do
    let host ← item (Dict.ofList pairs) "host"
    let port ← item (Dict.ofList pairs) "port"
    let username ← item (Dict.ofList pairs) "username"
    validated do
      let host ← textField host
      let port ← lib.toInt port
      let username ← textField username
      return some { host, port, username }
  | some _ => .error .type

/-- `[gpu.get("util", 0) for gpu in runtime.get("gpus") or []]`. -/
def utilsOf (runtime : Json) : Except Foreign (List Json) := do
  let runtime ← asDict runtime
  let gpus ← elements (orElse (runtime.get? "gpus") (.arr []))
  gpus.mapM fun gpu => do
    let gpu ← asDict gpu
    return (gpu.get? "util").getD (.int 0)

def createdAtOf (createdAt : Option Json) : Except Foreign (Option ℚ) :=
  match createdAt.filter Json.truthy with
  | none => .ok none
  | some (.str s) => some <$> validated (lib.fromisoformat (withOffset s))
  | some _ => .error .attribute

/-- **`_pod_from_api`**: the arguments in their order, then the validation. -/
def podFromApi (payload : Json) : Except Foreign ApiPod := do
  let fields ← asDict payload
  let ssh ← asDict (orElse (fields.get? "ssh") (.obj []))
  let gpu := orElse (fields.get? "gpu") (.obj [])
  let machine := orElse (fields.get? "machine") (.obj [])
  let id ← item fields "id"
  let name ← item fields "name"
  let status ← item fields "status"
  let gpu ← asDict gpu
  let gpuName ← gpuNameOf gpu machine fields
  let gpuCount ← intOf lib (orElse (gpu.get? "count") (orElse (fields.get? "gpuCount") (.int 0)))
  let sshDirect ← endpointOf lib (ssh.get? "direct")
  let utils ← utilsOf (orElse (fields.get? "runtime") (.obj []))
  let createdAt ← createdAtOf lib (fields.get? "createdAt")
  validated do
    let id ← textField id
    let name ← textField name
    let status ← statusField status
    let costUsdHr ← lib.floatField (orElse (fields.get? "cost") (.float (.finite 0)))
    let gpuName ← optStrField gpuName
    let cudaVersion ← optStrField (fields.get? "cudaVersion")
    let gpuUtils ← utils.mapM lib.toInt
    return { id, name, status, sshDirect, costUsdHr, gpuName, gpuCount, cudaVersion, gpuUtils, createdAt }

/-- `payload["pods"]`, and each pod of it. -/
def podsFromApi (payload : Json) : Except Foreign (List ApiPod) :=
  match payload with
  | .obj pairs => do
    let pods ← item (Dict.ofList pairs) "pods"
    let pods ← elements pods
    pods.mapM (podFromApi lib)
  | _ => .error .type

end Reader

/-! ## The provider -/

section Provider
variable {σ : Type} (api : Api σ) (lib : Library)

def getRequest (podId : String) : Request where
  method := "GET"
  path := "/pods/" ++ podId

def terminateRequest (podId : String) : Request where
  method := "POST"
  path := "/pods/" ++ podId ++ "/action"
  body := some (.obj [("action", .str "terminate")])

def listRequest : Request where
  method := "GET"
  path := "/pods"
  params := [("includeClusterPods", "true")]

/-- What a create asks for. -/
structure Wanted where
  gpuId : String
  cloud : String
  name : String
  image : String
  diskGb : Int := 20
  cudaMin : String
  gpuCount : Int := 1

def createRequest (wanted : Wanted) : Request where
  method := "POST"
  path := "/pods"
  body := some (.obj
    [("name", .str wanted.name), ("image", .str wanted.image),
      ("gpu", .obj [("id", .str wanted.gpuId), ("count", .int wanted.gpuCount),
        ("minCudaVersion", .str wanted.cudaMin)]),
      ("cloud", .str wanted.cloud), ("disk", .int wanted.diskGb), ("ports", .arr [.str "22/tcp"]),
      ("startSsh", .bool true), ("env", .obj [("HF_HUB_ENABLE_HF_TRANSFER", .str "0")])])

/-- **`RunPodProvider.get`**. -/
def get (podId : String) (s : σ) : Except Failure (Option ApiPod) × σ :=
  match json api lib (getRequest podId) s with
  | (.ok payload, s) => ((podFromApi lib payload).mapError .foreign |>.map some, s)
  | (.error .podNotFound, s) => (.ok none, s)
  | (.error e, s) => (.error e, s)

/-- **`RunPodProvider.list`**. -/
def list (s : σ) : Except Failure (List ApiPod) × σ :=
  match json api lib listRequest s with
  | (.ok payload, s) => ((podsFromApi lib payload).mapError .foreign, s)
  | (.error e, s) => (.error e, s)

/-- **`RunPodProvider.terminate`**: a pod already gone, and one already ending, are as good as ended. -/
def terminate (podId : String) (s : σ) : Except Failure Unit × σ :=
  match json api lib (terminateRequest podId) s with
  | (.ok _, s) => (.ok (), s)
  | (.error .podNotFound, s) => (.ok (), s)
  | (.error (.runPod status), s) => if status ≠ 409 then (.error (.runPod status), s) else (.ok (), s)
  | (.error e, s) => (.error e, s)

/-- **`RunPodProvider.create`**: an answer it cannot read is a `ProviderError`. -/
def create (namePrefix : String) (wanted : Wanted) (s : σ) : Except Failure ApiPod × σ :=
  if !namePrefix.toList.isPrefixOf wanted.name.toList then (.error .provider, s)
  else
    match json api lib (createRequest wanted) s with
    | (.error .podNotFound, s) => (.error .createRefused, s)
    | (.error (.runPod status), s) =>
      if 400 ≤ status ∧ status < 500 then (.error .createRefused, s)
      else (.error (.runPod status), s)
    | (.error (.foreign .value), s) => (.error .provider, s)
    | (.error e, s) => (.error e, s)
    | (.ok payload, s) =>
      match podFromApi lib payload with
      | .ok pod => (.ok pod, s)
      | .error .attribute | .error .key | .error .type | .error .value => (.error .provider, s)
      | .error e => (.error (.foreign e), s)

/-- A method, as what is outside of the client sees it. -/
def seen {α β : Type} (f : α → β) (answer : Except Failure α × σ) : Except Exn β × σ :=
  ((answer.1.mapError Failure.exn).map f, answer.2)

/-- **A world whose provider is the client.** What reports and waits around the calls returns. -/
def world {Offer Transport Entry : Type} (w : World σ Offer Transport Entry) (reported : σ → σ)
    (slept : ℚ → σ → σ) : World σ Offer Transport Entry :=
  { w with
    get := fun podId s => seen (Option.map ApiPod.toPod) (get api lib podId s)
    terminate := fun podId s => seen id (terminate api lib podId s)
    list := fun s => seen (List.map ApiPod.toPod) (list api lib s)
    now := fun s => (.ok 0, s)
    report := fun s => (.ok (), reported s)
    sleep := fun t s => (.ok (), slept t s) }

end Provider

end Gpuc.Control.RunPod
