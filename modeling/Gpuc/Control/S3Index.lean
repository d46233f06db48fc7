import Gpuc.Control.Registry

/-!
# The job index

Which jobs exist, and where each was submitted: one small file a job on this machine, and one object a
job in S3, the mirror that any machine writes. `JobIndex.get` looks one job up, `JobIndex.all` has every
job that either knows, and both read an entry with the tolerance of the registry.

A file and an object are the JSON they hold, or nothing where there is none to be read. A listing of the
bucket comes in pages of as many keys as the service gives at once; the token that a page goes on from is
the place in the listing.
-/

set_option autoImplicit false

namespace Gpuc.Control.S3Index

open Gpuc.Basis

/-- One job, as the index remembers it. -/
structure IndexEntry where
  jobId : String := ""
  host : String := ""
  name : String := ""
  /-- The job this one was requeued from. -/
  requeuedFrom : Option String := none
  submittedAt : String := ""
  s3Prefix : Option String := none
  specUri : Option String := none
  deriving DecidableEq

/-- **`IndexEntry.model_validate`**, with nothing for an entry that does not validate. -/
def IndexEntry.validate (value : Json) : Option IndexEntry := do
  let fields ← value.members
  let jobId ← strField "" (dropNull (fields.get? "job_id"))
  let host ← strField "" (dropNull (fields.get? "host"))
  let name ← strField "" (dropNull (fields.get? "name"))
  let requeuedFrom ← optStrField (fields.get? "requeued_from")
  let submittedAt ← strField "" (dropNull (fields.get? "submitted_at"))
  let s3Prefix ← optStrField (fields.get? "s3_prefix")
  let specUri ← optStrField (fields.get? "spec_uri")
  return { jobId, host, name, requeuedFrom, submittedAt, s3Prefix, specUri }

/-! ## The local index -/

/-- The directory of the local index. -/
structure LocalIndex where
  /-- Its names that end in `.json`. -/
  names : List String
  /-- What is read at a name, from the directory on. -/
  file : String → Option Json

/-- `stem`, of a name that ends in `.json`. -/
def stem (name : String) : String :=
  if name = ".json" then name else .ofList (name.toList.take (name.toList.length - 5))

def LocalIndex.get (l : LocalIndex) (jobId : String) : Option IndexEntry :=
  (l.file (jobId ++ ".json")).bind IndexEntry.validate

def LocalIndex.list (l : LocalIndex) : List IndexEntry :=
  (sortedBy id l.names).filterMap fun name => l.get (stem name)

/-! ## The mirror -/

def indexPrefix : String := "gpuc/index"

def indexKey (jobId : String) : String := indexPrefix ++ "/" ++ jobId ++ ".json"

/-- `KEYS_MAX`: how many keys a listing follows before it stops. -/
def keysMax : Nat := 100000

/-- How many entries `list_index` gets. -/
def listLimit : Nat := 200

/-- **A bucket, and the service that answers for it.** -/
structure Bucket where
  name : String
  /-- Every key, in the order of a listing. -/
  keys : List String
  object : String → Option Json
  /-- How many keys a page has room for that goes on from a place in a listing, or why there is none. -/
  room : Nat → Except String Nat
  room_pos : ∀ place n, room place = .ok n → 0 < n

/-- One answer of `list_objects_v2`: `next` is the token of a truncated one. -/
structure Page where
  contents : List String
  next : Option Nat

namespace Bucket
variable (b : Bucket)

/-- The keys under a prefix. -/
def under (start : String) : List String := b.keys.filter fun key => start.toList <+: key.toList

def listObjects (start : String) (maxKeys : Nat) (token : Option Nat) : Except String Page := do
  let listed := b.under start
  let place := token.getD 0
  let room ← b.room place
  let contents := (listed.drop place).take (min maxKeys room)
  let next := place + contents.length
  pure { contents := contents, next := if next < listed.length then some next else none }

/-- The loop of `list_keys`: every page but the last has a key. -/
def listKeysFrom (start : String) (limit : Nat) :
    Nat → List String → Option Nat → Except String (List String)
  | 0, keys, _ => .ok keys
  | steps + 1, keys, token =>
    if keys.length < limit then do
      let page ← b.listObjects start (min 1000 (limit - keys.length)) token
      match page.next with
      | none => pure (keys ++ page.contents)
      | some next => listKeysFrom start limit steps (keys ++ page.contents) (some next)
    else .ok keys

/-- **`list_keys`**. -/
def listKeys (start : String) (limit : Nat) : Except String (List String) :=
  match b.listKeysFrom start limit limit [] none with
  | .ok keys => .ok (keys.take limit)
  | .error error => .error (let bucket := b.name; s!"could not list s3://{bucket}/{start}: {error}")

def indexAt (key : String) : Option IndexEntry := (b.object key).bind IndexEntry.validate

def getIndex (jobId : String) : Option IndexEntry := b.indexAt (indexKey jobId)

/-- The last of some keys that are objects of JSON. -/
def newestOf (limit : Nat) (keys : List String) : List String :=
  let documents := sortedBy id (keys.filter fun key => ".json".toList <:+ key.toList)
  documents.drop (documents.length - limit)

/-- **`list_index`**. -/
def listIndex (limit : Nat) : Except String (List IndexEntry) := do
  let keys ← b.listKeys (indexPrefix ++ "/") keysMax
  pure (sortedBy IndexEntry.jobId ((newestOf limit keys).filterMap b.indexAt))

end Bucket

/-! ## Both -/

/-- **`JobIndex`**: the local index, and the mirror if there is one. -/
structure JobIndex where
  localIndex : LocalIndex
  s3 : Option Bucket

namespace JobIndex
variable (j : JobIndex)

/-- **`JobIndex.get`**: from the local index, else the mirror. -/
def get (jobId : String) : Option IndexEntry :=
  match j.localIndex.get jobId with
  | some entry => some entry
  | none => j.s3.bind fun b => b.getIndex jobId

/-- **`JobIndex.all`**: every job either index knows, by id, and why that may not be the whole list. -/
def all : Dict String IndexEntry × Option String :=
  let entries := Dict.keyed IndexEntry.jobId j.localIndex.list
  match j.s3 with
  | none => (entries, none)
  | some b =>
    match b.listIndex listLimit with
    | .ok mirrored => (entries.updated (.keyed IndexEntry.jobId mirrored), none)
    | .error error => (entries, some s!"could not read the S3 index: {error}")

end JobIndex

end Gpuc.Control.S3Index
