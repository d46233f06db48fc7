import Gpuc.Basis.Encode
import Gpuc.Control.Submit
import Gpuc.Host.Patch

/-!
# The spec a job is run from again

A spec is a document the submitter writes, validated by pydantic (`JobSpecModel`). `prepare` makes of it
the job as the host will run it, and the mirror keeps it with its templates unexpanded. `gpuc set`
replaces keys of the mirrored document, as text and raw, and `gpuc requeue` validates that document again,
tolerantly, and prepares it under a new id.

A document's values are of any type (`V`): YAML has dates and bytes besides what JSON has. What pydantic
makes of a value is a parameter (`Lax`), and so is the git checkout. Texts of refusals are left out, with
the warnings of a submit.
-/

set_option autoImplicit false

namespace Gpuc.Control.Requeue

open Gpuc.Basis Gpuc.Host.Documents

/-! ## What pydantic makes of a value -/

/-- The conversions the models use, of a value that has to be there. -/
structure Lax (V : Type) where
  isNone : V → Bool
  /-- A member of a `Literal`, which is a text. -/
  text : V → Option String
  toStr : V → Option String
  toInt : V → Option Int
  toFloat : V → Option Float64
  toBool : V → Option Bool
  toStrDict : V → Option (Dict String String)
  toStrList : V → Option (List String)
  toList : V → Option (List V)
  /-- The fields of a nested model. -/
  toFields : V → Option (Dict String V)

/-- **What it makes of JSON**: a value of the type asked for is itself, an integer a float, and a float
that is a whole number an integer. -/
structure LaxJson extends Lax Json where
  isNone_eq : ∀ v, isNone v = true ↔ v = .null
  text_str : ∀ s, text (.str s) = some s
  toStr_str : ∀ s, toStr (.str s) = some s
  toInt_int : ∀ n, toInt (.int n) = some n
  toInt_float : ∀ n : Int, n.natAbs < 2 ^ 53 → toInt (.float (.finite n)) = some n
  toFloat_float : ∀ x, toFloat (.float x) = some x
  toFloat_int : ∀ n x, Float64.ofInt n = some x → toFloat (.int n) = some x
  toBool_bool : ∀ b, toBool (.bool b) = some b
  toStrDict_ofDict : ∀ texts : Dict String String, toStrDict (.ofDict (texts.map .str)) = some texts
  toStrList_ofTexts : ∀ texts, toStrList (ofTexts texts) = some texts
  toList_arr : ∀ items, toList (.arr items) = some items
  toFields_obj : ∀ pairs, toFields (.obj pairs) = some (Dict.ofList pairs)

/-- **A JSON value is read the same in another document**, where a number or nothing is asked for. -/
structure Embeds {V : Type} (lax : Lax Json) (laxV : Lax V) (ofJson : Json → V) : Prop where
  isNone : ∀ v, laxV.isNone (ofJson v) = lax.isNone v
  toInt : ∀ v, laxV.toInt (ofJson v) = lax.toInt v
  toFloat : ∀ v, laxV.toFloat (ofJson v) = lax.toFloat v

/-! ## The model -/

/-- `JobSpecModel`: the spec as the submitter writes it. An output has the fields of the host's. -/
structure JobSpecModel where
  command : String
  name : String := ""
  setup : Option String := none
  python : String := defaultPython
  gpus : Int := 1
  useShared : Bool := false
  env : Dict String String := .empty
  secrets : List String := []
  outputs : List Output := []
  syncIntervalS : Int := 180
  priority : Int := 50
  maxRuntimeMin : Option Float64 := none
  estimatedRuntimeMin : Option Float64 := none
  progressCommand : Option String := none
  progressIntervalS : Float64 := defaultIntervalS
  autoPreempt : Bool := false
  cleanup : String := "on_success"

/-- `JobSpecModel.model_fields`. -/
def specFields : List String :=
  ["command", "name", "setup", "python", "gpus", "use_shared", "env", "secrets", "outputs",
    "sync_interval_s", "priority", "max_runtime_min", "estimated_runtime_min", "progress_command",
    "progress_interval_s", "auto_preempt", "cleanup"]

/-- `OutputModel.model_fields`. -/
def outputFields : List String := ["path", "s3", "hf", "hf_path", "hf_create"]

/-- Is the float so much, or more? -/
def atLeast (bound : ℚ) : Float64 → Bool
  | .finite q => bound ≤ q
  | .infinite negative => !negative
  | .nan => false

/-- What the fields may hold, beside their types. -/
def JobSpecModel.holds (model : JobSpecModel) : Bool :=
  Text.strip model.command.toList ≠ [] && 0 ≤ model.gpus && 10 ≤ model.syncIntervalS &&
    (0 ≤ model.priority && model.priority ≤ 99) && model.estimatedRuntimeMin.all positive &&
    atLeast 5 model.progressIntervalS && model.cleanup ∈ cleanupPolicies

section Validate
variable {V : Type} (lax : Lax V)

/-- A field with a default. -/
def fieldOr {α : Type} (default' : α) (read : V → Option α) : Option V → Option α
  | none => some default'
  | some value => read value

/-- A field that may be null, and is by default. -/
def nullable {α : Type} (read : V → Option α) : Option V → Option (Option α)
  | none => some none
  | some value => if lax.isNone value then some none else (read value).map some

/-- `OutputModel`. -/
def Output.validate (value : V) : Option Output := do
  let fields ← lax.toFields value
  guard (fields.keys.all (· ∈ outputFields))
  let path ← (fields.get? "path").bind lax.toStr
  let s3 ← nullable lax lax.toStr (fields.get? "s3")
  let hf ← nullable lax lax.toStr (fields.get? "hf")
  let hfPath ← nullable lax lax.toStr (fields.get? "hf_path")
  let hfCreate ← fieldOr false lax.toBool (fields.get? "hf_create")
  return { path, s3, hf, hfPath, hfCreate }

/-- **`JobSpecModel.model_validate`**: every key checked, none extra. -/
def modelValidate (document : Dict String V) : Option JobSpecModel := do
  guard (document.keys.all (· ∈ specFields))
  let command ← (document.get? "command").bind lax.toStr
  let name ← fieldOr "" lax.toStr (document.get? "name")
  let setup ← nullable lax lax.toStr (document.get? "setup")
  let python ← fieldOr defaultPython lax.toStr (document.get? "python")
  let gpus ← fieldOr 1 lax.toInt (document.get? "gpus")
  let useShared ← fieldOr false lax.toBool (document.get? "use_shared")
  let env ← fieldOr .empty lax.toStrDict (document.get? "env")
  let secrets ← fieldOr [] lax.toStrList (document.get? "secrets")
  let outputs ← fieldOr [] (fun value => (lax.toList value).bind (List.mapM (Output.validate lax)))
    (document.get? "outputs")
  let syncIntervalS ← fieldOr 180 lax.toInt (document.get? "sync_interval_s")
  let priority ← fieldOr 50 lax.toInt (document.get? "priority")
  let maxRuntimeMin ← nullable lax lax.toFloat (document.get? "max_runtime_min")
  let estimatedRuntimeMin ← nullable lax lax.toFloat (document.get? "estimated_runtime_min")
  let progressCommand ← nullable lax lax.toStr (document.get? "progress_command")
  let progressIntervalS ← fieldOr defaultIntervalS lax.toFloat (document.get? "progress_interval_s")
  let autoPreempt ← fieldOr false lax.toBool (document.get? "auto_preempt")
  let cleanup ← fieldOr "on_success" lax.text (document.get? "cleanup")
  let model : JobSpecModel :=
    { command, name, setup, python, gpus, useShared, env, secrets, outputs, syncIntervalS, priority,
      maxRuntimeMin, estimatedRuntimeMin, progressCommand, progressIntervalS, autoPreempt, cleanup }
  guard model.holds
  return model

end Validate

/-- `_known_keys`, of an output. -/
def knownOutput : Json → Json
  | .obj pairs => .ofDict ((Dict.ofList pairs).filter fun key _ => key ∈ outputFields)
  | value => value

/-- **`_known_keys`**. -/
def knownKeys (document : Dict String Json) : Dict String Json :=
  let known := document.filter fun key _ => key ∈ specFields
  match known.get? "outputs" with
  | some (.arr outputs) => known.set "outputs" (.arr (outputs.map knownOutput))
  | _ => known

/-- **`validate`**, tolerantly: the keys this build does not know are dropped first. -/
def validateTolerant (lax : Lax Json) (document : Dict String Json) : Option JobSpecModel :=
  modelValidate lax (knownKeys document)

/-! ## The job -/

/-- `model_dump`. -/
def JobSpecModel.dump (model : JobSpecModel) : List (String × Json) :=
  [("command", .str model.command),
    ("name", .str model.name),
    ("setup", orNull .str model.setup),
    ("python", .str model.python),
    ("gpus", .int model.gpus),
    ("use_shared", .bool model.useShared),
    ("env", .ofDict (model.env.map .str)),
    ("secrets", ofTexts model.secrets),
    ("outputs", .arr (model.outputs.map fun output => .ofDict (.ofList output.pairs))),
    ("sync_interval_s", .int model.syncIntervalS),
    ("priority", .int model.priority),
    ("max_runtime_min", orNull .float model.maxRuntimeMin),
    ("estimated_runtime_min", orNull .float model.estimatedRuntimeMin),
    ("progress_command", orNull .str model.progressCommand),
    ("progress_interval_s", .float model.progressIntervalS),
    ("auto_preempt", .bool model.autoPreempt),
    ("cleanup", .str model.cleanup)]

/-- **`to_spec`**. -/
def JobSpecModel.toSpec (t : Texts) (model : JobSpecModel) (jobId : String) : Except Raised JobSpec :=
  JobSpec.fromDict t jobId (.ofDict (.ofList (model.dump ++ [("job_id", .str jobId)])))

/-- What leaves `prepare`. -/
inductive Refusal where
  /-- The host's reader raised. -/
  | raised (e : Raised)
  | submit (e : SubmitError)
  | format (e : FormatError)
  | notARepo
  deriving DecidableEq

/-- **`expand_job_id`**, of a spec with all its fields. -/
def expandSpec (fields : Host.Fields) (spec : JobSpec) : Checked JobSpec := do
  let outputs ← spec.outputs.mapM fun output => do
    let expanded ← expandOutput fields spec.jobId
      { path := output.path, s3 := output.s3, hf := output.hf, hfPath := output.hfPath }
    return { output with s3 := expanded.s3, hf := expanded.hf, hfPath := expanded.hfPath }
  return { spec with outputs }

/-- A spec checked for everything a submit can fail on without a host. -/
structure Prepared where
  model : JobSpecModel
  /-- The job as the host will run it. -/
  spec : JobSpec
  secretsBody : Text
  requeuedFrom : Option String := none

/-- The job that is run, and its secrets. -/
def Prepared.run (prepared : Prepared) : JobSpec × Text := (prepared.spec, prepared.secretsBody)

/-- What a submit has around it: the fields of a template, the environment, and whether the workdir is a
git checkout, where it has to be. -/
structure Around where
  texts : Texts
  fields : Host.Fields
  environ : Dict Text Text
  tracked : Bool

/-- **`prepare`**, under an id. -/
def prepare (around : Around) (model : JobSpecModel) (jobId : String) (requeuedFrom : Option String) :
    Except Refusal Prepared := do
  let unexpanded ← (model.toSpec around.texts jobId).mapError .raised
  let spec ← (expandSpec around.fields unexpanded).mapError (Sum.elim .submit .format)
  let secretsBody ← (gatherSecrets (spec.secrets.map String.toList) around.environ).mapError .submit
  if !around.tracked then throw .notARepo
  return { model, spec, secretsBody, requeuedFrom }

/-! ## The mirror -/

/-- **`Prepared.mirrored`**: the spec with its templates unexpanded. -/
def Prepared.mirrored (t : Texts) (prepared : Prepared) : Except Raised (Dict String Json) := do
  let spec ← prepared.model.toSpec t prepared.spec.jobId
  return spec.toDict.set "requeued_from" (orNull .str prepared.requeuedFrom)

theorem white_twoSpaces : ∀ c ∈ [' ', ' '], Json.isWhite c = true := List.all_eq_true.mp (by decide)

/-- `indent=2`. -/
def twoSpaces : Json.Indent := ⟨[' ', ' '], white_twoSpaces⟩

/-- What `put_spec_document` puts. -/
def specText (t : Texts) (document : Dict String Json) : Except Raised Text := do
  let text ← Json.dumps t (some twoSpaces) (.ofDict document)
  return text ++ ['\n']

/-- **`get_spec`**: nothing for what is no JSON, or no object. -/
def getSpec (t : Texts) (text : Text) : Option (Dict String Json) :=
  match Json.loads t text with
  | .ok value => value.members
  | .error _ => none

/-- **`mirror_spec_fields`**: a mirror that cannot be updated is left as it is. -/
def mirrorSpecFields (t : Texts) (text : Text) (fields : Dict String Json) : Text :=
  match getSpec t text with
  | none => text
  | some document =>
    match specText t (document.updated fields) with
    | .ok text' => text'
    | .error _ => text

/-- **Patches in turn**, each with when it was given, into what is mirrored. -/
def mirroredBy (t : Texts) (text : Text) (patches : List (Nat × Dict String Json)) : Text :=
  patches.foldl (fun text patch => mirrorSpecFields t text patch.2) text

/-- Patches in turn, in place of the fields of a submitter's document. -/
def replacedBy {V : Type} (ofJson : Json → V) (document : Dict String V)
    (patches : List (Nat × Dict String Json)) : Dict String V :=
  patches.foldl (fun document patch => document.updated (patch.2.map ofJson)) document

end Gpuc.Control.Requeue
