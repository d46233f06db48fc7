import Gpuc.Laws.Control.Requeue.Validated
import Gpuc.Laws.Control.Templates

/-!
# A requeue runs the same job

The mirror's text and the submitter's document go their own ways: the one is of the job as the host reads
it, written and loaded again for each patch and validated tolerantly, the other has the patches' values
put over it and is validated as any document is. Through every patch the mirror's model stays what the
host would read of the other's (`Mirrors`), and so both are prepared to the same job, under any id
(`requeue_sameJob`).

Assumed of the floats that are written is that they are written as numbers that are read as them, and of
pydantic what it makes of JSON (`LaxJson`).
-/

set_option autoImplicit false

namespace Gpuc.Control.Requeue

open Gpuc.Basis Gpuc.Host.Documents

/-! ## What is written -/

section Written
variable {t : Texts} {model : JobSpecModel}

/-- An integer that is a float's is not too long to be written. -/
theorem short_of_representable {n : Int} (h : Representable n) : Json.hasLongInt (.int n) = false := by
  rw [Json.hasLongInt, decide_eq_false_iff_not]
  intro hlong
  have hnone := Float64.ofInt_eq_none.mpr (overflow_le_of_longInt (longInt_int.mpr hlong))
  rw [show Float64.ofInt n = some (.finite n) from h] at hnone
  cases hnone

theorem short_of_members {pairs : List (String × Json)} (h : ∀ e ∈ pairs, Json.hasLongInt e.2 = false) :
    Json.hasLongInt (.obj pairs) = false := by
  show Json.hasLongMember pairs = false
  rw [Json.hasLongMember_eq, List.any_eq_false]
  exact fun e he => Bool.eq_false_iff.mp (h e he)

theorem short_of_items {items : List Json} (h : ∀ v ∈ items, Json.hasLongInt v = false) :
    Json.hasLongInt (.arr items) = false := by
  show Json.hasLongItem items = false
  rw [Json.hasLongItem_eq, List.any_eq_false]
  exact fun v hv => Bool.eq_false_iff.mp (h v hv)

theorem short_orNull {α : Type} {dump : α → Json} (h : ∀ a, Json.hasLongInt (dump a) = false)
    (x : Option α) : Json.hasLongInt (orNull dump x) = false := by
  cases x with
  | none => rfl
  | some a => exact h a

theorem short_pairs (output : Output) : ∀ e ∈ output.pairs, Json.hasLongInt e.2 = false := by
  simp only [Output.pairs, List.forall_mem_cons, List.not_mem_nil, false_imp_iff, implies_true, and_true]
  have hstr : ∀ text : String, Json.hasLongInt (.str text) = false := fun _ => rfl
  exact ⟨rfl, short_orNull hstr _, short_orNull hstr _, short_orNull hstr _, rfl⟩

/-- **No integer of a model is too long to be written**, when its cards and its interval are read. -/
theorem short_dump (hholds : model.holds = true) (hgpus : Representable model.gpus)
    (hsync : Representable model.syncIntervalS) : ∀ e ∈ model.dump, Json.hasLongInt e.2 = false := by
  obtain ⟨-, -, -, hrange, -⟩ := JobSpecModel.holds_iff.mp hholds
  have hpriority : Representable model.priority := representable_of_small (by omega)
  have hstr : ∀ text : String, Json.hasLongInt (.str text) = false := fun _ => rfl
  have hfloat : ∀ x : Float64, Json.hasLongInt (.float x) = false := fun _ => rfl
  have henv : Json.hasLongInt (.ofDict (model.env.map .str)) = false := by
    apply short_of_members
    intro e he
    obtain ⟨entry, -, rfl⟩ := List.mem_map.mp he
    rfl
  have hsecrets : Json.hasLongInt (ofTexts model.secrets) = false := by
    apply short_of_items
    intro v hv
    obtain ⟨text, -, rfl⟩ := List.mem_map.mp hv
    rfl
  have houtputs : Json.hasLongInt (.arr (model.outputs.map fun output => .ofDict (.ofList output.pairs)))
      = false := by
    apply short_of_items
    intro v hv
    obtain ⟨output, -, rfl⟩ := List.mem_map.mp hv
    apply short_of_members
    intro e he
    exact short_pairs output e (Dict.mem_of_get?_ofList (Dict.get?_eq_some.mpr he))
  simp only [JobSpecModel.dump, List.forall_mem_cons, List.not_mem_nil, false_imp_iff, implies_true,
    and_true]
  exact ⟨rfl, rfl, short_orNull hstr _, rfl, short_of_representable hgpus, rfl, henv, hsecrets, houtputs,
    short_of_representable hsync, short_of_representable hpriority, short_orNull hfloat _,
    short_orNull hfloat _, short_orNull hstr _, rfl, rfl, rfl⟩

/-- A document that is printable is mirrored as a text. -/
theorem specText_eq {document : Dict String Json} (h : Json.Printable t (.ofDict document)) :
    specText t document = .ok (Json.encode t (some twoSpaces) 0 (.ofDict document) ++ ['\n']) := by
  have hdumps : Json.dumps t (some twoSpaces) (.ofDict document) =
      .ok (Json.encode t (some twoSpaces) 0 (.ofDict document)) := if_neg (by simp [h.short])
  rw [specText, hdumps]
  rfl

/-- **And what is mirrored is got again.** -/
theorem getSpec_specText {document : Dict String Json} {text : Text}
    (h : Json.Printable t (.ofDict document)) (htext : specText t document = .ok text) :
    getSpec t text = some document := by
  rw [specText_eq h] at htext
  obtain rfl := Except.ok.inj htext
  unfold getSpec
  rw [Json.loads_encode (some twoSpaces) h (List.all_eq_true.mp (by decide))]
  exact Json.members_ofDict document

/-- A patch is put over the document that is mirrored. -/
theorem specText_updated {document patch : Dict String Json} {text : Text}
    (h : Json.Printable t (.ofDict document)) (h' : Json.Printable t (.ofDict (document.updated patch)))
    (htext : specText t document = .ok text) :
    specText t (document.updated patch) = .ok (mirrorSpecFields t text patch) := by
  unfold mirrorSpecFields
  rw [getSpec_specText h htext]
  dsimp only
  rw [specText_eq h']

/-- A dictionary is printable when each of its values is. -/
theorem printable_ofDict {document : Dict String Json} : Json.Printable t (.ofDict document) ↔
    ∀ k v, document.get? k = some v → Json.Printable t v := by
  constructor
  · exact fun h k v hget => h.member (k, v) (Dict.get?_eq_some.mp hget)
  · exact fun h => .of_members fun e he => h e.1 e.2 (Dict.get?_eq_some.mpr he)

/-- No integer that is accepted is too long to be written. -/
theorem short_accepted {now : Nat} {s : Settable} {value : Json} (h : Accepts t now s value) :
    Json.hasLongInt value = false := by
  unfold Accepts at h
  cases value with
  | null | bool _ | str _ | float _ => rfl
  | arr _ | obj _ => exact h.elim
  | int n =>
    apply short_of_representable
    cases hkind : s.kind with
    | int =>
      rw [hkind] at h
      have hrange := upTo99_int.mp h
      exact representable_of_small (by omega)
    | float =>
      rw [hkind] at h
      obtain ⟨hpositive, x, hx, hdate⟩ := h
      exact representable_of_date (positiveFinite_int.mp hpositive) hx hdate

/-- A patch that is accepted is printable where its floats are. -/
theorem printable_patch {now : Nat} {patch : Dict String Json} (hpatch : AcceptsPatch t now patch)
    (hfloats : ∀ q ∈ (Json.ofDict patch).floats, Json.ReadsFloat t q) :
    Json.Printable t (.ofDict patch) := by
  refine ⟨short_of_members fun e he => ?_, hfloats⟩
  obtain ⟨s, -, haccepts⟩ := hpatch.2 e he
  exact short_accepted haccepts

end Written

/-! ## Through the patches -/

section Patches
variable {V : Type} {t : Texts} {lax : LaxJson} {laxV : Lax V} {ofJson : Json → V} {gpus syncIntervalS : Int}
  {mirrored : Dict String Json} {replaced : Dict String V} {model : JobSpecModel} {text : Text}

/-- **The mirror's document is of the model as the host reads it**, and the submitter's of the model. -/
structure Mirrors (t : Texts) (lax : LaxJson) (laxV : Lax V) (gpus syncIntervalS : Int)
    (mirrored : Dict String Json) (replaced : Dict String V) (model : JobSpecModel) : Prop where
  printable : Json.Printable t (.ofDict mirrored)
  tolerant : Reads lax.toLax (knownKeys mirrored) (model.normal gpus syncIntervalS)
  strict : Reads laxV replaced model
  gpus : Rounds model.gpus gpus
  interval : Rounds model.syncIntervalS syncIntervalS

/-- **A patch leaves them so.** -/
theorem Mirrors.patched {now : Nat} {patch : Dict String Json}
    (h : Mirrors t lax laxV gpus syncIntervalS mirrored replaced model)
    (hembeds : Embeds lax.toLax laxV ofJson) (hpatch : AcceptsPatch t now patch)
    (hfloats : ∀ q ∈ (Json.ofDict patch).floats, Json.ReadsFloat t q) :
    Mirrors t lax laxV gpus syncIntervalS (mirrored.updated patch) (replaced.updated (patch.map ofJson))
      (model.patched patch) where
  printable := by
    apply printable_ofDict.mpr
    intro k v hget
    rw [Dict.get?_updated, Option.or_eq_some_iff] at hget
    rcases hget with hget | ⟨-, hget⟩
    · exact printable_ofDict.mp (printable_patch hpatch hfloats) k v hget
    · exact printable_ofDict.mp h.printable k v hget
  tolerant := by
    rw [JobSpecModel.normal_patched lax hpatch]
    exact h.tolerant.patched (embeds_self lax.toLax) hpatch (get?_knownKeys_updated hpatch mirrored)
  strict := by
    refine h.strict.patched hembeds hpatch fun k => ?_
    rw [Dict.get?_updated, Dict.get?_map]
  gpus := h.gpus
  interval := h.interval

/-- **So do any number of them.** -/
theorem Mirrors.after {patches : List (Nat × Dict String Json)}
    (h : Mirrors t lax laxV gpus syncIntervalS mirrored replaced model)
    (htext : specText t mirrored = .ok text) (hembeds : Embeds lax.toLax laxV ofJson)
    (hpatches : ∀ patch ∈ patches, AcceptsPatch t patch.1 patch.2)
    (hfloats : ∀ patch ∈ patches, ∀ q ∈ (Json.ofDict patch.2).floats, Json.ReadsFloat t q) :
    ∃ mirrored' model', specText t mirrored' = .ok (mirroredBy t text patches) ∧
      Mirrors t lax laxV gpus syncIntervalS mirrored' (replacedBy ofJson replaced patches) model' := by
  induction patches generalizing mirrored replaced model text with
  | nil => exact ⟨mirrored, model, htext, h⟩
  | cons patch patches ih =>
    rw [List.forall_mem_cons] at hpatches hfloats
    have hnext := h.patched hembeds hpatches.1 hfloats.1
    exact ih hnext (specText_updated h.printable hnext.printable htext) hpatches.2 hfloats.2

end Patches

/-! ## What is prepared -/

section Prepare
variable {around : Around} {model model' : JobSpecModel} {jobId : String} {requeuedFrom : Option String}
  {prepared : Prepared}

/-- What is prepared is a job of the model, under its id. -/
theorem prepare_eq_ok (h : prepare around model jobId requeuedFrom = .ok prepared) :
    ∃ spec, model.toSpec around.texts jobId = .ok spec ∧ prepared.model = model ∧
      prepared.spec.jobId = spec.jobId := by
  unfold prepare at h
  obtain ⟨spec, hspec, h⟩ := bind_eq_ok h
  obtain ⟨expanded, hexpanded, h⟩ := bind_eq_ok h
  obtain ⟨secretsBody, -, h⟩ := bind_eq_ok h
  obtain ⟨outputs, -, houtputs⟩ := bind_eq_ok (mapError_eq_ok hexpanded)
  obtain rfl := Except.ok.inj houtputs
  refine ⟨spec, mapError_eq_ok hspec, ?_⟩
  dsimp only at h
  split at h
  · cases h
  · obtain rfl := Except.ok.inj h
    exact ⟨rfl, rfl⟩

/-- **Models of the same job are prepared to the same, or refused the same.** -/
theorem prepare_congr {requeuedFrom' : Option String}
    (h : model.toSpec around.texts jobId = model'.toSpec around.texts jobId) :
    (prepare around model jobId requeuedFrom).map Prepared.run =
      (prepare around model' jobId requeuedFrom').map Prepared.run := by
  unfold prepare
  rw [h]
  cases model'.toSpec around.texts jobId with
  | error raised => rfl
  | ok spec =>
    simp only [Except.mapError, bind, Except.bind]
    cases expandSpec around.fields spec with
    | error refused => rfl
    | ok expanded =>
      dsimp only
      cases gatherSecrets (expanded.secrets.map String.toList) around.environ with
      | error refused => rfl
      | ok secretsBody => cases around.tracked <;> rfl

/-- The mirror holds what a model that is as the host reads it is dumped as. -/
theorem get?_mirrored (model : JobSpecModel) (jobId : String) (value : Json) :
    ∀ e ∈ model.dump, ((model.job jobId).toDict.set "requeued_from" value).get? e.1 = some e.2 := by
  intro e he
  have hkey : e.1 ∈ specFields := List.mem_map_of_mem he
  have hne : e.1 ≠ "requeued_from" := by
    intro heq
    exact absurd (heq ▸ hkey) (by decide)
  rw [Dict.get?_set, if_neg hne]
  apply (Dict.get?_ofList (JobSpec.nodup_pairs _)).mpr
  rw [JobSpecModel.pairs_job]
  exact List.mem_cons_of_mem _ (List.mem_append_left _ he)

/-- What else it holds is short. -/
theorem short_mirrored {value : Json} (hmodel : ∀ e ∈ model.dump, Json.hasLongInt e.2 = false)
    (hvalue : Json.hasLongInt value = false) :
    Json.hasLongInt (.ofDict ((model.job jobId).toDict.set "requeued_from" value)) = false := by
  apply short_of_members
  intro e he
  obtain ⟨key, v⟩ := e
  have hget := Dict.get?_eq_some.mpr he
  rw [Dict.get?_set] at hget
  split at hget
  · obtain rfl := Option.some.inj hget
    exact hvalue
  · have hpair := Dict.mem_of_get?_ofList hget
    rw [JobSpecModel.pairs_job, List.mem_cons, List.mem_append, List.mem_singleton] at hpair
    rcases hpair with heq | hpair | heq
    · obtain rfl := congrArg Prod.snd heq
      rfl
    · exact hmodel _ hpair
    · obtain rfl := congrArg Prod.snd heq
      rfl

/-- **What the mirror holds of a job that was prepared is of the model as the host reads it.** -/
theorem mirrors_mirrored {V : Type} {lax : LaxJson} {laxV : Lax V} {document : Dict String V}
    (hreads : Reads laxV document model) (h : prepare around model jobId requeuedFrom = .ok prepared)
    (hfloats : ∀ mirrored, prepared.mirrored around.texts = .ok mirrored →
      ∀ q ∈ (Json.ofDict mirrored).floats, Json.ReadsFloat around.texts q) :
    ∃ mirrored gpus syncIntervalS, prepared.mirrored around.texts = .ok mirrored ∧
      Mirrors around.texts lax laxV gpus syncIntervalS mirrored document model := by
  obtain ⟨spec, hspec, hmodel, hjobId⟩ := prepare_eq_ok h
  obtain ⟨gpus, syncIntervalS, hgpus, hsync, rfl⟩ := (JobSpecModel.toSpec_eq_ok hreads.holds).mp hspec
  have hholds := JobSpecModel.holds_normal hreads.holds hgpus hsync
  have hmirrored : prepared.mirrored around.texts = .ok
      (((model.normal gpus syncIntervalS).job jobId).toDict.set "requeued_from"
        (orNull .str prepared.requeuedFrom)) := by
    unfold Prepared.mirrored
    rw [hmodel, hjobId]
    show (model.toSpec around.texts jobId >>= _) = _
    rw [hspec]
    rfl
  have hshort := short_dump hholds hgpus.representable hsync.representable
  exact ⟨_, gpus, syncIntervalS, hmirrored,
    { printable := ⟨short_mirrored hshort (short_orNull (fun _ => rfl) _), hfloats _ hmirrored⟩
      tolerant := reads_of_dump hholds (get?_mirrored _ jobId _)
      strict := hreads
      gpus := hgpus
      interval := hsync }⟩

end Prepare

/-! ## The requeue -/

section Requeue
variable {V : Type} {lax : LaxJson} {laxV : Lax V} {ofJson : Json → V} {formats : Formats}
  {around : Around} {document : Dict String V} {model : JobSpecModel} {jobId : String}
  {requeuedFrom : Option String} {prepared : Prepared} {patches : List (Nat × Dict String Json)}

/-- **A requeue runs the same job**: a document that was validated and prepared is mirrored, and after any
patches that were accepted the mirror holds a document that is validated, tolerantly; the original with
the patches' values in it is validated too; and wherever and under whatever id the two are prepared, they
come to the same job with the same secrets, or to the same refusal. -/
theorem requeue_sameJob (hvalid : modelValidate laxV document = some model)
    (hprepared : prepare around model jobId requeuedFrom = .ok prepared)
    (hembeds : Embeds lax.toLax laxV ofJson)
    (hpatches : ∀ patch ∈ patches, patchError around.texts formats patch.1 patch.2 = .ok none)
    (hfloats : ∀ mirrored, prepared.mirrored around.texts = .ok mirrored →
      ∀ q ∈ (Json.ofDict mirrored).floats, Json.ReadsFloat around.texts q)
    (hpatchFloats : ∀ patch ∈ patches, ∀ q ∈ (Json.ofDict patch.2).floats, Json.ReadsFloat around.texts q) :
    ∃ mirrored text mirrored' again replaced,
      prepared.mirrored around.texts = .ok mirrored ∧ specText around.texts mirrored = .ok text ∧
      getSpec around.texts (mirroredBy around.texts text patches) = some mirrored' ∧
      validateTolerant lax.toLax mirrored' = some again ∧
      modelValidate laxV (replacedBy ofJson document patches) = some replaced ∧
      ∀ later newId from' from'', (prepare later again newId from').map Prepared.run =
        (prepare later replaced newId from'').map Prepared.run := by
  obtain ⟨mirrored, gpus, syncIntervalS, hmirrored, hmirrors⟩ :=
    @mirrors_mirrored around model jobId requeuedFrom prepared V lax laxV document
      (modelValidate_eq_some.mp hvalid) hprepared hfloats
  have htext := specText_eq hmirrors.printable
  have haccepts : ∀ patch ∈ patches, AcceptsPatch around.texts patch.1 patch.2 :=
    fun patch hpatch => patchError_eq_none.mp (hpatches patch hpatch)
  obtain ⟨mirrored', replaced, htext', hafter⟩ := hmirrors.after htext hembeds haccepts hpatchFloats
  refine ⟨mirrored, _, mirrored', replaced.normal gpus syncIntervalS, replaced, hmirrored, htext,
    getSpec_specText hafter.printable htext', modelValidate_eq_some.mpr hafter.tolerant,
    modelValidate_eq_some.mpr hafter.strict, fun later newId from' from'' => ?_⟩
  exact prepare_congr
    (JobSpecModel.toSpec_normal hafter.strict.holds hafter.gpus hafter.interval later.texts)

end Requeue

/-- A text, as it is, and nothing of anything else. -/
def plainText : Json → Option String
  | .str s => some s
  | _ => none

/-- What is made of JSON where nothing is converted but whole numbers. -/
def plainLax : LaxJson where
  isNone
    | .null => true
    | _ => false
  text := plainText
  toStr := plainText
  toInt
    | .int n => some n
    | .float (.finite q) => if q.den = 1 then some q.num else none
    | _ => none
  toFloat
    | .float x => some x
    | .int n => Float64.ofInt n
    | _ => none
  toBool
    | .bool b => some b
    | _ => none
  toStrDict value := value.members.bind fun d => d.traverse fun _ => plainText
  toStrList
    | .arr items => items.mapM plainText
    | _ => none
  toList
    | .arr items => some items
    | _ => none
  toFields := Json.members
  isNone_eq v := by cases v <;> simp
  text_str _ := rfl
  toStr_str _ := rfl
  toInt_int _ := rfl
  toInt_float _ _ := if_pos rfl
  toFloat_float _ := rfl
  toFloat_int _ _ h := h
  toBool_bool _ := rfl
  toStrDict_ofDict texts := by
    rw [Json.members_ofDict]
    exact @Dict.traverse_map String String _ texts Json.str (fun _ => plainText) fun _ _ => rfl
  toStrList_ofTexts texts := by
    show (texts.map Json.str).mapM _ = some texts
    induction texts with
    | nil => rfl
    | cons text texts ih =>
      rw [List.map_cons, List.mapM_cons, ih]
      rfl
  toList_arr _ := rfl
  toFields_obj _ := rfl

/-- The floats that are mirrored of a model. -/
def mirroredFloats (around : Around) (model : JobSpecModel) (jobId : String)
    (requeuedFrom : Option String) : Option (List ℚ) := do
  let prepared ← (prepare around model jobId requeuedFrom).toOption
  let mirrored ← (prepared.mirrored around.texts).toOption
  return (Json.ofDict mirrored).floats

theorem mirroredFloats_eq {around : Around} {model : JobSpecModel} {jobId : String}
    {requeuedFrom : Option String} {prepared : Prepared} {mirrored : Dict String Json}
    (hprepared : prepare around model jobId requeuedFrom = .ok prepared)
    (hmirrored : prepared.mirrored around.texts = .ok mirrored) :
    mirroredFloats around model jobId requeuedFrom = some (Json.ofDict mirrored).floats := by
  unfold mirroredFloats
  simp only [hprepared, hmirrored, Except.toOption, Option.bind_eq_bind, Option.bind_some, Option.pure_def]

/-- Texts in which one float is written, and read, as the interpreter does. -/
def minuteTexts : Texts :=
  { plainTexts with
    ofFloat := fun x => if x = .finite 60 then "60.0" else plainTexts.ofFloat x
    toFloat := fun s => if s = "60.0" then some (.finite 60) else none }

theorem readsFloat_minute : Json.ReadsFloat minuteTexts 60 := by
  refine ⟨⟨[], ['6', '0'], ['.', '0'], [], ⟨.inl rfl, ?_, ?_, .inl rfl⟩, nofun, by decide +kernel⟩,
    by decide +kernel⟩
  · exact .inr ⟨'6', ['0'], rfl, by decide, List.all_eq_true.mp (by decide)⟩
  · exact .inr ⟨'0', [], rfl, List.all_eq_true.mp (by decide)⟩

/-- A document with a limit, and an output. -/
def training : Dict String Json :=
  .ofList [("command", .str "train"), ("priority", .int 5), ("max_runtime_min", .int 60),
    ("outputs", .arr [.obj [("path", .str "out"), ("s3", .str "s3://b/\x7bjob_id\x7d/out")]])]

def results : Output where
  path := "out"
  s3 := some "s3://b/\x7bjob_id\x7d/out"
  hf := none
  hfPath := none
  hfCreate := false

def trainingModel : JobSpecModel :=
  { command := "train", priority := 5, maxRuntimeMin := some (.finite 60), outputs := [results] }

/-- A checkout, and nothing else around it. -/
def checkout : Around :=
  { texts := minuteTexts, fields := jobIdOnly, environ := .empty, tracked := true }

/-- The job gets another priority, and its limit is cleared. -/
def changes : List (Nat × Dict String Json) :=
  [(0, .ofList [("priority", .int 7)]), (1, .ofList [("max_runtime_min", .null)])]

theorem reads_training : Reads plainLax.toLax training trainingModel where
  known := by
    intro k v hget
    have hkey := Dict.mem_keys.mpr ⟨v, hget⟩
    exact (by decide : training.keys ⊆ specFields) hkey
  command := rfl
  name := rfl
  setup := rfl
  python := rfl
  gpus := rfl
  useShared := rfl
  env := rfl
  secrets := rfl
  outputs := rfl
  syncIntervalS := rfl
  priority := rfl
  maxRuntimeMin := congrArg (Option.map some) (Float64.ofInt_small (by decide : (60 : Int).natAbs < 2 ^ 53))
  estimatedRuntimeMin := rfl
  progressCommand := rfl
  progressIntervalS := rfl
  autoPreempt := rfl
  cleanup := rfl
  holds := by decide +kernel

theorem requeue_sameJob_training : ∃ prepared, prepare checkout trainingModel "a" none = .ok prepared ∧
    ∃ mirrored text mirrored' again replaced,
      prepared.mirrored checkout.texts = .ok mirrored ∧ specText checkout.texts mirrored = .ok text ∧
      getSpec checkout.texts (mirroredBy checkout.texts text changes) = some mirrored' ∧
      validateTolerant plainLax.toLax mirrored' = some again ∧
      modelValidate plainLax.toLax (replacedBy id training changes) = some replaced ∧
      ∀ later newId from' from'', (prepare later again newId from').map Prepared.run =
        (prepare later replaced newId from'').map Prepared.run := by
  have hok : (prepare checkout trainingModel "a" none).isOk = true := by decide +kernel
  have hminutes : mirroredFloats checkout trainingModel "a" none = some [60, 60] := by decide +kernel
  have haccepted : ∀ patch ∈ changes,
      patchError checkout.texts plainFormats patch.1 patch.2 = .ok none := by decide +kernel
  have hnone : ∀ patch ∈ changes, (Json.ofDict patch.2).floats = [] := by decide +kernel
  obtain ⟨prepared, hprepared⟩ := exists_of_isOk hok
  have hfloats : ∀ mirrored, prepared.mirrored checkout.texts = .ok mirrored →
      ∀ q ∈ (Json.ofDict mirrored).floats, Json.ReadsFloat checkout.texts q := by
    intro mirrored hmirrored q hq
    have hread := mirroredFloats_eq hprepared hmirrored
    rw [← Option.some.inj (hminutes.symm.trans hread)] at hq
    obtain rfl : q = 60 := by simpa using hq
    exact readsFloat_minute
  have hpatchFloats : ∀ patch ∈ changes, ∀ q ∈ (Json.ofDict patch.2).floats,
      Json.ReadsFloat checkout.texts q := by
    intro patch hpatch q hq
    rw [hnone patch hpatch] at hq
    cases hq
  exact ⟨prepared, hprepared, requeue_sameJob (modelValidate_eq_some.mpr reads_training) hprepared
    (embeds_self plainLax.toLax) haccepted hfloats hpatchFloats⟩

end Gpuc.Control.Requeue
