import Gpuc.Control.HostDocument
import Gpuc.Laws.Control.Registry
import Gpuc.Laws.Job.Merged

/-!
# The values of an environment are not printed

Two configs that differ in the values of their environments at most (`ApartFromEnv`) read as configs
that do (`fromDict_together`), whatever their shape, and what is reported of the two is the same: the
lines about a patch, as long as the patch differs from each in the same names, and the documents of the
entries that cache them, but for `cache_dir`, which is the one value that is shown (`env_unprinted`).

Names and values are as the host reads them (`as_str_dict`): an environment that is no object has no
name, and a value is its text.
-/

set_option autoImplicit false

namespace Gpuc.Control

open Gpuc.Basis Gpuc.Host.Documents Gpuc.Control.Remote Gpuc.Control.Connect

/-! ## Documents up to the order of their keys -/

/-- **Two documents are the same but for the order of keys.** -/
inductive Alike : Json → Json → Prop
  | refl (v : Json) : Alike v v
  | obj {pairs pairs' : List (String × Json)} :
      (∀ k, k ∈ (Dict.ofList pairs).keys ↔ k ∈ (Dict.ofList pairs').keys) →
      (∀ k v v', (Dict.ofList pairs).get? k = some v → (Dict.ofList pairs').get? k = some v' →
        Alike v v') →
      Alike (.obj pairs) (.obj pairs')

/-- Two values of a key, if it has any. -/
abbrev AlikeAt : Option Json → Option Json → Prop := Option.Rel Alike

theorem AlikeAt.of_eq {v v' : Option Json} (h : v = v') : AlikeAt v v' := by
  subst h
  cases v with
  | none => exact .none
  | some v => exact .some (.refl v)

theorem AlikeAt.isSome_eq {v v' : Option Json} (h : AlikeAt v v') : v.isSome = v'.isSome := by
  cases h with
  | none => rfl
  | some _ => rfl

/-- Dictionaries that are alike key by key are alike. -/
theorem alike_ofDict {d d' : Dict String Json} (h : ∀ k, AlikeAt (d.get? k) (d'.get? k)) :
    Alike (.ofDict d) (.ofDict d') := by
  refine .obj ?_ ?_
  · intro k
    rw [Dict.ofList_entries, Dict.ofList_entries, Dict.mem_keys, Dict.mem_keys,
      ← Option.isSome_iff_exists, ← Option.isSome_iff_exists, (h k).isSome_eq]
  · intro k v v' hv hv'
    rw [Dict.ofList_entries] at hv hv'
    have hk := h k
    rw [hv, hv'] at hk
    cases hk with
    | some hvalue => exact hvalue

/-- What was put over two dictionaries decides, where it has the key. -/
theorem AlikeAt.update {d d' p p' : Dict String Json} {k : String}
    (hpatch : AlikeAt (p.get? k) (p'.get? k))
    (hbelow : p.get? k = none → AlikeAt (d.get? k) (d'.get? k)) :
    AlikeAt ((update d p).get? k) ((update d' p').get? k) := by
  rw [get?_update, get?_update]
  cases hp : p.get? k with
  | none =>
    rw [hp] at hpatch
    cases hp' : p'.get? k with
    | none => exact hbelow hp
    | some v' =>
      rw [hp'] at hpatch
      cases hpatch
  | some v =>
    rw [hp] at hpatch
    cases hp' : p'.get? k with
    | none =>
      rw [hp'] at hpatch
      cases hpatch
    | some v' =>
      rw [hp'] at hpatch
      exact hpatch

/-- Lists of pairs of the same keys give a key values that are alike, if the pairs of it are. -/
theorem alikeAt_ofList {es es' : List (String × Json)} {k : String}
    (h : List.Forall₂ (fun e e' => e.1 = e'.1 ∧ (e.1 = k → Alike e.2 e'.2)) es es') :
    AlikeAt ((Dict.ofList es).get? k) ((Dict.ofList es').get? k) := by
  have hlookup : ∀ {es es' : List (String × Json)},
      List.Forall₂ (fun e e' => e.1 = e'.1 ∧ (e.1 = k → Alike e.2 e'.2)) es es' →
        AlikeAt (es.lookup k) (es'.lookup k) := by
    intro es es' h
    induction h with
    | nil => exact .none
    | @cons e e' es es' he _ ih =>
      obtain ⟨hkey, hvalue⟩ := he
      rw [List.lookup_cons, List.lookup_cons, ← hkey]
      by_cases hk : k = e.1
      · rw [hk, beq_self_eq_true]
        exact .some (hvalue hk.symm)
      · rw [beq_false_of_ne hk]
        exact ih
  rw [Dict.get?_ofList_eq_lookup, Dict.get?_ofList_eq_lookup]
  exact hlookup (List.forall₂_reverse_iff.mpr h)

/-! ## Configs that differ in the values of their environments -/

/-- The same names are in two environments. -/
def SameNames (env env' : Dict String String) : Prop := ∀ name, name ∈ env.keys ↔ name ∈ env'.keys

/-- The environment of a config, as the host reads it. -/
def envOf (t : Texts) (fields : Dict String Json) : Except Raised (Dict String String) :=
  asStrDict t (.ofDict fields) "env"

/-- **Two documents are equal but for the values under `env`**, with the same names there. What is under
`env` may be anything: what the host cannot read, it cannot read in either. -/
structure ApartFromEnv (t : Texts) (fields fields' : Dict String Json) : Prop where
  elsewhere : ∀ key ≠ "env", fields.get? key = fields'.get? key
  present : "env" ∈ fields.keys ↔ "env" ∈ fields'.keys
  names : Together SameNames (envOf t fields) (envOf t fields')

/-- A name that a config and a patch differ in. -/
def DifferAt (t : Texts) (fields patch : Dict String Json) (name : String) : Prop :=
  ∃ env asked, envOf t fields = .ok env ∧ envOf t patch = .ok asked ∧ env.get? name ≠ asked.get? name

/-- **Two readings that differ in the values of their environments at most.** -/
structure EqualButEnv (config config' : HostConfig) : Prop where
  rest : { config with env := .empty } = { config' with env := .empty }
  names : SameNames config.env config'.env

variable {t : Texts} {fields fields' patch patch' : Dict String Json}

theorem ApartFromEnv.agree (h : ApartFromEnv t fields fields') {key : String} (hkey : key ≠ "env") :
    Agree (.ofDict fields) (.ofDict fields') key := by
  show (fieldsOf (.ofDict fields)).get? key = (fieldsOf (.ofDict fields')).get? key
  rw [fieldsOf_ofDict, fieldsOf_ofDict]
  exact h.elsewhere key hkey

theorem envOf_update : envOf t (update fields patch) =
    if "env" ∈ patch.keys then envOf t patch else envOf t fields := by
  have hagree : ∀ {d d' : Dict String Json}, d.get? "env" = d'.get? "env" → envOf t d = envOf t d' := by
    intro d d' h
    refine Agree.asStrDict ?_
    show (fieldsOf (.ofDict d)).get? "env" = (fieldsOf (.ofDict d')).get? "env"
    rw [fieldsOf_ofDict, fieldsOf_ofDict, h]
  split
  · next hpresent =>
    obtain ⟨value, hvalue⟩ := Dict.mem_keys.mp hpresent
    apply hagree
    rw [get?_update, hvalue, Option.some_or]
  · next habsent =>
    apply hagree
    rw [get?_update, Dict.get?_eq_none.mpr habsent, Option.none_or]

theorem mem_keys_update {d p : Dict String Json} {key : String} :
    key ∈ (update d p).keys ↔ key ∈ d.keys ∨ key ∈ p.keys := by
  rw [update, Dict.mem_keys_ofList, List.map_append, List.mem_append]
  rfl

theorem ApartFromEnv.mem_keys (h : ApartFromEnv t fields fields') (key : String) :
    key ∈ fields.keys ↔ key ∈ fields'.keys := by
  by_cases hkey : key = "env"
  · rw [hkey]
    exact h.present
  · rw [Dict.mem_keys, Dict.mem_keys, h.elsewhere key hkey]

/-- **Patching two configs keeps them equal but for the environment.** -/
theorem ApartFromEnv.update (h : ApartFromEnv t fields fields') (hpatch : ApartFromEnv t patch patch') :
    ApartFromEnv t (update fields patch) (update fields' patch') := by
  refine ⟨?_, ?_, ?_⟩
  · intro key hkey
    rw [get?_update, get?_update, h.elsewhere key hkey, hpatch.elsewhere key hkey]
  · rw [mem_keys_update, mem_keys_update, h.present, hpatch.present]
  · rw [envOf_update, envOf_update]
    by_cases hasked : "env" ∈ patch.keys
    · rw [if_pos hasked, if_pos (hpatch.present.mp hasked)]
      exact hpatch.names
    · rw [if_neg hasked, if_neg (mt hpatch.present.mpr hasked)]
      exact h.names

/-- **They read as configs that differ so**, or reading either raises the same. -/
theorem fromDict_together (h : ApartFromEnv t fields fields') :
    Together (fun config config' => EqualButEnv config config' ∧
        envOf t fields = .ok config.env ∧ envOf t fields' = .ok config'.env)
      (HostConfig.fromDict t (.ofDict fields)) (HostConfig.fromDict t (.ofDict fields')) := by
  have hagree : ∀ key, key ≠ "env" → Agree (.ofDict fields) (.ofDict fields') key :=
    fun _ => h.agree
  have hprovider : (fieldsOf (.ofDict fields)).get? "provider" =
      (fieldsOf (.ofDict fields')).get? "provider" := hagree "provider" (by decide)
  unfold HostConfig.fromDict
  rw [(hagree "schema_version" (by decide)).asInt, (hagree "host" (by decide)).asStr,
    (hagree "gpus" (by decide)).asOptStrList, (hagree "shared_gpus" (by decide)).asStrList,
    (hagree "idle_minutes" (by decide)).asFloat, (hagree "s3_prefix" (by decide)).asOptStr,
    (hagree "created_at" (by decide)).asOptStr, (hagree "retention_days" (by decide)).asOptFloat,
    (hagree "workdir_days" (by decide)).asOptFloat, (hagree "pkg_commit" (by decide)).asOptStr,
    hprovider]
  -- all is read the same of both, up to the environment
  refine (Together.of_eq rfl).bind fun version _ hversion => ?_
  refine (Together.of_eq rfl).bind fun host _ hhost => ?_
  refine (Together.of_eq rfl).bind fun gpus _ hgpus => ?_
  refine (Together.of_eq rfl).bind fun sharedGpus _ hshared => ?_
  refine (Together.of_eq rfl).bind fun idleMinutes _ hidle => ?_
  refine (Together.of_eq rfl).bind fun s3Prefix _ hs3 => ?_
  refine (Together.of_eq rfl).bind fun createdAt _ hcreated => ?_
  refine (Together.of_eq rfl).bind fun retentionDays _ hretention => ?_
  refine (Together.of_eq rfl).bind fun workdirDays _ hworkdir => ?_
  subst hversion hhost hgpus hshared hidle hs3 hcreated hretention hworkdir
  refine h.names.answers.bind fun env env' ⟨hsame, hread, hread'⟩ => ?_
  refine (Together.of_eq rfl).bind fun pkgCommit _ hcommit => ?_
  subst hcommit
  exact .ok ⟨⟨rfl, hsame⟩, hread, hread'⟩

/-! ## The report on a patch -/

theorem EqualButEnv.pkgCommit {config config' : HostConfig} (h : EqualButEnv config config') :
    config.pkgCommit = config'.pkgCommit := by
  have hrest := HostConfig.mk.inj h.rest
  obtain ⟨-, -, -, -, -, -, -, -, -, -, -, hcommit⟩ := hrest
  exact hcommit

/-- What is written of the two is the same, but for the environment. -/
theorem EqualButEnv.pairs {config config' : HostConfig} (h : EqualButEnv config config') :
    List.Forall₂ (fun e e' => e.1 = e'.1 ∧ (e.1 ≠ "env" → e.2 = e'.2) ∧
        (e.1 = "env" → e.2 = .ofDict (config.env.map .str) ∧ e'.2 = .ofDict (config'.env.map .str)))
      config.pairs config'.pairs := by
  have hrest := HostConfig.mk.inj h.rest
  obtain ⟨hversion, hhost, hgpus, hshared, hprovider, hidle, hs3, hcreated, hretention, hworkdir, -,
    hcommit⟩ := hrest
  unfold HostConfig.pairs
  rw [hversion, hhost, hgpus, hshared, hprovider, hidle, hs3, hcreated, hretention, hworkdir, hcommit]
  simp

theorem EqualButEnv.toDict {config config' : HostConfig} (h : EqualButEnv config config')
    {key : String} (hkey : key ≠ "env") : config.toDict.get? key = config'.toDict.get? key := by
  rw [toDict_eq, toDict_eq]
  refine lookup_congr (h.pairs.imp ?_)
  rintro e e' ⟨hsame, hvalue, -⟩
  exact ⟨hsame, fun he => hvalue (by rw [he]; exact hkey)⟩

theorem differs_texts (text text' : Option String) :
    differs (text.map .str) (text'.map .str) = decide (text ≠ text') := by
  cases text with
  | none =>
    cases text' with
    | none => rfl
    | some text' => rfl
  | some text =>
    cases text' with
    | none => rfl
    | some text' =>
      show (!decide (text = text')) = _
      simp

theorem envDrift_texts (env env' : Dict String String) :
    envDrift (.ofDict (env.map .str)) (.ofDict (env'.map .str)) =
      sortedBy id ((env.keys ++ env'.keys).dedup.filter fun name => env.get? name ≠ env'.get? name) := by
  unfold envDrift
  simp only [fieldsOf_ofDict, Dict.get?_map, Dict.keys_map, differs_texts]

theorem sameMembers_eq (es : List (String × Json)) :
    Json.sameMembers es = es.map fun e => (e.1, e.2.same) := by
  induction es with
  | nil => rfl
  | cons e es ih =>
    obtain ⟨k, v⟩ := e
    rw [Json.sameMembers, ih, List.map_cons]

/-- Dictionaries that are equal have as many keys, and equal values. -/
theorem same_ofDict {d d' : Dict String Json} (h : (Json.ofDict d).same (.ofDict d') = true) :
    d.keys.length = d'.keys.length ∧
      ∀ k v, d.get? k = some v → ∃ v', d'.get? k = some v' ∧ v.same v' = true := by
  unfold Json.ofDict at h
  rw [Json.same, sameMembers_eq, Dict.ofList_map, Dict.ofList_entries] at h
  rw [Dict.ofList_entries, Bool.and_eq_true, decide_eq_true_iff, List.all_eq_true] at h
  obtain ⟨hlength, hall⟩ := h
  refine ⟨?_, ?_⟩
  · simpa [Dict.keys, Dict.map] using hlength
  · intro k v hv
    have hmem : (k, v.same) ∈ (d.map Json.same).entries := by
      rw [← Dict.get?_eq_some, Dict.get?_map, hv, Option.map_some]
    have htest := hall _ hmem
    exact (Option.any_eq_true _ _).mp htest

/-- **Environments that are equal differ in no name.** -/
theorem envDrift_of_same {env env' : Dict String String}
    (h : (Json.ofDict (env.map .str)).same (.ofDict (env'.map .str)) = true) :
    envDrift (.ofDict (env.map .str)) (.ofDict (env'.map .str)) = [] := by
  obtain ⟨hlength, hvalues⟩ := same_ofDict h
  rw [Dict.keys_map, Dict.keys_map] at hlength
  have hget : ∀ name text, env.get? name = some text → env'.get? name = some text := by
    intro name text htext
    obtain ⟨value, hvalue, hsame⟩ := hvalues name (.str text) (by rw [Dict.get?_map, htext]; rfl)
    rw [Dict.get?_map, Option.map_eq_some_iff] at hvalue
    obtain ⟨text', htext', rfl⟩ := hvalue
    have heq : text = text' := of_decide_eq_true hsame
    rw [htext', heq]
  have hsubset : env.keys ⊆ env'.keys := by
    intro name hname
    obtain ⟨text, htext⟩ := Dict.mem_keys.mp hname
    exact Dict.mem_keys.mpr ⟨text, hget name text htext⟩
  have hperm := (env.nodup_keys.subperm hsubset).perm_of_length_le hlength.ge
  have hequal : ∀ name, env.get? name = env'.get? name := by
    intro name
    cases htext : env.get? name with
    | some text => exact (hget name text htext).symm
    | none =>
      rw [Dict.get?_eq_none] at htext
      exact (Dict.get?_eq_none.mpr (mt hperm.mem_iff.mpr htext)).symm
  rw [envDrift_texts]
  simp only [hequal, ne_eq, not_true_eq_false, decide_false]
  simp [sortedBy]

theorem driftLine_env (env asked : Dict String String) :
    driftLine t "env" (.ofDict (env.map .str)) (.ofDict (asked.map .str)) =
      .ok (if envDrift (.ofDict (env.map .str)) (.ofDict (asked.map .str)) = [] then none
        else some ("env differs in " ++
          ", ".intercalate (envDrift (.ofDict (env.map .str)) (.ofDict (asked.map .str))))) := by
  unfold driftLine
  split
  · next hsame => rw [envDrift_of_same hsame, if_pos rfl]
  · rw [if_pos rfl]

/-- Environments that differ in the same names are reported to. -/
theorem envDrift_congr {env env' asked asked' : Dict String String}
    (h : ∀ name, env.get? name ≠ asked.get? name ↔ env'.get? name ≠ asked'.get? name) :
    envDrift (.ofDict (env.map .str)) (.ofDict (asked.map .str)) =
      envDrift (.ofDict (env'.map .str)) (.ofDict (asked'.map .str)) := by
  have hmem : ∀ (env asked : Dict String String) name,
      name ∈ (env.keys ++ asked.keys).dedup.filter (fun name => env.get? name ≠ asked.get? name) ↔
        env.get? name ≠ asked.get? name := by
    intro env asked name
    rw [List.mem_filter, List.mem_dedup, List.mem_append, decide_eq_true_iff, and_iff_right_iff_imp]
    intro hdiffer
    by_contra hnone
    rw [not_or] at hnone
    rw [Dict.get?_eq_none.mpr hnone.1, Dict.get?_eq_none.mpr hnone.2] at hdiffer
    exact hdiffer rfl
  rw [envDrift_texts, envDrift_texts]
  refine List.Perm.eq_of_pairwise ?_ (sortedBy_pairwise id _) (sortedBy_pairwise id _) ?_
  · intro name name' _ _ hle hle'
    exact le_antisymm hle hle'
  · refine (List.perm_ext_iff_of_nodup ?_ ?_).mpr fun name => ?_
    · exact nodup_sortedBy.mpr ((List.nodup_dedup _).filter _)
    · exact nodup_sortedBy.mpr ((List.nodup_dedup _).filter _)
    · rw [mem_sortedBy, mem_sortedBy, hmem, hmem, h]

theorem differAt_iff {env asked : Dict String String} (henv : envOf t fields = .ok env)
    (hasked : envOf t patch = .ok asked) {name : String} :
    DifferAt t fields patch name ↔ env.get? name ≠ asked.get? name := by
  constructor
  · rintro ⟨env', asked', henv', hasked', hdiffer⟩
    rw [henv] at henv'
    rw [hasked] at hasked'
    cases henv'
    cases hasked'
    exact hdiffer
  · exact fun hdiffer => ⟨env, asked, henv, hasked, hdiffer⟩

theorem get?_ofList_map {keys : List String} {f : String → Json} {key : String} :
    (Dict.ofList (keys.map fun key => (key, f key))).get? key =
      if key ∈ keys then some (f key) else none := by
  refine Dict.ext_get? fun v => (Dict.get?_ofList_agree ?_).trans ?_
  · intro k v w hv hw
    obtain ⟨j, -, hj⟩ := List.mem_map.mp hv
    obtain ⟨j', -, hj'⟩ := List.mem_map.mp hw
    cases hj
    cases hj'
    rfl
  · simp [eq_comm, and_comm]

theorem get?_toDict_env (config : HostConfig) :
    config.toDict.get? "env" = some (.ofDict (config.env.map .str)) := by
  rw [toDict_eq]
  exact Dict.get?_eq_some.mpr (by simp [HostConfig.pairs])

/-- **The lines about a patch are the same**, for configs and patches that are equal but for their
environments and differ in the same names. -/
theorem configChanges_eq (h : ApartFromEnv t fields fields') (hpatch : ApartFromEnv t patch patch')
    (hdiffer : ∀ name, DifferAt t fields patch name ↔ DifferAt t fields' patch' name) :
    configChanges t fields patch = configChanges t fields' patch' := by
  unfold configChanges
  refine Together.eq ((fromDict_together h).bind fun held held' ⟨hheld, hread, hread'⟩ => ?_)
  refine (fromDict_together (h.update hpatch)).bind fun after after' ⟨hafter, hasked, hasked'⟩ => ?_
  refine Together.of_eq ?_
  unfold configDrift
  rw [toDict_eq after, toDict_eq after']
  refine congrArg (· >>= _) (mapM_congr ?_)
  refine hafter.pairs.imp ?_
  rintro ⟨key, ours⟩ ⟨key', ours'⟩ ⟨hkeys, hvalue, henv⟩
  dsimp only at hkeys hvalue henv ⊢
  subst hkeys
  rw [get?_ofList_map, get?_ofList_map]
  by_cases hasks : key ∈ patch.keys
  · have hasks' := (hpatch.mem_keys key).mp hasks
    rw [if_pos hasks, if_pos hasks']
    dsimp only
    by_cases hkey : key = "env"
    · -- the names the two differ in are those of the patch and of the config
      subst hkey
      obtain ⟨rfl, rfl⟩ := henv rfl
      rw [envOf_update, if_pos hasks] at hasked
      rw [envOf_update, if_pos hasks'] at hasked'
      have hnames := envDrift_congr fun name =>
        (differAt_iff hread hasked).symm.trans <| (hdiffer name).trans <| differAt_iff hread' hasked'
      rw [get?_toDict_env, get?_toDict_env, Option.getD_some, Option.getD_some, driftLine_env,
        driftLine_env, hnames]
      simp only [hasks, hasks']
    · rw [hvalue hkey, hheld.toDict hkey]
      simp only [hasks, hasks']
  · rw [if_neg hasks, if_neg (mt (hpatch.mem_keys key).mpr hasks)]

/-! ## The documents -/

/-- An entry that caches a config. -/
def HostEntry.caching (entry : HostEntry) (config : Dict String Json) : HostEntry :=
  { entry with cache := { entry.cache with config := config } }

/-- **Two documents are the same, but for `cache_dir`** and the order of keys. -/
def SameReport (document document' : Dict String Json) : Prop :=
  ∀ key ≠ "cache_dir", AlikeAt (document.get? key) (document'.get? key)

variable {py : Pydantic} {localCommit : Option String} {entry : HostEntry}

/-- The names of an environment, each with what stands for its value. -/
theorem SameNames.shown {env env' : Dict String String} (h : SameNames env env') :
    Alike (.ofDict (.ofList (env.keys.map fun name => (name, .str "<set>"))))
      (.ofDict (.ofList (env'.keys.map fun name => (name, .str "<set>")))) := by
  refine alike_ofDict fun name => AlikeAt.of_eq ?_
  rw [get?_ofList_map, get?_ofList_map]
  exact if_congr (h name) rfl rfl

theorem fieldsOf_dump : fieldsOf (entry.dump py) = .ofList
    [("name", .str entry.name), ("ssh", optStr entry.ssh), ("port", .int entry.port),
      ("gpuc_home", optStr entry.gpucHome), ("persistent_root", optStr entry.persistentRoot),
      ("rental", rentalJson entry.rental), ("bootstrapped_at", optStr entry.bootstrappedAt),
      ("cache", entry.cache.dump py)] := by
  rw [HostEntry.dump, fieldsOf, Json.members_obj, Option.getD_some]

theorem innerOf_dump : innerOf (fieldsOf (entry.dump py)) "cache" = .ofList
    [("read_at", optStr entry.cache.readAt), ("python", optStr entry.cache.python),
      ("uv", optStr entry.cache.uv),
      ("gpu_info", .ofDict (entry.cache.gpuInfo.map GpuInfo.dump)),
      ("driver_version", optStr entry.cache.driverVersion),
      ("config", .ofDict (entry.cache.config.map py.dumpAny))] := by
  have hget : (fieldsOf (entry.dump py)).get? "cache" = some (entry.cache.dump py) := by
    rw [fieldsOf_dump]
    exact (Dict.get?_ofList (by simp)).mpr (by simp)
  rw [innerOf, hget, Option.bind_some, HostCache.dump, Json.members_obj, Option.getD_some]

theorem innerOf_cache : innerOf (innerOf (fieldsOf (entry.dump py)) "cache") "config" =
    entry.cache.config.map py.dumpAny := by
  have hget : (innerOf (fieldsOf (entry.dump py)) "cache").get? "config" =
      some (.ofDict (entry.cache.config.map py.dumpAny)) := by
    rw [innerOf_dump]
    exact (Dict.get?_ofList (by simp)).mpr (by simp)
  rw [innerOf, hget, Option.bind_some, Json.members_ofDict, Option.getD_some]

/-- What of an entry does not come from the config it caches. -/
theorem dump_caching {key : String} (hkey : key ≠ "cache") :
    AlikeAt ((fieldsOf ((entry.caching fields).dump py)).get? key)
      ((fieldsOf ((entry.caching fields').dump py)).get? key) := by
  rw [fieldsOf_dump, fieldsOf_dump]
  refine alikeAt_ofList ?_
  simp [HostEntry.caching, Alike.refl, hkey.symm]

theorem cache_caching {names names' : Json} (h : ApartFromEnv t fields fields')
    (hnames : Alike names names') :
    Alike
      (.ofDict ((innerOf (fieldsOf ((entry.caching fields).dump py)) "cache").set "config"
        (.ofDict ((fields.map py.dumpAny).set "env" names))))
      (.ofDict ((innerOf (fieldsOf ((entry.caching fields').dump py)) "cache").set "config"
        (.ofDict ((fields'.map py.dumpAny).set "env" names')))) := by
  refine alike_ofDict fun key => ?_
  rw [Dict.get?_set, Dict.get?_set]
  by_cases hkey : key = "config"
  · rw [if_pos hkey, if_pos hkey]
    refine .some (alike_ofDict fun name => ?_)
    rw [Dict.get?_set, Dict.get?_set]
    by_cases hname : name = "env"
    · rw [if_pos hname, if_pos hname]
      exact .some hnames
    · rw [if_neg hname, if_neg hname, Dict.get?_map, Dict.get?_map, h.elsewhere name hname]
      exact AlikeAt.of_eq rfl
  · rw [if_neg hkey, if_neg hkey, innerOf_dump, innerOf_dump]
    refine alikeAt_ofList ?_
    simp [HostEntry.caching, Alike.refl, Ne.symm hkey]

/-- **`host_document` of entries that cache the two gives the same**, but for `cache_dir`. -/
theorem hostDocument_together (h : ApartFromEnv t fields fields') :
    Together SameReport (hostDocument py t localCommit (entry.caching fields))
      (hostDocument py t localCommit (entry.caching fields')) := by
  unfold hostDocument
  refine (fromDict_together h).bind fun held held' ⟨hheld, _, _⟩ => .ok fun key hkey => ?_
  have hcommit := hheld.pkgCommit
  have hnames := hheld.names.shown
  refine AlikeAt.update (alikeAt_ofList ?_) fun hbelow => ?_
  · refine .cons ⟨rfl, fun _ => .refl _⟩ <| .cons ⟨rfl, fun _ => .refl _⟩ <|
      .cons ⟨rfl, fun _ => hnames⟩ <| .cons ⟨rfl, fun _ => ?_⟩ <|
      .cons ⟨rfl, fun hdir => absurd hdir.symm hkey⟩ <| .cons ⟨rfl, fun _ => .refl _⟩ <|
      .cons ⟨rfl, fun _ => .refl _⟩ <| .cons ⟨rfl, fun _ => .refl _⟩ <|
      .cons ⟨rfl, fun _ => ?_⟩ .nil
    · dsimp only
      rw [innerOf_cache, innerOf_cache]
      exact cache_caching h hnames
    · dsimp only
      rw [hcommit]
      exact .refl _
  · rw [Dict.get?_eq_none, Dict.mem_keys_ofList] at hbelow
    have henv : key ≠ "env" := fun hkey => hbelow (by simp [hkey])
    have hcache : key ≠ "cache" := fun hkey => hbelow (by simp [hkey])
    refine AlikeAt.update (AlikeAt.of_eq ?_) fun _ => dump_caching hcache
    rw [Dict.get?_erase, Dict.get?_erase, hheld.toDict henv]

theorem asList_alike {d d' : Dict String Json} {key : String} (h : AlikeAt (d.get? key) (d'.get? key)) :
    asList (.ofDict d) key = asList (.ofDict d') key := by
  unfold asList
  rw [fieldsOf_ofDict, fieldsOf_ofDict]
  revert h
  generalize d.get? key = v
  generalize d'.get? key = v'
  intro h
  cases h with
  | none => rfl
  | some halike =>
    cases halike with
    | refl v => rfl
    | obj _ _ => rfl

/-- **`connection_document` gives the same as well**, for the same connection. -/
theorem connectionDocument_together (h : ApartFromEnv t fields fields') (connection : Connection)
    (warnings : List String) :
    Together SameReport
      (connectionDocument py t localCommit (entry.caching fields) connection warnings)
      (connectionDocument py t localCommit (entry.caching fields') connection warnings) := by
  unfold connectionDocument
  refine (hostDocument_together h).bind fun document document' hsame => .ok fun key hkey => ?_
  refine AlikeAt.update ?_ fun _ => hsame key hkey
  rw [asList_alike (hsame "warnings" (by decide))]
  exact AlikeAt.of_eq rfl

/-! ## What is printed -/

/-- **No value of an environment is printed.** Of two configs, of any shape, and two patches that are
equal but for the values under `env`, with the same names there and the same names differing between
config and patch, the lines about the patch are the same, and so are the documents of the entries that
cache the configs, but for `cache_dir`. -/
theorem env_unprinted {existing existing' : Json}
    (hconfigs : ApartFromEnv t (fieldsOf existing) (fieldsOf existing'))
    (hpatches : ApartFromEnv t patch patch')
    (hdiffer : ∀ name, DifferAt t (fieldsOf existing) patch name ↔
      DifferAt t (fieldsOf existing') patch' name) :
    configChanges t (fieldsOf existing) patch = configChanges t (fieldsOf existing') patch' ∧
      Together SameReport (hostDocument py t localCommit (entry.caching (fieldsOf existing)))
        (hostDocument py t localCommit (entry.caching (fieldsOf existing'))) ∧
      ∀ (connection : Connection) (warnings : List String),
        Together SameReport
          (do
            let changes ← configChanges t (fieldsOf existing) patch
            connectionDocument py t localCommit (entry.caching (fieldsOf existing))
              { connection with changes } warnings)
          (do
            let changes ← configChanges t (fieldsOf existing') patch'
            connectionDocument py t localCommit (entry.caching (fieldsOf existing'))
              { connection with changes } warnings) := by
  have hlines := configChanges_eq hconfigs hpatches hdiffer
  refine ⟨hlines, hostDocument_together hconfigs, fun connection warnings => ?_⟩
  refine (Together.of_eq hlines).bind fun changes changes' hsame => ?_
  subst hsame
  exact connectionDocument_together hconfigs _ _

/-- A config with a token, beside a key of another build. -/
def tokenConfig (token : String) : Json :=
  .obj [("env", .obj [("HF_TOKEN", .str token), ("TMPDIR", .null)]), ("later", .bool true)]

/-- A patch that sets one. -/
def tokenPatch (token : String) : Dict String Json :=
  .ofList [("env", .obj [("HF_TOKEN", .str token)]), ("idle_minutes", .int 5)]

theorem envOf_tokenConfig (token : String) : envOf plainTexts (fieldsOf (tokenConfig token)) =
    .ok (.ofList [("HF_TOKEN", token), ("TMPDIR", "None")]) := rfl

theorem envOf_tokenPatch (token : String) : envOf plainTexts (tokenPatch token) =
    .ok (.ofList [("HF_TOKEN", token)]) := rfl

theorem tokenConfig_apart (token token' : String) :
    ApartFromEnv plainTexts (fieldsOf (tokenConfig token)) (fieldsOf (tokenConfig token')) := by
  refine ⟨?_, Iff.rfl, ?_⟩
  · intro key hkey
    show (Dict.ofList _).get? key = (Dict.ofList _).get? key
    rw [Dict.get?_ofList_eq_lookup, Dict.get?_ofList_eq_lookup]
    simp [List.lookup_cons, beq_false_of_ne hkey]
  · rw [envOf_tokenConfig, envOf_tokenConfig]
    exact .ok fun name => Iff.rfl

theorem tokenPatch_apart (token token' : String) :
    ApartFromEnv plainTexts (tokenPatch token) (tokenPatch token') := by
  refine ⟨?_, Iff.rfl, ?_⟩
  · intro key hkey
    show (Dict.ofList _).get? key = (Dict.ofList _).get? key
    rw [Dict.get?_ofList_eq_lookup, Dict.get?_ofList_eq_lookup]
    simp [List.lookup_cons, beq_false_of_ne hkey]
  · rw [envOf_tokenPatch, envOf_tokenPatch]
    exact .ok fun name => Iff.rfl

theorem token_differs {token asked : String} (h : token ≠ asked) (name : String) :
    DifferAt plainTexts (fieldsOf (tokenConfig token)) (tokenPatch asked) name ↔
      name = "HF_TOKEN" ∨ name = "TMPDIR" := by
  rw [differAt_iff (envOf_tokenConfig token) (envOf_tokenPatch asked), Dict.get?_ofList_eq_lookup,
    Dict.get?_ofList_eq_lookup]
  by_cases htoken : name = "HF_TOKEN"
  · simp [htoken, List.lookup_cons, h]
  · by_cases htmp : name = "TMPDIR"
    · simp [htmp, List.lookup_cons]
    · simp [List.lookup_cons, beq_false_of_ne htoken, beq_false_of_ne htmp, htoken, htmp]

/-- The tokens of two hosts do not tell their reports apart. -/
theorem env_unprinted_tokens :
    configChanges plainTexts (fieldsOf (tokenConfig "hf_a")) (tokenPatch "hf_b") =
        configChanges plainTexts (fieldsOf (tokenConfig "hf_c")) (tokenPatch "hf_d") ∧
      Together SameReport
        (hostDocument plainPydantic plainTexts none (HostEntry.caching {} (fieldsOf (tokenConfig "hf_a"))))
        (hostDocument plainPydantic plainTexts none (HostEntry.caching {} (fieldsOf (tokenConfig "hf_c")))) := by
  have hdiffer : ∀ name,
      DifferAt plainTexts (fieldsOf (tokenConfig "hf_a")) (tokenPatch "hf_b") name ↔
        DifferAt plainTexts (fieldsOf (tokenConfig "hf_c")) (tokenPatch "hf_d") name := fun name =>
    (token_differs (by decide) name).trans (token_differs (by decide) name).symm
  obtain ⟨hlines, hdocuments, -⟩ := @env_unprinted plainTexts _ _ plainPydantic none {} _ _
    (tokenConfig_apart "hf_a" "hf_c") (tokenPatch_apart "hf_b" "hf_d") hdiffer
  exact ⟨hlines, hdocuments⟩

end Gpuc.Control
