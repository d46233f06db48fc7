import Gpuc.Control.RunPod

/-!
# The bodies that describe a pod

`PodShaped` says which bodies are read as a pod and validate (`exists_podFromApi`), and `ListShaped`
which are read as a list of pods (`exists_podsFromApi`). What reading a body raises is what a create
tells as a `ProviderError`, or an overflow, at an infinite number of cards (`podFromApi_overflows`).
-/

set_option autoImplicit false

namespace Gpuc.Control.RunPod

open Gpuc.Basis

section Shape

/-- Nothing, an empty value, or an object. -/
def ObjectOrEmpty (value : Option Json) : Prop :=
  ∀ v, value = some v → v.truthy = true → ∃ pairs, v = .obj pairs

/-- What stands in it. -/
def inside (value : Option Json) : Dict String Json :=
  ((value.filter Json.truthy).bind Json.members).getD Dict.empty

/-- Nothing, a null, or a text. -/
def TextOrNull (value : Option Json) : Prop :=
  ∀ v, value = some v → v = .null ∨ ∃ s, v = .str s

/-- There is a value that counts, and it is a text. -/
def NonemptyText (value : Option Json) : Prop := ∃ s, value = some (.str s) ∧ s ≠ ""

/-- There is no value that counts. -/
def Absent (value : Option Json) : Prop := ∀ v, value = some v → v.truthy = false

variable (lib : Library)

/-- A name for the card, in the first of three places where there is a value that counts. -/
def Named (fields : Dict String Json) : Prop :=
  let id := (inside (fields.get? "gpu")).get? "id"
  let typeId := (inside (fields.get? "machine")).get? "gpuTypeId"
  NonemptyText id ∨ Absent id ∧ ObjectOrEmpty (fields.get? "machine") ∧
    (NonemptyText typeId ∨ Absent typeId ∧ TextOrNull (fields.get? "gpuTypeId"))

/-- How many cards there are, in the first of two places where there is a value that counts. -/
def countField (fields : Dict String Json) : Json :=
  orElse ((inside (fields.get? "gpu")).get? "count") (orElse (fields.get? "gpuCount") (.int 0))

/-- A value that `int` takes: a number that is finite, or the text of one. -/
inductive Countable : Json → Prop
  | bool {b : Bool} : Countable (.bool b)
  | int {n : Int} : Countable (.int n)
  | float {q : ℚ} : Countable (.float (.finite q))
  | str {s : String} : (lib.intText s).isSome → Countable (.str s)

/-- The three parts of an endpoint, where there is one. -/
def Reachable (direct : Option Json) : Prop :=
  ∀ v, direct = some v → v.truthy = true → ∃ pairs, v = .obj pairs ∧
    (∃ host, (Dict.ofList pairs).get? "host" = some (.str host)) ∧
    (∃ port, (Dict.ofList pairs).get? "port" = some port ∧ (lib.toInt port).isSome) ∧
    ∃ username, (Dict.ofList pairs).get? "username" = some (.str username)

/-- A list of objects, and each use in it a number. -/
def Used (gpus : Option Json) : Prop :=
  ∀ v, gpus = some v → v.truthy = true → ∃ items, v = .arr items ∧
    ∀ gpu ∈ items, ∃ pairs, gpu = .obj pairs ∧
      ∀ util, (Dict.ofList pairs).get? "util" = some util → (lib.toInt util).isSome

/-- **The members of an object that describes a pod.** -/
structure PodFields (fields : Dict String Json) : Prop where
  id : ∃ id, fields.get? "id" = some (.str id)
  name : ∃ name, fields.get? "name" = some (.str name)
  status : ∃ s, fields.get? "status" = some (.str s) ∧ (podStatus s).isSome
  cost : ∀ v, fields.get? "cost" = some v → v.truthy = true → (lib.floatField v).isSome
  gpu : ObjectOrEmpty (fields.get? "gpu")
  gpuName : Named fields
  gpuCount : Countable lib (countField fields)
  cudaVersion : TextOrNull (fields.get? "cudaVersion")
  ssh : ObjectOrEmpty (fields.get? "ssh")
  sshDirect : Reachable lib ((inside (fields.get? "ssh")).get? "direct")
  runtime : ObjectOrEmpty (fields.get? "runtime")
  gpuUtils : Used lib ((inside (fields.get? "runtime")).get? "gpus")
  createdAt : ∀ v, fields.get? "createdAt" = some v → v.truthy = true →
    ∃ s, v = .str s ∧ (lib.fromisoformat (withOffset s)).isSome

/-- **A body that describes a pod.** -/
def PodShaped (payload : Json) : Prop := ∃ fields, payload.members = some fields ∧ PodFields lib fields

/-- **A body that lists pods.** -/
def ListShaped (payload : Json) : Prop :=
  ∃ pairs pods, payload = .obj pairs ∧ (Dict.ofList pairs).get? "pods" = some pods ∧
    ((∃ items, pods = .arr items ∧ ∀ pod ∈ items, PodShaped lib pod) ∨ pods = .str "" ∨ pods = .obj [])

/-- **A body with an infinite number of cards**, and nothing in front of it that is looked at first is
of the wrong kind. -/
def Infinite (payload : Json) : Prop :=
  ∃ fields negative, payload.members = some fields ∧ ObjectOrEmpty (fields.get? "ssh") ∧
    (fields.get? "id").isSome ∧ (fields.get? "name").isSome ∧ (fields.get? "status").isSome ∧
    ObjectOrEmpty (fields.get? "gpu") ∧
    (Absent ((inside (fields.get? "gpu")).get? "id") → ObjectOrEmpty (fields.get? "machine")) ∧
    countField fields = .float (.infinite negative)

end Shape

section Read
variable {lib : Library}

theorem bind_ok_eq {ε α β : Type} (a : α) (f : α → Except ε β) : (Except.ok a >>= f) = f a := rfl

theorem asDict_eq_ok {v : Json} {d : Dict String Json} : asDict v = .ok d ↔ v.members = some d := by
  unfold asDict
  cases v.members <;> simp

theorem item_eq_ok {fields : Dict String Json} {key : String} {v : Json} :
    item fields key = .ok v ↔ fields.get? key = some v := by
  unfold item
  cases fields.get? key <;> simp

theorem validated_eq_ok {α : Type} {field : Option α} {a : α} :
    validated field = .ok a ↔ field = some a := by
  cases field <;> simp [validated]

theorem Absent.not_truthy {value : Option Json} (h : Absent value) {v : Json} (hv : value = some v)
    (htrue : v.truthy = true) : False := by
  rw [h v hv] at htrue
  cases htrue

/-- A value that counts, or none. -/
theorem filter_truthy_cases (value : Option Json) :
    Absent value ∧ value.filter Json.truthy = none ∨
      ∃ v, value = some v ∧ v.truthy = true ∧ value.filter Json.truthy = some v := by
  cases value with
  | none => exact .inl ⟨nofun, rfl⟩
  | some v =>
    cases hv : v.truthy with
    | false => exact .inl ⟨fun w hw => by cases hw; exact hv, by simp [hv]⟩
    | true => exact .inr ⟨v, rfl, hv, by simp [hv]⟩

theorem asDict_orElse {value : Option Json} {d : Dict String Json} :
    asDict (orElse value (.obj [])) = .ok d ↔ ObjectOrEmpty value ∧ d = inside value := by
  rw [asDict_eq_ok]
  unfold orElse inside
  rcases filter_truthy_cases value with ⟨habsent, hfilter⟩ | ⟨v, rfl, hv, hfilter⟩
  · rw [hfilter]
    have hobject : ObjectOrEmpty value := fun v hv htrue => (habsent.not_truthy hv htrue).elim
    exact ⟨fun h => ⟨hobject, (Option.some.inj h).symm⟩, fun h => by rw [h.2]; rfl⟩
  · rw [hfilter]
    constructor
    · intro h
      refine ⟨fun w hw _ => ?_, ?_⟩
      · cases hw
        cases v with
        | obj pairs => exact ⟨pairs, rfl⟩
        | _ => cases h
      · change d = (v.members).getD Dict.empty
        rw [show v.members = some d from h]
        rfl
    · rintro ⟨hobject, rfl⟩
      obtain ⟨pairs, rfl⟩ := hobject v rfl hv
      rfl

theorem textField_eq_some {v : Json} {s : String} : textField v = some s ↔ v = .str s := by
  cases v <;> simp [textField]

theorem optStrField_isSome {value : Option Json} :
    (∃ name, optStrField value = some name) ↔ TextOrNull value := by
  constructor
  · rintro ⟨name, h⟩ v rfl
    cases v with
    | null => exact .inl rfl
    | str s => exact .inr ⟨s, rfl⟩
    | _ => cases h
  · intro h
    cases value with
    | none => exact ⟨none, rfl⟩
    | some v =>
      rcases h v rfl with rfl | ⟨s, rfl⟩
      · exact ⟨none, rfl⟩
      · exact ⟨some s, rfl⟩

/-- **`int` takes what is countable.** -/
theorem exists_intOf {v : Json} : (∃ n, intOf lib v = .ok n) ↔ Countable lib v := by
  constructor
  · rintro ⟨n, h⟩
    cases v with
    | bool b => exact .bool
    | int n => exact .int
    | float x =>
      cases x with
      | finite q => exact .float
      | infinite negative => cases h
      | nan => cases h
    | str s => exact .str (by rw [validated_eq_ok.mp h]; rfl)
    | _ => cases h
  · intro h
    cases h with
    | bool => exact ⟨_, rfl⟩
    | int => exact ⟨_, rfl⟩
    | float => exact ⟨_, rfl⟩
    | str hs =>
      obtain ⟨n, hn⟩ := Option.isSome_iff_exists.mp hs
      exact ⟨n, validated_eq_ok.mpr hn⟩

theorem exists_endpointOf {direct : Option Json} :
    (∃ endpoint, endpointOf lib direct = .ok endpoint) ↔ Reachable lib direct := by
  unfold endpointOf Reachable
  rcases filter_truthy_cases direct with ⟨habsent, hfilter⟩ | ⟨v, rfl, hv, hfilter⟩
  · rw [hfilter]
    exact ⟨fun _ v hv htrue => (habsent.not_truthy hv htrue).elim, fun _ => ⟨none, rfl⟩⟩
  · rw [hfilter]
    constructor
    · rintro ⟨endpoint, h⟩ _ ⟨⟩ -
      cases v with
      | obj pairs =>
        obtain ⟨host, hhost, h⟩ := bind_eq_ok h
        obtain ⟨port, hport, h⟩ := bind_eq_ok h
        obtain ⟨username, husername, h⟩ := bind_eq_ok h
        rw [validated_eq_ok] at h
        simp only [Option.bind_eq_bind, Option.bind_eq_some_iff, textField_eq_some] at h
        obtain ⟨hostText, rfl, portNumber, hnumber, usernameText, rfl, -⟩ := h
        exact ⟨pairs, rfl, ⟨_, item_eq_ok.mp hhost⟩, ⟨port, item_eq_ok.mp hport, by rw [hnumber]; rfl⟩,
          ⟨_, item_eq_ok.mp husername⟩⟩
      | _ => cases h
    · intro h
      obtain ⟨pairs, rfl, ⟨host, hhost⟩, ⟨port, hport, hnumber⟩, ⟨username, husername⟩⟩ := h v rfl hv
      obtain ⟨number, hnumber⟩ := Option.isSome_iff_exists.mp hnumber
      refine ⟨some { host, port := number, username }, ?_⟩
      dsimp only
      rw [item_eq_ok.mpr hhost, item_eq_ok.mpr hport, item_eq_ok.mpr husername]
      show validated ((lib.toInt port).bind _) = _
      rw [hnumber]
      rfl

theorem exists_createdAtOf {createdAt : Option Json} :
    (∃ time, createdAtOf lib createdAt = .ok time) ↔ ∀ v, createdAt = some v → v.truthy = true →
      ∃ s, v = .str s ∧ (lib.fromisoformat (withOffset s)).isSome := by
  unfold createdAtOf
  rcases filter_truthy_cases createdAt with ⟨habsent, hfilter⟩ | ⟨v, rfl, hv, hfilter⟩
  · rw [hfilter]
    exact ⟨fun _ v hv htrue => (habsent.not_truthy hv htrue).elim, fun _ => ⟨none, rfl⟩⟩
  · rw [hfilter]
    constructor
    · rintro ⟨time, h⟩ _ ⟨⟩ -
      cases v with
      | str s =>
        obtain ⟨time', htime, -⟩ := map_eq_ok h
        exact ⟨s, rfl, by rw [validated_eq_ok.mp htime]; rfl⟩
      | _ => cases h
    · intro h
      obtain ⟨s, rfl, hs⟩ := h v rfl hv
      obtain ⟨time, htime⟩ := Option.isSome_iff_exists.mp hs
      refine ⟨some time, ?_⟩
      dsimp only
      rw [htime]
      rfl

theorem NonemptyText.not_absent {value : Option Json} (h : NonemptyText value) : ¬ Absent value := by
  obtain ⟨s, hs, hne⟩ := h
  exact fun habsent => habsent.not_truthy hs (by simpa [Json.truthy] using hne)

/-- A value that counts is a name exactly when it is a text. -/
theorem optStrField_truthy {v : Json} (hv : v.truthy = true) :
    (∃ name, optStrField (some v) = some name) ↔ NonemptyText (some v) := by
  rw [optStrField_isSome]
  constructor
  · intro h
    rcases h v rfl with rfl | ⟨s, rfl⟩
    · cases hv
    · exact ⟨s, rfl, by simpa [Json.truthy] using hv⟩
  · rintro ⟨s, hs, -⟩ w hw
    cases hs
    cases hw
    exact .inr ⟨s, rfl⟩

/-- **The name of the card is read, and validates.** -/
theorem exists_gpuNameOf {fields : Dict String Json} :
    (∃ value, gpuNameOf (inside (fields.get? "gpu")) (orElse (fields.get? "machine") (.obj [])) fields =
      .ok value ∧ ∃ name, optStrField value = some name) ↔ Named fields := by
  unfold gpuNameOf Named
  rcases filter_truthy_cases ((inside (fields.get? "gpu")).get? "id") with
    ⟨habsent, hfilter⟩ | ⟨v, hget, hv, hfilter⟩
  · rw [hfilter]
    constructor
    · rintro ⟨value, h, hname⟩
      obtain ⟨machine, hmachine, h⟩ := bind_eq_ok h
      obtain ⟨hobject, rfl⟩ := asDict_orElse.mp hmachine
      refine .inr ⟨habsent, hobject, ?_⟩
      rcases filter_truthy_cases ((inside (fields.get? "machine")).get? "gpuTypeId") with
        ⟨hnoType, hfilter⟩ | ⟨v, hget, hv, hfilter⟩
      · rw [hfilter] at h
        cases h
        exact .inr ⟨hnoType, optStrField_isSome.mp hname⟩
      · rw [hfilter] at h
        cases h
        exact .inl (hget ▸ (optStrField_truthy hv).mp hname)
    · rintro (hnamed | ⟨-, hobject, htype⟩)
      · exact absurd habsent hnamed.not_absent
      · dsimp only
        rw [asDict_orElse.mpr ⟨hobject, rfl⟩]
        rcases filter_truthy_cases ((inside (fields.get? "machine")).get? "gpuTypeId") with
          ⟨hnoType, hfilter⟩ | ⟨v, hget, hv, hfilter⟩
        · rcases htype with hnamed | ⟨-, htext⟩
          · exact absurd hnoType hnamed.not_absent
          · exact ⟨_, by rw [bind_ok_eq, hfilter]; rfl, optStrField_isSome.mpr htext⟩
        · rcases htype with hnamed | ⟨hnoType, -⟩
          · exact ⟨some v, by rw [bind_ok_eq, hfilter]; rfl, (optStrField_truthy hv).mpr (hget ▸ hnamed)⟩
          · exact (hnoType.not_truthy hget hv).elim
  · rw [hfilter]
    constructor
    · rintro ⟨value, h, hname⟩
      cases h
      exact .inl (hget ▸ (optStrField_truthy hv).mp hname)
    · rintro (hnamed | ⟨habsent, -⟩)
      · exact ⟨some v, rfl, (optStrField_truthy hv).mpr (hget ▸ hnamed)⟩
      · exact (habsent.not_truthy hget hv).elim

/-- A pass over a list in which nothing is missing. -/
theorem exists_mapM_some {α β : Type} {f : α → Option β} {xs : List α} :
    (∃ ys, xs.mapM f = some ys) ↔ ∀ x ∈ xs, (f x).isSome := by
  induction xs with
  | nil => simp
  | cons x xs ih =>
    rw [List.forall_mem_cons, ← ih, List.mapM_cons]
    cases f x with
    | none => simp
    | some y => cases xs.mapM f <;> simp

theorem members_eq_some {v : Json} {d : Dict String Json} :
    v.members = some d ↔ ∃ pairs, v = .obj pairs ∧ d = Dict.ofList pairs := by
  constructor
  · intro h
    cases v with
    | obj pairs => exact ⟨pairs, rfl, (Option.some.inj h).symm⟩
    | _ => cases h
  · rintro ⟨pairs, rfl, rfl⟩
    rfl

/-- What is gone through to find nothing but objects is a list of them. -/
theorem elements_objects {v : Json} {items : List Json} (hv : v.truthy = true)
    (h : elements v = .ok items) (hobjects : ∀ item ∈ items, ∃ pairs, item = .obj pairs) :
    v = .arr items := by
  cases v with
  | arr items' =>
    cases h
    rfl
  | obj pairs =>
    cases h
    cases pairs with
    | nil => cases hv
    | cons p ps =>
      have hmem : p.1 ∈ (Dict.ofList (p :: ps)).keys :=
        Dict.mem_keys_ofList.mpr List.mem_cons_self
      obtain ⟨_, hpairs⟩ := hobjects (.str p.1) (List.mem_map.mpr ⟨_, hmem, rfl⟩)
      cases hpairs
  | str s =>
    cases h
    cases hs : s.toList with
    | nil =>
      rw [String.toList_eq_nil_iff.mp hs] at hv
      cases hv
    | cons c cs =>
      rw [hs] at hobjects
      obtain ⟨_, hpairs⟩ := hobjects _ List.mem_cons_self
      cases hpairs
  | _ => cases h

/-- How much of a card is used, where it is read. -/
theorem exists_util {gpu : Json} :
    (∃ util, (do
      let gpu ← asDict gpu
      return (gpu.get? "util").getD (.int 0)) = (.ok util : Except Foreign Json) ∧
        (lib.toInt util).isSome) ↔
      ∃ pairs, gpu = .obj pairs ∧
        ∀ util, (Dict.ofList pairs).get? "util" = some util → (lib.toInt util).isSome := by
  constructor
  · rintro ⟨util, h, hutil⟩
    obtain ⟨d, hd, h⟩ := bind_eq_ok h
    obtain ⟨pairs, rfl, rfl⟩ := members_eq_some.mp (asDict_eq_ok.mp hd)
    cases h
    refine ⟨pairs, rfl, fun util hget => ?_⟩
    rw [hget] at hutil
    exact hutil
  · rintro ⟨pairs, rfl, hutil⟩
    refine ⟨_, rfl, ?_⟩
    cases hget : (Dict.ofList pairs).get? "util" with
    | none =>
      rw [Option.getD_none, lib.toInt_int]
      rfl
    | some util => exact hutil util hget

/-- **The uses are read, and each validates.** -/
theorem exists_utilsOf {runtime : Option Json} :
    (∃ utils, utilsOf (orElse runtime (.obj [])) = .ok utils ∧ ∃ numbers, utils.mapM lib.toInt =
      some numbers) ↔ ObjectOrEmpty runtime ∧ Used lib ((inside runtime).get? "gpus") := by
  constructor
  · rintro ⟨utils, h, hnumbers⟩
    obtain ⟨runtime, hruntime, hrest⟩ := bind_eq_ok h
    obtain ⟨gpus, hgpus, hutils⟩ := bind_eq_ok hrest
    obtain ⟨hobject, rfl⟩ := asDict_orElse.mp hruntime
    refine ⟨hobject, fun v hv htrue => ?_⟩
    have hitems : ∀ gpu ∈ gpus, ∃ pairs, gpu = .obj pairs ∧
        ∀ util, (Dict.ofList pairs).get? "util" = some util → (lib.toInt util).isSome := by
      intro gpu hgpu
      obtain ⟨util, hmem, hutil⟩ := mem_mapM_eq_ok hutils hgpu
      exact exists_util.mp ⟨util, hutil, exists_mapM_some.mp hnumbers util hmem⟩
    rw [hv, orElse, Option.filter_some, if_pos htrue] at hgpus
    refine ⟨gpus, elements_objects htrue hgpus fun gpu hgpu => ?_, hitems⟩
    obtain ⟨pairs, hpairs, -⟩ := hitems gpu hgpu
    exact ⟨pairs, hpairs⟩
  · rintro ⟨hobject, hused⟩
    have helements : ∃ gpus, elements (orElse ((inside runtime).get? "gpus") (.arr [])) = .ok gpus ∧
        ∀ gpu ∈ gpus, ∃ util, (do
          let gpu ← asDict gpu
          return (gpu.get? "util").getD (.int 0)) = (.ok util : Except Foreign Json) ∧
            (lib.toInt util).isSome := by
      unfold orElse
      rcases filter_truthy_cases ((inside runtime).get? "gpus") with ⟨-, hfilter⟩ | ⟨v, hget, hv, hfilter⟩
      · rw [hfilter]
        exact ⟨[], rfl, nofun⟩
      · rw [hfilter]
        obtain ⟨items, rfl, hitems⟩ := hused v hget hv
        exact ⟨items, rfl, fun gpu hgpu => exists_util.mpr (hitems gpu hgpu)⟩
    obtain ⟨gpus, hgpus, hutils⟩ := helements
    obtain ⟨utils, hread⟩ := exists_mapM_ok.mpr fun gpu hgpu =>
      (hutils gpu hgpu).imp fun _ h => h.1
    refine ⟨utils, ?_, exists_mapM_some.mpr fun util hutil => ?_⟩
    · rw [utilsOf, asDict_orElse.mpr ⟨hobject, rfl⟩, bind_ok_eq, hgpus]
      exact hread
    · obtain ⟨gpu, hgpu, hread⟩ := exists_of_mem_mapM hread hutil
      obtain ⟨util', hutil', hnumber⟩ := hutils gpu hgpu
      rw [hread] at hutil'
      cases hutil'
      exact hnumber

/-- **A body is read as a pod exactly when it is shaped like one.** -/
theorem exists_podFromApi {payload : Json} :
    (∃ pod, podFromApi lib payload = .ok pod) ↔ PodShaped lib payload := by
  constructor
  · rintro ⟨pod, h⟩
    unfold podFromApi at h
    obtain ⟨fields, hfields, h⟩ := bind_eq_ok h
    obtain ⟨ssh, hssh, h⟩ := bind_eq_ok h
    obtain ⟨id, hid, h⟩ := bind_eq_ok h
    obtain ⟨name, hname, h⟩ := bind_eq_ok h
    obtain ⟨status, hstatus, h⟩ := bind_eq_ok h
    obtain ⟨gpu, hgpu, h⟩ := bind_eq_ok h
    obtain ⟨gpuName, hgpuName, h⟩ := bind_eq_ok h
    obtain ⟨gpuCount, hgpuCount, h⟩ := bind_eq_ok h
    obtain ⟨sshDirect, hsshDirect, h⟩ := bind_eq_ok h
    obtain ⟨utils, hutils, h⟩ := bind_eq_ok h
    obtain ⟨createdAt, hcreatedAt, h⟩ := bind_eq_ok h
    rw [validated_eq_ok] at h
    simp only [Option.bind_eq_bind, Option.bind_eq_some_iff, textField_eq_some] at h
    obtain ⟨idText, rfl, nameText, rfl, statusValue, hstatusValue, cost, hcost, gpuText, hgpuText,
      cuda, hcuda, numbers, hnumbers, -⟩ := h
    obtain ⟨hsshObject, rfl⟩ := asDict_orElse.mp hssh
    obtain ⟨hgpuObject, rfl⟩ := asDict_orElse.mp hgpu
    obtain ⟨hruntime, hused⟩ := exists_utilsOf.mp ⟨utils, hutils, numbers, hnumbers⟩
    refine ⟨fields, asDict_eq_ok.mp hfields, ?_⟩
    exact
      { id := ⟨idText, item_eq_ok.mp hid⟩
        name := ⟨nameText, item_eq_ok.mp hname⟩
        status := by
          cases status with
          | str s => exact ⟨s, item_eq_ok.mp hstatus, Option.isSome_iff_exists.mpr ⟨_, hstatusValue⟩⟩
          | _ => cases hstatusValue
        cost := fun v hv htrue => by
          rw [hv, orElse, Option.filter_some, if_pos htrue] at hcost
          exact Option.isSome_iff_exists.mpr ⟨cost, hcost⟩
        gpu := hgpuObject
        gpuName := exists_gpuNameOf.mp ⟨gpuName, hgpuName, gpuText, hgpuText⟩
        gpuCount := exists_intOf.mp ⟨gpuCount, hgpuCount⟩
        cudaVersion := optStrField_isSome.mp ⟨cuda, hcuda⟩
        ssh := hsshObject
        sshDirect := exists_endpointOf.mp ⟨sshDirect, hsshDirect⟩
        runtime := hruntime
        gpuUtils := hused
        createdAt := exists_createdAtOf.mp ⟨createdAt, hcreatedAt⟩ }
  · rintro ⟨fields, hfields, h⟩
    obtain ⟨id, hid⟩ := h.id
    obtain ⟨name, hname⟩ := h.name
    obtain ⟨s, hstatus, hknown⟩ := h.status
    obtain ⟨status, hknown⟩ := Option.isSome_iff_exists.mp hknown
    obtain ⟨gpuName, hgpuName, gpuText, hgpuText⟩ := exists_gpuNameOf.mpr h.gpuName
    obtain ⟨gpuCount, hgpuCount⟩ := exists_intOf.mpr h.gpuCount
    rw [countField] at hgpuCount
    obtain ⟨cuda, hcuda⟩ := optStrField_isSome.mpr h.cudaVersion
    obtain ⟨sshDirect, hsshDirect⟩ := exists_endpointOf.mpr h.sshDirect
    obtain ⟨utils, hutils, numbers, hnumbers⟩ := exists_utilsOf.mpr ⟨h.runtime, h.gpuUtils⟩
    obtain ⟨createdAt, hcreatedAt⟩ := exists_createdAtOf.mpr h.createdAt
    obtain ⟨cost, hcost⟩ : ∃ cost, lib.floatField (orElse (fields.get? "cost") (.float (.finite 0))) =
        some cost := by
      unfold orElse
      rcases filter_truthy_cases (fields.get? "cost") with ⟨-, hfilter⟩ | ⟨v, hget, hv, hfilter⟩
      · rw [hfilter]
        exact ⟨_, lib.floatField_float _⟩
      · rw [hfilter]
        exact Option.isSome_iff_exists.mp (h.cost v hget hv)
    refine ⟨{ id, name, status, sshDirect, costUsdHr := cost, gpuName := gpuText, gpuCount,
              cudaVersion := cuda, gpuUtils := numbers, createdAt }, ?_⟩
    rw [podFromApi, asDict_eq_ok.mpr hfields, bind_ok_eq, asDict_orElse.mpr ⟨h.ssh, rfl⟩, bind_ok_eq]
    dsimp only
    rw [item_eq_ok.mpr hid, bind_ok_eq, item_eq_ok.mpr hname, bind_ok_eq, item_eq_ok.mpr hstatus,
      bind_ok_eq, asDict_orElse.mpr ⟨h.gpu, rfl⟩, bind_ok_eq, hgpuName, bind_ok_eq]
    rw [hgpuCount, bind_ok_eq, hsshDirect, bind_ok_eq, hutils, bind_ok_eq,
      hcreatedAt, bind_ok_eq]
    rw [validated_eq_ok]
    simp only [Option.bind_eq_bind, Option.bind_eq_some_iff, textField_eq_some]
    exact ⟨id, rfl, name, rfl, status, hknown, cost, hcost, gpuText, hgpuText, cuda, hcuda, numbers,
      hnumbers, rfl⟩

/-! What raises nothing but what a create tells as a `ProviderError`. -/

/-- A create catches it around the reading of an answer. -/
def Foreign.told : Foreign → Bool
  | .attribute | .key | .type | .value => true
  | .os | .overflow | .recursion | .assertion | .other => false

/-- Whatever it raises is told. -/
def Tells {α : Type} (x : Except Foreign α) : Prop := ∀ e, x = .error e → e.told = true

theorem tells_ok {α : Type} (a : α) : Tells (.ok a) := nofun

theorem tells_error {α : Type} {e : Foreign} (he : e.told = true) : Tells (.error e : Except Foreign α) :=
  fun e' h => by cases h; exact he

theorem Tells.bind {α β : Type} {x : Except Foreign α} {f : α → Except Foreign β} (hx : Tells x)
    (hf : ∀ a, Tells (f a)) : Tells (x >>= f) := by
  intro e h
  rcases bind_eq_error.mp h with h | ⟨a, -, h⟩
  · exact hx e h
  · exact hf a e h

theorem Tells.ne_overflow {α : Type} {x : Except Foreign α} (hx : Tells x) : x ≠ .error .overflow :=
  fun h => nomatch hx _ h

theorem tells_asDict {v : Json} : Tells (asDict v) := by
  unfold asDict
  split
  · exact tells_ok _
  · exact tells_error rfl

theorem tells_item {fields : Dict String Json} {key : String} : Tells (item fields key) := by
  unfold item
  split
  · exact tells_ok _
  · exact tells_error rfl

theorem tells_validated {α : Type} {field : Option α} : Tells (validated field) := by
  unfold validated
  split
  · exact tells_ok _
  · exact tells_error rfl

theorem tells_elements {v : Json} : Tells (elements v) := by
  unfold elements
  split
  · exact tells_ok _
  · exact tells_ok _
  · exact tells_ok _
  all_goals exact tells_error rfl

theorem tells_endpointOf {direct : Option Json} : Tells (endpointOf lib direct) := by
  unfold endpointOf
  split
  · exact tells_ok _
  · exact tells_item.bind fun _ => tells_item.bind fun _ => tells_item.bind fun _ => tells_validated
  · exact tells_error rfl

theorem tells_utilsOf {runtime : Json} : Tells (utilsOf runtime) := by
  refine tells_asDict.bind fun runtime => tells_elements.bind fun gpus => ?_
  intro e h
  obtain ⟨gpu, -, h⟩ := exists_of_mapM_error h
  have htells : Tells (asDict gpu >>= fun gpu => (.ok ((gpu.get? "util").getD (.int 0)))) :=
    tells_asDict.bind fun _ => tells_ok _
  exact htells e h

theorem tells_createdAtOf {createdAt : Option Json} : Tells (createdAtOf lib createdAt) := by
  unfold createdAtOf
  split
  · exact tells_ok _
  · exact fun e h => tells_validated e (map_eq_error h)
  · exact tells_error rfl

theorem gpuNameOf_cases {gpu : Dict String Json} {machine : Option Json} {fields : Dict String Json} :
    ((∃ name, gpuNameOf gpu (orElse machine (.obj [])) fields = .ok name) ↔
      (Absent (gpu.get? "id") → ObjectOrEmpty machine)) ∧
    Tells (gpuNameOf gpu (orElse machine (.obj [])) fields) := by
  unfold gpuNameOf
  rcases filter_truthy_cases (gpu.get? "id") with ⟨habsent, hfilter⟩ | ⟨v, hget, hv, hfilter⟩
  · rw [hfilter]
    constructor
    · constructor
      · rintro ⟨name, h⟩ -
        obtain ⟨machine, hmachine, -⟩ := bind_eq_ok h
        exact (asDict_orElse.mp hmachine).1
      · intro h
        dsimp only
        rw [asDict_orElse.mpr ⟨h habsent, rfl⟩, bind_ok_eq]
        split
        · exact ⟨_, rfl⟩
        · exact ⟨_, rfl⟩
    · refine tells_asDict.bind fun machine => ?_
      split
      · exact tells_ok _
      · exact tells_ok _
  · rw [hfilter]
    exact ⟨⟨fun _ habsent => (habsent.not_truthy hget hv).elim, fun _ => ⟨_, rfl⟩⟩, tells_ok _⟩

theorem intOf_overflows {v : Json} :
    intOf lib v = .error .overflow ↔ ∃ negative, v = .float (.infinite negative) := by
  constructor
  · intro h
    cases v with
    | float x =>
      cases x with
      | infinite negative => exact ⟨negative, rfl⟩
      | finite q => cases h
      | nan => cases h
    | str s => exact absurd h tells_validated.ne_overflow
    | _ => cases h
  · rintro ⟨negative, rfl⟩
    rfl

theorem intOf_raises {v : Json} {e : Foreign} (h : intOf lib v = .error e) :
    e.told = true ∨ e = .overflow := by
  cases v with
  | float x =>
    cases x with
    | infinite negative => exact .inr (Except.error.inj h).symm
    | finite q => cases h
    | nan => exact .inl ((show Tells (validated (Float64.toInt .nan)) from tells_validated) e h)
  | str s => exact .inl (tells_validated e h)
  | null => exact .inl ((show Tells (.error .type : Except Foreign Int) from tells_error rfl) e h)
  | arr items => exact .inl ((show Tells (.error .type : Except Foreign Int) from tells_error rfl) e h)
  | obj pairs => exact .inl ((show Tells (.error .type : Except Foreign Int) from tells_error rfl) e h)
  | _ => cases h

/-- **Reading a body raises what a create tells, or overflows.** -/
theorem podFromApi_raises {payload : Json} {e : Foreign} (h : podFromApi lib payload = .error e) :
    e.told = true ∨ e = .overflow := by
  have hsplit : ∀ {α β : Type} {x : Except Foreign α} {f : α → Except Foreign β}, Tells x →
      (x >>= f) = .error e → e.told = true ∨ ∃ a, f a = .error e := by
    intro α β x f hx h
    rcases bind_eq_error.mp h with h | ⟨a, -, h⟩
    · exact .inl (hx e h)
    · exact .inr ⟨a, h⟩
  unfold podFromApi at h
  rcases hsplit tells_asDict h with h | ⟨fields, h⟩
  · exact .inl h
  rcases hsplit tells_asDict h with h | ⟨ssh, h⟩
  · exact .inl h
  rcases hsplit tells_item h with h | ⟨id, h⟩
  · exact .inl h
  rcases hsplit tells_item h with h | ⟨name, h⟩
  · exact .inl h
  rcases hsplit tells_item h with h | ⟨status, h⟩
  · exact .inl h
  rcases hsplit tells_asDict h with h | ⟨gpu, h⟩
  · exact .inl h
  rcases hsplit gpuNameOf_cases.2 h with h | ⟨gpuName, h⟩
  · exact .inl h
  rcases bind_eq_error.mp h with h | ⟨gpuCount, -, h⟩
  · exact intOf_raises h
  · exact .inl ((tells_endpointOf.bind fun _ => tells_utilsOf.bind fun _ =>
      tells_createdAtOf.bind fun _ => tells_validated) e h)

/-- **Reading a body overflows exactly at an infinite number of cards.** -/
theorem podFromApi_overflows {payload : Json} :
    podFromApi lib payload = .error .overflow ↔ Infinite payload := by
  constructor
  · intro h
    unfold podFromApi at h
    obtain ⟨fields, hfields, h⟩ := (bind_eq_error.mp h).resolve_left tells_asDict.ne_overflow
    obtain ⟨ssh, hssh, h⟩ := (bind_eq_error.mp h).resolve_left tells_asDict.ne_overflow
    obtain ⟨id, hid, h⟩ := (bind_eq_error.mp h).resolve_left tells_item.ne_overflow
    obtain ⟨name, hname, h⟩ := (bind_eq_error.mp h).resolve_left tells_item.ne_overflow
    obtain ⟨status, hstatus, h⟩ := (bind_eq_error.mp h).resolve_left tells_item.ne_overflow
    obtain ⟨gpu, hgpu, h⟩ := (bind_eq_error.mp h).resolve_left tells_asDict.ne_overflow
    obtain ⟨hgpuObject, rfl⟩ := asDict_orElse.mp hgpu
    obtain ⟨gpuName, hgpuName, hcount⟩ := (bind_eq_error.mp h).resolve_left gpuNameOf_cases.2.ne_overflow
    rcases bind_eq_error.mp hcount with hcount | ⟨gpuCount, -, hrest⟩
    · obtain ⟨negative, hcount⟩ := intOf_overflows.mp hcount
      refine ⟨fields, negative, asDict_eq_ok.mp hfields, (asDict_orElse.mp hssh).1, ?_, ?_, ?_,
        hgpuObject, gpuNameOf_cases.1.mp ⟨gpuName, hgpuName⟩, hcount⟩
      · rw [item_eq_ok.mp hid]
        rfl
      · rw [item_eq_ok.mp hname]
        rfl
      · rw [item_eq_ok.mp hstatus]
        rfl
    · obtain ⟨_, -, hrest⟩ := (bind_eq_error.mp hrest).resolve_left tells_endpointOf.ne_overflow
      obtain ⟨_, -, hrest⟩ := (bind_eq_error.mp hrest).resolve_left tells_utilsOf.ne_overflow
      obtain ⟨_, -, hrest⟩ := (bind_eq_error.mp hrest).resolve_left tells_createdAtOf.ne_overflow
      exact absurd hrest tells_validated.ne_overflow
  · rintro ⟨fields, negative, hfields, hssh, hid, hname, hstatus, hgpu, hmachine, hcount⟩
    obtain ⟨id, hid⟩ := Option.isSome_iff_exists.mp hid
    obtain ⟨name, hname⟩ := Option.isSome_iff_exists.mp hname
    obtain ⟨status, hstatus⟩ := Option.isSome_iff_exists.mp hstatus
    obtain ⟨gpuName, hgpuName⟩ := gpuNameOf_cases.1.mpr hmachine
    have hoverflow : intOf lib (countField fields) = .error .overflow :=
      intOf_overflows.mpr ⟨negative, hcount⟩
    rw [countField] at hoverflow
    rw [podFromApi, asDict_eq_ok.mpr hfields, bind_ok_eq, asDict_orElse.mpr ⟨hssh, rfl⟩, bind_ok_eq]
    dsimp only
    rw [item_eq_ok.mpr hid, bind_ok_eq, item_eq_ok.mpr hname, bind_ok_eq, item_eq_ok.mpr hstatus,
      bind_ok_eq, asDict_orElse.mpr ⟨hgpu, rfl⟩, bind_ok_eq, hgpuName, bind_ok_eq]
    rw [hoverflow]
    rfl

theorem not_podShaped_str (s : String) : ¬ PodShaped lib (.str s) :=
  fun ⟨_, h, _⟩ => nomatch h

/-- **A body is read as a list of pods exactly when it lists them.** -/
theorem exists_podsFromApi {payload : Json} :
    (∃ pods, podsFromApi lib payload = .ok pods) ↔ ListShaped lib payload := by
  constructor
  · rintro ⟨_, h⟩
    cases payload with
    | obj pairs =>
      obtain ⟨pods, hpods, h⟩ := bind_eq_ok h
      obtain ⟨items, hitems, h⟩ := bind_eq_ok h
      have hshaped : ∀ pod ∈ items, PodShaped lib pod :=
        fun pod hpod => exists_podFromApi.mp (exists_mapM_ok.mp ⟨_, h⟩ pod hpod)
      refine ⟨pairs, pods, rfl, item_eq_ok.mp hpods, ?_⟩
      cases pods with
      | arr _ =>
        cases hitems
        exact .inl ⟨items, rfl, hshaped⟩
      | str s =>
        cases hitems
        right; left
        rw [String.toList_eq_nil_iff.mp (List.eq_nil_iff_forall_not_mem.mpr fun c hc =>
          not_podShaped_str _ (hshaped _ (List.mem_map_of_mem hc)))]
      | obj pairs' =>
        cases hitems
        right; right
        have hnil : pairs' = [] := List.eq_nil_iff_forall_not_mem.mpr fun p hp =>
          not_podShaped_str p.1 (hshaped _ (List.mem_map_of_mem
            (Dict.mem_keys_ofList.mpr (List.mem_map_of_mem hp))))
        rw [hnil]
      | _ => cases hitems
    | _ => cases h
  · rintro ⟨pairs, pods, rfl, hpods, hshaped⟩
    obtain ⟨items, hitems, hshaped⟩ : ∃ items, elements pods = .ok items ∧
        ∀ pod ∈ items, PodShaped lib pod := by
      rcases hshaped with ⟨items, rfl, hshaped⟩ | rfl | rfl
      · exact ⟨items, rfl, hshaped⟩
      · exact ⟨[], rfl, nofun⟩
      · exact ⟨[], rfl, nofun⟩
    show ∃ pods, (item (Dict.ofList pairs) "pods" >>= _) = .ok pods
    rw [item_eq_ok.mpr hpods, bind_ok_eq, hitems, bind_ok_eq]
    exact exists_mapM_ok.mpr fun pod hpod => exists_podFromApi.mpr (hshaped pod hpod)

end Read

end Gpuc.Control.RunPod
