import Mathlib.Data.Fintype.Defs
import Gpuc.Control.Connect
import Gpuc.Laws.Job.Merged

/-!
# Machines that write one config in turn

What a machine's step can do is `Stepped`, one case for each step. A machine's write is what it read,
merged with its patch; so while nobody else is between its read for the merge and its rename when a
machine renames (`Alone`), the file is the first document with the written patches merged into it one after
the other (`Chain`, `Serial.step`). The last merge of a key is its patch's, or leaves what an earlier one
made (`Chain.patched`, `Chain.others`).

`writeConfig_eq` says that the steps are `write_config`'s own.
-/

set_option autoImplicit false

namespace Gpuc.Control.Connect

open Gpuc.Basis Gpuc.Host.Documents Gpuc.Control.Remote
open Gpuc.Host (Gpu Uuid resolve)

variable {t : Texts}

/-! ## Merges in turn -/

/-- **One document made of another by merging patches into it in turn.** -/
inductive Chain (t : Texts) (d : Dict String Json) :
    List (Dict String Json) → Dict String Json → Prop
  | nil : Chain t d [] d
  | snoc {patches : List (Dict String Json)} {patch m m' : Dict String Json} :
    Chain t d patches m → mergedConfig t (.ofDict m) patch = .ok m' →
      Chain t d (patches ++ [patch]) m'

theorem Chain.binaryVersion {d m : Dict String Json} {patches : List (Dict String Json)}
    (h : Chain t d patches m) (hd : BinaryVersion t d) : BinaryVersion t m := by
  cases h with
  | nil => exact hd
  | snoc _ hm => exact binaryVersion_merged hm

section Chain
variable {d m : Dict String Json} {patches : List (Dict String Json)}

theorem Chain.eq_of_nil (h : Chain t d patches m) (hnil : patches = []) : m = d := by
  cases h with
  | nil => rfl
  | snoc => exact absurd hnil (List.append_ne_nil_of_right_ne_nil _ (List.cons_ne_nil _ _))

/-- **What the last merge made of a key, it makes of it again.** -/
theorem Chain.settled (h : Chain t d patches m) (hd : BinaryVersion t d)
    (hpatches : ∀ p ∈ patches, BinaryVersion t p) (hne : patches ≠ []) (k : String) :
    normalised t k (m.get? k) = .ok (m.get? k) := by
  cases h with
  | nil => exact absurd rfl hne
  | snoc hbefore hm =>
    exact normalised_again hm
      ((hbefore.binaryVersion hd).updated (hpatches _ (List.mem_append_right _ List.mem_cons_self))) k

/-- A key that no patch names is as it was, or as a merge makes it. -/
theorem Chain.others (h : Chain t d patches m) (hd : BinaryVersion t d)
    (hpatches : ∀ p ∈ patches, BinaryVersion t p) {k : String} (hk : ∀ p ∈ patches, k ∉ p.keys) :
    (patches = [] ∧ m = d) ∨ normalised t k (d.get? k) = .ok (m.get? k) := by
  induction h with
  | nil => exact .inl ⟨rfl, rfl⟩
  | @snoc patches patch m m' hbefore hm ih =>
    rw [List.forall_mem_append] at hpatches hk
    have hmerged := normalised_of_merged hm k
    rw [Dict.get?_eq_none.mpr (hk.2 patch (List.mem_singleton_self patch)), Option.none_or] at hmerged
    refine .inr ?_
    rcases eq_or_ne patches [] with hnil | hne
    · rwa [← hbefore.eq_of_nil hnil]
    · rw [hbefore.settled hd hpatches.1 hne k] at hmerged
      rw [← Except.ok.inj hmerged]
      exact (ih hpatches.1 hk.1).resolve_left fun hstart => hne hstart.1

/-- **A key that one patch names holds the patch's value, as a merge makes it.** -/
theorem Chain.patched (h : Chain t d patches m) (hd : BinaryVersion t d)
    (hpatches : ∀ p ∈ patches, BinaryVersion t p)
    (hkeys : patches.Pairwise fun p q => ∀ k ∈ p.keys, k ∉ q.keys) :
    ∀ p ∈ patches, ∀ k ∈ p.keys, normalised t k (p.get? k) = .ok (m.get? k) := by
  induction h with
  | nil => exact fun p hp => absurd hp List.not_mem_nil
  | @snoc patches patch m m' hbefore hm ih =>
    intro p hp k hk
    rw [List.forall_mem_append] at hpatches
    rw [List.pairwise_append] at hkeys
    have hmerged := normalised_of_merged hm k
    rcases List.mem_append.mp hp with hp | hp
    · have hother := hkeys.2.2 p hp patch (List.mem_singleton_self patch) k hk
      rw [Dict.get?_eq_none.mpr hother, Option.none_or,
        hbefore.settled hd hpatches.1 (List.ne_nil_of_mem hp) k] at hmerged
      rw [← Except.ok.inj hmerged]
      exact ih hpatches.1 hkeys.1 p hp k hk
    · obtain rfl := List.mem_singleton.mp hp
      obtain ⟨value, hvalue⟩ := Dict.mem_keys.mp hk
      rwa [hvalue, Option.some_or, ← hvalue] at hmerged

end Chain

/-! ## What a machine decides -/

/-- **What a decision was judged on, and found**: the result names no card twice, and the patch is
written where it changes something. -/
structure Judged (t : Texts) (table : List Gpu) (seen : Dict String Json) (decision : Decision) :
    Prop where
  once : decision.patch.entries ≠ [] →
    namedTwice t table (update seen decision.patch) = .ok []
  writes : ∃ changes, configChanges t seen decision.patch = .ok changes ∧
    decision.writes = (!decision.patch.entries.isEmpty && (!changes.isEmpty || seen.entries.isEmpty))

/-- What a read leaves of a file: its document, or an empty one. -/
def held : HostConfigRead → Dict String Json
  | .document fields => fields
  | .missing | .unreadable _ => .empty

section Decide
variable {path name : String} {table : List Gpu} {entry : HostEntry} {read : HostConfigRead}
  {existing patch : Dict String Json} {envUpdates : Dict String (Option String)}
  {decision : Decision}

theorem raising_eq_ok {α : Type} {x : Except Raised α} {a : α} (h : raising x = .ok a) : x = .ok a :=
  mapError_eq_ok h

theorem readOrRefuse_eq_ok (h : readOrRefuse path name read = .ok existing) :
    existing = held read := by
  cases read with
  | document fields => exact (Except.ok.inj h).symm
  | missing => exact (Except.ok.inj h).symm
  | unreadable reason => cases h

theorem refuseSharedOverlap_eq_ok (h : refuseSharedOverlap t name table existing patch = .ok ()) :
    patch.entries ≠ [] → namedTwice t table (update existing patch) = .ok [] := by
  intro hne
  unfold refuseSharedOverlap at h
  rw [if_neg (by simpa using hne)] at h
  obtain ⟨config, -, h⟩ := bind_eq_ok h
  obtain ⟨both, hboth, h⟩ := bind_eq_ok h
  dsimp only at h
  split at h
  · next hnone => rw [raising_eq_ok hboth, List.isEmpty_iff.mp hnone]
  · cases h

theorem apply_judged (h : apply t entry table existing patch envUpdates = .ok decision) :
    decision.seen = some existing ∧ Judged t table existing decision := by
  unfold apply at h
  obtain ⟨patch', -, h⟩ := bind_eq_ok h
  obtain ⟨⟨⟩, honce, h⟩ := bind_eq_ok h
  obtain ⟨changes, hchanges, h⟩ := bind_eq_ok h
  obtain rfl := Except.ok.inj h
  exact ⟨rfl, refuseSharedOverlap_eq_ok honce, changes, raising_eq_ok hchanges, rfl⟩

/-- **A machine judges what it reads**, and a session that has shipped a build judges nothing and
writes the commit. -/
theorem decide_cases {c : Client} (h : c.decide t path read = .ok decision) :
    (decision.seen = none ∧ decision.writes = true ∧ decision.patch.keys = ["pkg_commit"]) ∨
      (decision.seen = some (held read) ∧ Judged t c.table (held read) decision) := by
  unfold Client.decide at h
  split at h
  · next commit =>
    obtain rfl := Except.ok.inj h
    exact .inl ⟨rfl, rfl, rfl⟩
  · next fields envUpdates _ =>
    obtain ⟨existing, hread, h⟩ := bind_eq_ok h
    obtain rfl := readOrRefuse_eq_ok hread
    exact .inr (apply_judged h)
  · next fields envUpdates force first beforeWrite _ =>
    obtain ⟨existing, hread, h⟩ := bind_eq_ok h
    obtain rfl := readOrRefuse_eq_ok hread
    dsimp only at h
    split at h
    · split at h
      · exact .inr (apply_judged h)
      · exact .inr (apply_judged h)
      · cases h
    · obtain ⟨⟨⟩, -, h⟩ := bind_eq_ok h
      obtain ⟨name, -, h⟩ := bind_eq_ok h
      split at h
      · cases h
      · exact .inr (apply_judged h)

theorem mergeRead_eq_ok {document : Dict String Json}
    (h : mergeRead t path read patch = .ok document) :
    mergedConfig t (.ofDict (held read)) patch = .ok document := by
  cases read with
  | document fields => exact raising_eq_ok h
  | missing => exact raising_eq_ok h
  | unreadable reason => cases h

/-- **A write is the merge of what it reads, and the document put.** -/
theorem writeConfig_eq {answer : Except String CommandResult} {put : Except String Unit}
    (hread : readConfig t path answer = .ok read) :
    writeConfig t path answer put patch =
      match mergeRead t path read patch with
      | .ok document => putConfig put document
      | .error failure => .left (some failure) := by
  unfold writeConfig
  rw [hread]
  cases read with
  | document fields =>
    dsimp only [mergeRead]
    cases mergedConfig t (.ofDict fields) patch <;> rfl
  | missing =>
    dsimp only [mergeRead]
    cases mergedConfig t (.ofDict .empty) patch <;> rfl
  | unreadable reason => rfl

end Decide

/-! ## What one step can do -/

section Steps
variable {ι : Type} [DecidableEq ι]

@[simp] theorem World.enter_file (w : World ι) (i : ι) (stage : Stage) :
    (w.enter i stage).file = w.file := rfl

@[simp] theorem World.enter_temps (w : World ι) (i : ι) (stage : Stage) :
    (w.enter i stage).temps = w.temps := rfl

@[simp] theorem World.enter_self (w : World ι) (i : ι) (stage : Stage) :
    (w.enter i stage).stage i = stage := Function.update_self ..

theorem World.enter_other (w : World ι) {i j : ι} (stage : Stage) (h : j ≠ i) :
    (w.enter i stage).stage j = w.stage j := Function.update_of_ne h ..

variable (t : Texts) (path : String) (clients : ι → Client)

/-- **What a machine's step can do**, by how far the machine is. -/
inductive Stepped (w : World ι) (i : ι) : Move → World ι → Prop
  | decides {decision : Decision} (idle : w.stage i = .idle)
      (decides : (clients i).decide t path w.file = .ok decision) :
    Stepped w i .decide
      (w.enter i (if decision.writes then .decided decision else .finished decision))
  | merges {decision : Decision} {document : Dict String Json}
      (decided : w.stage i = .decided decision)
      (merges : mergeRead t path w.file decision.patch = .ok document) :
    Stepped w i .merge (w.enter i (.merged decision document))
  | puts {decision : Decision} {document : Dict String Json}
      (merged : w.stage i = .merged decision document) :
    Stepped w i .put
      ((w.setTemp (clients i).pid (some document)).enter i (.placed decision document))
  | renames {decision : Decision} {document moved : Dict String Json}
      (placed : w.stage i = .placed decision document)
      (there : w.temps (clients i).pid = some moved) :
    Stepped w i .rename
      ({ w.setTemp (clients i).pid none with file := .document moved }.enter i (.finished decision))
  | fails {move : Move} {failure : Failure} {temps : Nat → Option (Dict String Json)}
      (running : ∀ decision, w.stage i ≠ .finished decision)
      (cleared : temps = Function.update w.temps (clients i).pid none ∨
        temps = w.temps ∧ ∀ decision document, w.stage i ≠ .placed decision document) :
    Stepped w i move ({ w with temps := temps }.enter i (.failed failure))

variable {t path clients} {w w' : World ι} {i : ι} {move : Move}

theorem step_cases (h : step t path clients w (i, move) = some w') :
    Stepped t path clients w i move w' := by
  unfold step at h
  dsimp only at h
  split at h
  · next hstage =>
    obtain rfl := Option.some.inj h
    split
    · next hdecides => exact .decides hstage hdecides
    · exact .fails (fun _ => by rw [hstage]; nofun) (.inr ⟨rfl, fun _ _ => by rw [hstage]; nofun⟩)
  · next hstage =>
    obtain rfl := Option.some.inj h
    split
    · next hmerges => exact .merges hstage hmerges
    · exact .fails (fun _ => by rw [hstage]; nofun) (.inr ⟨rfl, fun _ _ => by rw [hstage]; nofun⟩)
  · next hstage =>
    obtain rfl := Option.some.inj h
    exact .puts hstage
  · next hstage =>
    split at h
    · next hthere =>
      obtain rfl := Option.some.inj h
      exact .renames hstage hthere
    · next hgone =>
      obtain rfl := Option.some.inj h
      exact .fails (fun _ => by rw [hstage]; nofun)
        (.inl (by rw [← hgone, Function.update_eq_self]))
  · next hstage =>
    obtain rfl := Option.some.inj h
    exact .fails (fun _ => by rw [hstage]; nofun) (.inl rfl)
  · next hstage =>
    obtain rfl := Option.some.inj h
    exact .fails (fun _ => by rw [hstage]; nofun) (.inr ⟨rfl, fun _ _ => by rw [hstage]; nofun⟩)
  · next hstage =>
    obtain rfl := Option.some.inj h
    exact .fails (fun _ => by rw [hstage]; nofun) (.inr ⟨rfl, fun _ _ => by rw [hstage]; nofun⟩)
  · next hstage =>
    obtain rfl := Option.some.inj h
    exact .fails (fun _ => by rw [hstage]; nofun) (.inr ⟨rfl, fun _ _ => by rw [hstage]; nofun⟩)
  · cases h

/-! ## One after the other -/

/-- It has merged, and what it has merged is not the file yet. -/
def Stage.Merging (stage : Stage) (decision : Decision) (document : Dict String Json) : Prop :=
  stage = .merged decision document ∨ stage = .placed decision document

/-- It has decided to write, and has not written. -/
def Stage.Underway (stage : Stage) (decision : Decision) : Prop :=
  stage = .decided decision ∨ ∃ document, stage.Merging decision document

/-- It has written a patch. -/
def Stage.Wrote (stage : Stage) (patch : Dict String Json) : Prop :=
  ∃ decision, stage = .finished decision ∧ decision.writes = true ∧ decision.patch = patch

@[simp] theorem merging_placed {decision decision' : Decision} {document document' : Dict String Json} :
    (Stage.placed decision document).Merging decision' document' ↔
      decision = decision' ∧ document = document' := by
  simp [Stage.Merging]

@[simp] theorem merging_merged {decision decision' : Decision} {document document' : Dict String Json} :
    (Stage.merged decision document).Merging decision' document' ↔
      decision = decision' ∧ document = document' := by
  simp [Stage.Merging]

@[simp] theorem not_merging_decided {decision decision' : Decision} {document : Dict String Json} :
    ¬ (Stage.decided decision).Merging decision' document := by
  simp [Stage.Merging]

@[simp] theorem not_merging_finished {decision decision' : Decision} {document : Dict String Json} :
    ¬ (Stage.finished decision).Merging decision' document := by
  simp [Stage.Merging]

@[simp] theorem not_merging_failed {failure : Failure} {decision : Decision}
    {document : Dict String Json} : ¬ (Stage.failed failure).Merging decision document := by
  simp [Stage.Merging]

@[simp] theorem underway_decided {decision decision' : Decision} :
    (Stage.decided decision).Underway decision' ↔ decision = decision' := by
  simp [Stage.Underway]

@[simp] theorem underway_merged {decision decision' : Decision} {document : Dict String Json} :
    (Stage.merged decision document).Underway decision' ↔ decision = decision' := by
  simp [Stage.Underway]

@[simp] theorem underway_placed {decision decision' : Decision} {document : Dict String Json} :
    (Stage.placed decision document).Underway decision' ↔ decision = decision' := by
  simp [Stage.Underway]

@[simp] theorem not_underway_finished {decision decision' : Decision} :
    ¬ (Stage.finished decision).Underway decision' := by
  simp [Stage.Underway]

@[simp] theorem not_underway_failed {failure : Failure} {decision : Decision} :
    ¬ (Stage.failed failure).Underway decision := by
  simp [Stage.Underway]

/-- **Nobody else has read the file to write it, and not written yet.** -/
def Alone (w : World ι) (a : ι × Move) : Prop :=
  a.2 = .rename → ∀ j ≠ a.1, ∀ decision document, ¬ (w.stage j).Merging decision document

theorem Stepped.stage_other (h : Stepped t path clients w i move w') {j : ι} (hj : j ≠ i) :
    w'.stage j = w.stage j := by
  cases h <;> exact World.enter_other _ _ hj

/-- The document it has merged, before it is written. -/
def Stage.merging? : Stage → Option (Dict String Json)
  | .merged _ document | .placed _ document => some document
  | .idle | .decided _ | .finished _ | .failed _ => none

/-- What it has decided to write, before it is written. -/
def Stage.underway? : Stage → Option Decision
  | .decided decision | .merged decision _ | .placed decision _ => some decision
  | .idle | .finished _ | .failed _ => none

theorem merging?_eq_none {stage : Stage} :
    stage.merging? = none ↔ ∀ decision document, ¬ stage.Merging decision document := by
  cases stage <;> simp [Stage.merging?, Stage.Merging]

theorem underway?_eq_some {stage : Stage} {decision : Decision} :
    stage.underway? = some decision ↔ stage.Underway decision := by
  cases stage <;> simp [Stage.underway?, Stage.Underway, Stage.Merging]

instance [Fintype ι] (w : World ι) (a : ι × Move) : Decidable (Alone w a) :=
  decidable_of_iff (a.2 = .rename → ∀ j ≠ a.1, (w.stage j).merging?.isNone = true)
    (by simp only [Alone, Option.isNone_iff_eq_none, merging?_eq_none])

/-- A machine's step leaves the file and what was written alone, or it is a rename. -/
theorem Stepped.quiet_or_renames (h : Stepped t path clients w i move w') :
    (w'.file = w.file ∧ ∀ j patch, (w'.stage j).Wrote patch ↔ (w.stage j).Wrote patch) ∨
      ∃ decision document moved, move = .rename ∧ w.stage i = .placed decision document ∧
        w.temps (clients i).pid = some moved ∧
        w' = { w.setTemp (clients i).pid none with file := .document moved }.enter i
          (.finished decision) := by
  have hquiet : ∀ {w₁ : World ι} {stage : Stage}, w₁.stage = w.stage → w₁.file = w.file →
      (∀ patch, ¬ (w.stage i).Wrote patch) → (∀ patch, ¬ stage.Wrote patch) →
      (w₁.enter i stage).file = w.file ∧
        ∀ j patch, ((w₁.enter i stage).stage j).Wrote patch ↔ (w.stage j).Wrote patch := by
    intro w₁ stage hstages hfile hbefore hafter
    refine ⟨hfile, fun j patch => ?_⟩
    rcases eq_or_ne j i with rfl | hj
    · rw [World.enter_self]
      exact iff_of_false (hafter patch) (hbefore patch)
    · rw [World.enter_other _ _ hj, hstages]
  cases h with
  | @decides decision hidle _ =>
    refine .inl (hquiet rfl rfl (by simp [hidle, Stage.Wrote]) ?_)
    rintro patch ⟨decision', hstage, hwrites, -⟩
    split at hstage
    · cases hstage
    · next hnot =>
      cases hstage
      exact hnot hwrites
  | merges hdecided _ =>
    exact .inl (hquiet rfl rfl (by simp [hdecided, Stage.Wrote]) (by simp [Stage.Wrote]))
  | puts hmerged => exact .inl (hquiet rfl rfl (by simp [hmerged, Stage.Wrote]) (by simp [Stage.Wrote]))
  | @renames decision document moved hplaced hthere =>
    exact .inr ⟨decision, document, moved, rfl, hplaced, hthere, rfl⟩
  | fails hrunning _ =>
    refine .inl (hquiet rfl rfl ?_ (by simp [Stage.Wrote]))
    rintro patch ⟨decision, hstage, -, -⟩
    exact hrunning decision hstage

variable (t clients) in
/-- **The file is the first document with the written patches merged into it, one after the other**,
and what each machine is about to write is the file as it is with its patch. -/
structure Serial (d : Dict String Json) (w : World ι) : Prop where
  underway : ∀ j decision, (w.stage j).Underway decision → decision.writes = true
  merging : ∀ j decision document, (w.stage j).Merging decision document →
    mergedConfig t (.ofDict (held w.file)) decision.patch = .ok document
  /-- Another's temporary file of the same name may have taken the place of a machine's own. -/
  placed : ∀ j decision document, w.stage j = .placed decision document →
    w.temps (clients j).pid = some document ∨ w.temps (clients j).pid = none ∨
      ∃ k ≠ j, (clients k).pid = (clients j).pid ∧
        ∃ decision' document', w.stage k = .placed decision' document'
  chain : ∃ order : List (ι × Dict String Json), (order.map Prod.fst).Nodup ∧
    (∀ j patch, (j, patch) ∈ order ↔ (w.stage j).Wrote patch) ∧
    Chain t d (order.map Prod.snd) (held w.file)

omit [DecidableEq ι] in
/-- What is about to be renamed is what its machine has merged. -/
theorem Serial.moves {d : Dict String Json} {decision : Decision} {document moved : Dict String Json}
    (hw : Serial t clients d w) (halone : Alone w (i, .rename))
    (hplaced : w.stage i = .placed decision document) (hthere : w.temps (clients i).pid = some moved) :
    moved = document := by
  rcases hw.placed i decision document hplaced with hown | hnone | ⟨k, hk, -, decision', document', hother⟩
  · rw [hthere] at hown
    exact Option.some.inj hown
  · rw [hthere] at hnone
    cases hnone
  · exact absurd (.inr hother) (halone rfl k hk decision' document')

/-- **A machine that has decided to write decided so before this step, or in it.** -/
theorem Stepped.underway_from (h : Stepped t path clients w i move w') {j : ι} {decision : Decision}
    (hunder : (w'.stage j).Underway decision) :
    (w.stage j).Underway decision ∨
      (j = i ∧ (clients j).decide t path w.file = .ok decision ∧ decision.writes = true) := by
  rcases eq_or_ne j i with rfl | hj
  · cases h with
    | decides _ hdecides =>
      rw [World.enter_self] at hunder
      split at hunder
      · next hwrites =>
        obtain rfl := underway_decided.mp hunder
        exact .inr ⟨rfl, hdecides, hwrites⟩
      · exact absurd hunder not_underway_finished
    | merges hdecided =>
      rw [World.enter_self] at hunder
      obtain rfl := underway_merged.mp hunder
      exact .inl (.inl hdecided)
    | puts hmerged =>
      rw [World.enter_self] at hunder
      obtain rfl := underway_placed.mp hunder
      exact .inl (.inr ⟨_, .inl hmerged⟩)
    | renames =>
      rw [World.enter_self] at hunder
      exact absurd hunder not_underway_finished
    | fails =>
      rw [World.enter_self] at hunder
      exact absurd hunder not_underway_failed
  · rw [h.stage_other hj] at hunder
    exact .inl hunder

/-- **A machine that has finished had finished, had decided to write, or found nothing to write.** -/
theorem Stepped.finished_from (h : Stepped t path clients w i move w') {j : ι} {decision : Decision}
    (hfinished : w'.stage j = .finished decision) :
    w.stage j = .finished decision ∨ (w.stage j).Underway decision ∨
      ((clients j).decide t path w.file = .ok decision ∧ decision.writes = false ∧
        w'.file = w.file) := by
  rcases eq_or_ne j i with rfl | hj
  · cases h with
    | decides _ hdecides =>
      rw [World.enter_self] at hfinished
      split at hfinished
      · cases hfinished
      · next hnot =>
        cases hfinished
        exact .inr (.inr ⟨hdecides, Bool.not_eq_true _ ▸ hnot, rfl⟩)
    | merges | puts | fails =>
      rw [World.enter_self] at hfinished
      cases hfinished
    | renames hplaced =>
      rw [World.enter_self] at hfinished
      cases hfinished
      exact .inr (.inl (.inr ⟨_, .inr hplaced⟩))
  · rw [h.stage_other hj] at hfinished
    exact .inl hfinished

theorem Stepped.merging {d : Dict String Json} (h : Stepped t path clients w i move w')
    (hw : Serial t clients d w) (halone : Alone w (i, move)) :
    ∀ j decision document, (w'.stage j).Merging decision document →
      mergedConfig t (.ofDict (held w'.file)) decision.patch = .ok document := by
  intro j decision document hmerging
  rcases eq_or_ne j i with rfl | hj
  · cases h with
    | @decides decision' =>
      rw [World.enter_self] at hmerging
      split at hmerging
      · exact absurd hmerging not_merging_decided
      · exact absurd hmerging not_merging_finished
    | merges _ hmerges =>
      rw [World.enter_self] at hmerging
      obtain ⟨rfl, rfl⟩ := merging_merged.mp hmerging
      exact mergeRead_eq_ok hmerges
    | puts hmerged =>
      rw [World.enter_self] at hmerging
      obtain ⟨rfl, rfl⟩ := merging_placed.mp hmerging
      exact hw.merging j _ _ (.inl hmerged)
    | renames =>
      rw [World.enter_self] at hmerging
      exact absurd hmerging not_merging_finished
    | fails =>
      rw [World.enter_self] at hmerging
      exact absurd hmerging not_merging_failed
  · rw [h.stage_other hj] at hmerging
    rcases h.quiet_or_renames with ⟨hfile, -⟩ | ⟨_, _, _, rfl, -⟩
    · rw [hfile]
      exact hw.merging j decision document hmerging
    · exact absurd hmerging (halone rfl j hj decision document)

theorem Stepped.placed {d : Dict String Json} (h : Stepped t path clients w i move w')
    (hw : Serial t clients d w) (halone : Alone w (i, move)) :
    ∀ j decision document, w'.stage j = .placed decision document →
      w'.temps (clients j).pid = some document ∨ w'.temps (clients j).pid = none ∨
        ∃ k ≠ j, (clients k).pid = (clients j).pid ∧
          ∃ decision' document', w'.stage k = .placed decision' document' := by
  intro j decision document hplaced
  rcases eq_or_ne j i with rfl | hj
  · cases h with
    | @decides decision' =>
      rw [World.enter_self] at hplaced
      split at hplaced <;> cases hplaced
    | merges | renames | fails =>
      rw [World.enter_self] at hplaced
      cases hplaced
    | puts =>
      rw [World.enter_self] at hplaced
      cases hplaced
      exact .inl (Function.update_self ..)
  · rw [h.stage_other hj] at hplaced
    -- another machine's file stays there while that machine does not step
    have hstill : ∀ {w₁ : World ι} {stage : Stage}, w₁.stage = w.stage →
        w₁.temps (clients j).pid = w.temps (clients j).pid →
        ((clients i).pid = (clients j).pid → ∀ decision document, w.stage i ≠ .placed decision document) →
        (w₁.enter i stage).temps (clients j).pid = some document ∨
          (w₁.enter i stage).temps (clients j).pid = none ∨
          ∃ k ≠ j, (clients k).pid = (clients j).pid ∧
            ∃ decision' document', (w₁.enter i stage).stage k = .placed decision' document' := by
      intro w₁ stage hstages htemps hnot
      rw [World.enter_temps, htemps]
      refine (hw.placed j decision document hplaced).imp_right (Or.imp_right ?_)
      rintro ⟨k, hk, hpid, decision', document', hother⟩
      have hki : k ≠ i := by
        rintro rfl
        exact hnot hpid decision' document' hother
      exact ⟨k, hk, hpid, decision', document', by rw [World.enter_other _ _ hki, hstages, hother]⟩
    cases h with
    | decides hidle _ => exact hstill rfl rfl fun _ _ _ => by rw [hidle]; nofun
    | merges hdecided _ => exact hstill rfl rfl fun _ _ _ => by rw [hdecided]; nofun
    | @puts decision' document' hmerged =>
      by_cases hpid : (clients j).pid = (clients i).pid
      · exact .inr (.inr ⟨i, hj.symm, hpid.symm, decision', document', World.enter_self ..⟩)
      · exact hstill rfl (Function.update_of_ne hpid ..) fun _ _ _ => by rw [hmerged]; nofun
    | renames => exact absurd (.inr hplaced) (halone rfl j hj decision document)
    | fails _ hcleared =>
      rcases hcleared with rfl | ⟨rfl, hnot⟩
      · by_cases hpid : (clients j).pid = (clients i).pid
        · refine .inr (.inl ?_)
          show Function.update w.temps (clients i).pid none (clients j).pid = none
          rw [hpid, Function.update_self]
        · exact hstill rfl (Function.update_of_ne hpid ..) fun hsame => absurd hsame.symm hpid
      · exact hstill rfl rfl fun _ => hnot

/-- **A rename**: what the machine merged is the file, and is what the file was with its patch. -/
structure Renamed (t : Texts) (w : World ι) (i : ι) (decision : Decision) (w' : World ι) : Prop where
  underway : (w.stage i).Underway decision
  merged : mergedConfig t (.ofDict (held w.file)) decision.patch = .ok (held w'.file)
  finished : w'.stage i = .finished decision
  writes : decision.writes = true

/-- **A step leaves the file alone, or renames one merge over it.** -/
theorem Stepped.renamed {d : Dict String Json} (h : Stepped t path clients w i move w')
    (hw : Serial t clients d w) (halone : Alone w (i, move)) :
    (w'.file = w.file ∧ ∀ j patch, (w'.stage j).Wrote patch ↔ (w.stage j).Wrote patch) ∨
      move = .rename ∧ ∃ decision, Renamed t w i decision w' := by
  refine h.quiet_or_renames.imp_right ?_
  rintro ⟨decision, document, moved, rfl, hplaced, hthere, rfl⟩
  obtain rfl := hw.moves halone hplaced hthere
  have hunder : (w.stage i).Underway decision := .inr ⟨moved, .inr hplaced⟩
  exact ⟨rfl, decision, hunder, hw.merging i decision moved (.inr hplaced), World.enter_self ..,
    hw.underway i decision hunder⟩

/-- What has been written once a machine has renamed. -/
theorem Stepped.wrote_iff (h : Stepped t path clients w i move w') {decision : Decision}
    (hrenamed : Renamed t w i decision w') (j : ι) (patch : Dict String Json) :
    (w'.stage j).Wrote patch ↔ (w.stage j).Wrote patch ∨ (j = i ∧ patch = decision.patch) := by
  rcases eq_or_ne j i with rfl | hj
  · have hbefore : ¬ (w.stage j).Wrote patch := by
      rintro ⟨decision', hstage, -, -⟩
      have hunder := hrenamed.underway
      rw [hstage] at hunder
      exact not_underway_finished hunder
    rw [hrenamed.finished]
    constructor
    · rintro ⟨decision', hstage, -, rfl⟩
      cases hstage
      exact .inr ⟨rfl, rfl⟩
    · rintro (hwrote | ⟨-, rfl⟩)
      · exact absurd hwrote hbefore
      · exact ⟨decision, rfl, hrenamed.writes, rfl⟩
  · rw [h.stage_other hj]
    exact (or_iff_left fun hsame => hj hsame.1).symm

theorem Stepped.chain {d : Dict String Json} (h : Stepped t path clients w i move w')
    (hw : Serial t clients d w) (halone : Alone w (i, move)) :
    ∃ order : List (ι × Dict String Json), (order.map Prod.fst).Nodup ∧
      (∀ j patch, (j, patch) ∈ order ↔ (w'.stage j).Wrote patch) ∧
      Chain t d (order.map Prod.snd) (held w'.file) := by
  obtain ⟨order, hnodup, hwrote, hchain⟩ := hw.chain
  rcases h.renamed hw halone with ⟨hfile, hsame⟩ | ⟨-, decision, hrenamed⟩
  · refine ⟨order, hnodup, fun j patch => (hwrote j patch).trans (hsame j patch).symm, ?_⟩
    rwa [hfile]
  · refine ⟨order ++ [(i, decision.patch)], ?_, fun j patch => ?_, ?_⟩
    · rw [List.map_append, List.map_singleton]
      refine hnodup.append (List.nodup_singleton i) fun j hj hi => ?_
      obtain ⟨⟨j, patch⟩, hmem, rfl⟩ := List.mem_map.mp hj
      obtain rfl := List.mem_singleton.mp hi
      obtain ⟨decision', hstage, -, -⟩ := (hwrote j patch).mp hmem
      have hunder := hrenamed.underway
      rw [hstage] at hunder
      exact not_underway_finished hunder
    · rw [List.mem_append, List.mem_singleton, Prod.mk.injEq, hwrote, h.wrote_iff hrenamed]
    · rw [List.map_append]
      exact hchain.snoc hrenamed.merged

/-- **While each machine renames alone, the file is the patches merged one after the other.** -/
theorem Serial.step {d : Dict String Json} (hw : Serial t clients d w) (halone : Alone w (i, move))
    (h : Stepped t path clients w i move w') : Serial t clients d w' where
  underway j decision hunder := by
    rcases h.underway_from hunder with hbefore | ⟨-, -, hwrites⟩
    · exact hw.underway j decision hbefore
    · exact hwrites
  merging := h.merging hw halone
  placed := h.placed hw halone
  chain := h.chain hw halone

omit [DecidableEq ι] in
theorem Serial.fresh (hfresh : w.Fresh) : Serial t clients (held w.file) w := by
  refine ⟨fun j decision hunder => ?_, fun j decision document hmerging => ?_,
    fun j decision document hplaced => ?_, [], List.nodup_nil, fun j patch => ?_, .nil⟩
  · rw [hfresh j] at hunder
    simp [Stage.Underway, Stage.Merging] at hunder
  · rw [hfresh j] at hmerging
    simp [Stage.Merging] at hmerging
  · rw [hfresh j] at hplaced
    cases hplaced
  · rw [hfresh j]
    simp [Stage.Wrote]

end Steps

end Gpuc.Control.Connect
