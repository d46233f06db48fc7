import Gpuc.Control.Verbs
import Gpuc.Laws.Control.Locate
import Gpuc.Laws.Job.Patched

/-!
# What a verb reports, and what it mirrors

A job's result is its place's or its host's word (`resultOf`), whatever the other jobs are, and its
mirrored spec is written once the host has said that it did what it was asked (`mirrorAll_read`). A later
look at the answer may still make it a failure: `set` writes the mirror first, and then asks whether the
host named every field. So what it mirrors of a job is what it reports unless a host accepts the command
without confirming it (`job_verbs_truthful_iff`).
-/

set_option autoImplicit false

namespace Gpuc.Control.Verbs

open Gpuc.Basis
open Gpuc.Host.Documents (update patchError Formats plainFormats get?_update)
open Gpuc.Control.Locate
open Gpuc.Control.Wait (Mirror Source readMirror)

/-! ## What a document says of a job -/

/-- **A host's document has an entry for the job**, with a status, no `error` and no `missing`. -/
def SaysDone (asked : Asked) (jobId : String) : Prop :=
  ∃ payload jobs, asked = .answered payload ∧ asked.jobs = .ok jobs ∧
    ∃ job ∈ jobs, ∃ entry, job.members = some entry ∧ idOf job = some jobId ∧
      isTrue entry "status" = true ∧ isTrue entry "error" = false ∧ isTrue entry "missing" = false

/-- The entry of a job that its host has carried out. -/
def carriedOut (asked : Asked) (jobId : String) : Option (Dict String Json) :=
  match asked, asked.jobs with
  | .answered _, .ok jobs => (entryOf jobs jobId).filter fun entry =>
      !isTrue entry "missing" && !isTrue entry "error" && isTrue entry "status"
  | _, _ => none

theorem exists_of_entryOf {jobs : List Json} {jobId : String} {entry : Dict String Json}
    (h : entryOf jobs jobId = some entry) :
    ∃ job ∈ jobs, job.members = some entry ∧ idOf job = some jobId := by
  have hmem := Dict.mem_of_get?_ofList h
  obtain ⟨job, hin, hjob⟩ := List.mem_filterMap.mp hmem
  refine ⟨job, hin, ?_⟩
  cases hmembers : job.members with
  | none => rw [hmembers] at hjob; exact nomatch hjob
  | some fields =>
    cases hid : idOf job with
    | none => rw [hmembers, hid] at hjob; exact nomatch hjob
    | some id =>
      rw [hmembers, hid] at hjob
      obtain ⟨rfl, rfl⟩ := Prod.mk.inj (Option.some.inj hjob)
      exact ⟨rfl, rfl⟩

theorem saysDone_of_carriedOut {asked : Asked} {jobId : String} {entry : Dict String Json}
    (h : carriedOut asked jobId = some entry) : SaysDone asked jobId := by
  unfold carriedOut at h
  cases asked with
  | unaskable reason => exact nomatch h
  | gone reason => exact nomatch h
  | answered payload =>
    cases hjobs : (Asked.answered payload).jobs with
    | error failure => rw [hjobs] at h; exact nomatch h
    | ok jobs =>
      rw [hjobs] at h
      obtain ⟨hentry, htests⟩ := Option.filter_eq_some_iff.mp h
      obtain ⟨job, hin, hmembers, hid⟩ := exists_of_entryOf hentry
      simp only [Bool.and_eq_true, Bool.not_eq_true'] at htests
      obtain ⟨⟨hmissing, herror⟩, hstatus⟩ := htests
      exact ⟨payload, jobs, rfl, hjobs, job, hin, entry, hmembers, hid, hstatus, herror, hmissing⟩

section Verb
variable {o : Outside} {verb : String}

/-- What a host that could not be asked, or whose document could not be read, has said of a job. -/
def said (o : Outside) (verb host jobId : String) : Done :=
  match o.reply host with
  | .answered payload =>
    match (Asked.answered payload).jobs with
    | .ok jobs => verdict o verb host payload jobs jobId
    | .error _ => { jobId, host := some host }
  | .unaskable reason | .gone reason =>
    { jobId, host := some host
      error := some s!"job {jobId} is on host {host}, which could not be asked: {reason}" }

theorem verdicts_ok {host : String} {jobIds : List String} {done : List Done}
    (h : verdicts o verb host jobIds = .ok done) : done = jobIds.map (said o verb host) := by
  unfold verdicts at h
  unfold said
  cases hreply : o.reply host with
  | unaskable reason => rw [hreply] at h; exact (Except.ok.inj h).symm
  | gone reason => rw [hreply] at h; exact (Except.ok.inj h).symm
  | answered payload =>
    rw [hreply] at h
    obtain ⟨jobs, hjobs, rfl⟩ := map_eq_ok h
    simp only [hjobs]

theorem exists_verdicts {host : String} {jobIds : List String} :
    (∃ done, verdicts o verb host jobIds = .ok done) ↔ (o.reply host).Readable := by
  unfold verdicts Asked.Readable
  cases hreply : o.reply host with
  | unaskable reason => simp [Asked.jobs]
  | gone reason => simp [Asked.jobs]
  | answered payload =>
    dsimp only
    cases (Asked.answered payload).jobs <;> simp [Except.map]

/-- **A host's word on a job**: no error where the host carried it out, and then the host's fields. -/
theorem said_spec {host jobId : String} (h : (o.reply host).Readable) :
    (said o verb host jobId).jobId = jobId ∧ (said o verb host jobId).host = some host ∧
      (said o verb host jobId).source = .host ∧
      ((said o verb host jobId).error = none ↔ ∃ entry, carriedOut (o.reply host) jobId = some entry) ∧
      ∀ entry, carriedOut (o.reply host) jobId = some entry →
        (said o verb host jobId).fields = (entry.erase "job_id").erase "warning" := by
  unfold said carriedOut
  obtain ⟨jobs, hjobs⟩ := h
  cases hreply : o.reply host with
  | unaskable reason => simp
  | gone reason => simp
  | answered payload =>
    rw [hreply] at hjobs
    simp only [hjobs]
    unfold verdict
    cases hentry : entryOf jobs jobId with
    | none =>
      have hnone : ∀ key, isTrue Dict.empty key = false := fun _ => rfl
      simp [hnone]
    | some entry =>
      dsimp only [Option.getD_some]
      cases hmissing : isTrue entry "missing" with
      | true => simp [hmissing]
      | false =>
        cases herror : isTrue entry "error" with
        | true => simp [hmissing, herror]
        | false => cases hstatus : isTrue entry "status" <;> simp [hmissing, herror, hstatus]

/-! ## One job's result -/

/-- A result with other warnings. -/
def Done.withWarnings (job : Done) (warnings : List String) : Done := { job with warnings := warnings }

/-- The host to ask about a job, by its place. -/
def hostOf : Placed → Option String
  | .unlocated _ _ => none
  | .location location =>
    match trouble location, location.entry with
    | none, some _ => some location.host
    | _, _ => none

/-- What is decided by a job's place alone is of that job, and no success on a host. -/
theorem triage_cases (endedIsAnswer : Bool) (jobId : String) (place : Placed) :
    (∃ host, hostOf place = some host ∧ triage o verb endedIsAnswer jobId place = .inr host) ∨
      ∃ done, hostOf place = none ∧ triage o verb endedIsAnswer jobId place = .inl done ∧
        done.jobId = jobId ∧ (done.error = none → done.source = .mirror ∧ endedIsAnswer = true) := by
  cases place with
  | unlocated reason missing => exact .inr ⟨_, rfl, rfl, rfl, fun h => nomatch h⟩
  | location location =>
    unfold hostOf triage
    dsimp only
    cases htrouble : trouble location with
    | none =>
      cases hentry : location.entry with
      | none => exact .inr ⟨_, rfl, rfl, rfl, fun h => nomatch h⟩
      | some entry => exact .inl ⟨location.host, rfl, rfl⟩
    | some asked =>
      cases asked with
      | answered payload => exact .inr ⟨_, rfl, rfl, rfl, fun h => nomatch h⟩
      | unaskable reason => exact .inr ⟨_, rfl, rfl, rfl, fun h => nomatch h⟩
      | gone reason =>
        refine .inr ⟨_, rfl, rfl, ?_⟩
        unfold endedOnGoneHost
        dsimp only
        cases (readMirror jobId (o.mirror jobId)).view with
        | none => exact ⟨rfl, fun h => nomatch h⟩
        | some view =>
          cases endedIsAnswer with
          | true => exact ⟨rfl, fun _ => ⟨rfl, rfl⟩⟩
          | false => exact ⟨rfl, fun h => nomatch h⟩

/-- **A job's result**, before anything is mirrored: by its place, or its host's word. -/
def resultOf (o : Outside) (verb : String) (endedIsAnswer : Bool) (jobId : String) (place : Placed) :
    Done :=
  match triage o verb endedIsAnswer jobId place with
  | .inl done => done
  | .inr host => said o verb host jobId

/-- Every host that is asked answers with jobs that can be gone through, if it answers. -/
def Outside.Readable (o : Outside) (placed : Dict String Placed) : Prop :=
  ∀ jobId place host, placed.get? jobId = some place → hostOf place = some host →
    (o.reply host).Readable

/-- **A result is of its job, and on a host without an error only where the host carried it out.** -/
theorem resultOf_spec {endedIsAnswer : Bool} {jobId : String} {place : Placed}
    (h : ∀ host, hostOf place = some host → (o.reply host).Readable) :
    (resultOf o verb endedIsAnswer jobId place).jobId = jobId ∧
      ((resultOf o verb endedIsAnswer jobId place).error = none ∧
          (resultOf o verb endedIsAnswer jobId place).source = .host ↔
        ∃ host entry, hostOf place = some host ∧ carriedOut (o.reply host) jobId = some entry) ∧
      ∀ host entry, hostOf place = some host → carriedOut (o.reply host) jobId = some entry →
        (resultOf o verb endedIsAnswer jobId place).host = some host ∧
          (resultOf o verb endedIsAnswer jobId place).fields =
            (entry.erase "job_id").erase "warning" := by
  unfold resultOf
  rcases triage_cases endedIsAnswer jobId place with ⟨host, hhost, htriage⟩ |
    ⟨done, hhost, htriage, hid, hsource⟩
  · rw [htriage]
    obtain ⟨hid, hsaid, hsource, herror, hfields⟩ := said_spec (h host hhost)
    refine ⟨hid, ?_, ?_⟩
    · rw [hsource, and_iff_left rfl, herror]
      constructor
      · exact fun ⟨entry, hentry⟩ => ⟨host, entry, hhost, hentry⟩
      · rintro ⟨host', entry, hhost', hentry⟩
        obtain rfl := Option.some.inj (hhost.symm.trans hhost')
        exact ⟨entry, hentry⟩
    · intro host' entry hhost' hentry
      obtain rfl := Option.some.inj (hhost.symm.trans hhost')
      exact ⟨hsaid, hfields entry hentry⟩
  · rw [htriage]
    refine ⟨hid, ⟨fun ⟨herror, hhostly⟩ => ?_, fun ⟨host, _, hhost', _⟩ => ?_⟩,
      fun host _ hhost' => ?_⟩
    · rw [(hsource herror).1] at hhostly
      exact nomatch hhostly
    · exact nomatch hhost.symm.trans hhost'
    · exact nomatch hhost.symm.trans hhost'

/-- Where the mirror's word is no answer, a result without an error is a host's. -/
theorem source_of_error {jobId : String} {place : Placed}
    (h : ∀ host, hostOf place = some host → (o.reply host).Readable)
    (herror : (resultOf o verb false jobId place).error = none) :
    (resultOf o verb false jobId place).source = .host := by
  unfold resultOf at herror ⊢
  rcases @triage_cases o verb false jobId place with ⟨host, hhost, htriage⟩ |
    ⟨done, -, htriage, -, hsource⟩
  · rw [htriage]
    exact (said_spec (h host hhost)).2.2.1
  · rw [htriage] at herror
    exact nomatch (hsource herror).2

/-! ## All jobs -/

section All
variable {endedIsAnswer : Bool} {placed : Dict String Placed}

theorem get?_onHost {host jobId : String} :
    (∃ jobIds, (onHost o verb endedIsAnswer placed).get? host = some jobIds ∧ jobId ∈ jobIds) ↔
      ∃ place, placed.get? jobId = some place ∧ hostOf place = some host := by
  rw [onHost, Dict.mem_grouped, List.mem_filterMap]
  constructor
  · rintro ⟨⟨id, place⟩, hmem, heq⟩
    rcases triage_cases endedIsAnswer id place with ⟨host', hhost, htriage⟩ | ⟨done, -, htriage, -⟩
    · dsimp only at heq
      rw [htriage] at heq
      obtain ⟨rfl, rfl⟩ := Prod.mk.inj (Option.some.inj heq)
      exact ⟨place, Dict.get?_eq_some.mpr hmem, hhost⟩
    · dsimp only at heq
      rw [htriage] at heq
      exact nomatch heq
  · rintro ⟨place, hget, hhost⟩
    refine ⟨(jobId, place), Dict.get?_eq_some.mp hget, ?_⟩
    rcases triage_cases endedIsAnswer jobId place with ⟨host', hhost', htriage⟩ | ⟨done, hnone, -, -⟩
    · obtain rfl := Option.some.inj (hhost.symm.trans hhost')
      dsimp only
      rw [htriage]
    · exact nomatch hhost.symm.trans hnone

theorem mem_byPlace {done : Done} :
    done ∈ byPlace o verb endedIsAnswer placed ↔
      ∃ jobId place, placed.get? jobId = some place ∧ hostOf place = none ∧
        done = resultOf o verb endedIsAnswer jobId place := by
  rw [byPlace, List.mem_filterMap]
  constructor
  · rintro ⟨⟨id, place⟩, hmem, heq⟩
    rcases triage_cases endedIsAnswer id place with ⟨host, -, htriage⟩ | ⟨done', hnone, htriage, -⟩
    · dsimp only at heq
      rw [htriage] at heq
      exact nomatch heq
    · dsimp only at heq
      rw [htriage] at heq
      obtain rfl := Option.some.inj heq
      exact ⟨id, place, Dict.get?_eq_some.mpr hmem, hnone, by rw [resultOf, htriage]⟩
  · rintro ⟨jobId, place, hget, hnone, rfl⟩
    refine ⟨(jobId, place), Dict.get?_eq_some.mp hget, ?_⟩
    rcases triage_cases endedIsAnswer jobId place with ⟨host, hhost, -⟩ | ⟨done', -, htriage, -⟩
    · exact nomatch hnone.symm.trans hhost
    · dsimp only
      rw [resultOf, htriage]

/-- **Every job has its result, and nothing else is one.** -/
theorem mem_results {said' : List (List Done)}
    (h : (onHost o verb endedIsAnswer placed).entries.mapM (fun e => verdicts o verb e.1 e.2) = .ok said')
    {done : Done} :
    done ∈ byPlace o verb endedIsAnswer placed ++ said'.flatten ↔
      ∃ jobId place, placed.get? jobId = some place ∧
        done = resultOf o verb endedIsAnswer jobId place := by
  have hresult : ∀ {jobId place host}, hostOf place = some host →
      resultOf o verb endedIsAnswer jobId place = said o verb host jobId := by
    intro jobId place host hhost
    rcases triage_cases endedIsAnswer jobId place with ⟨host', hhost', htriage⟩ | ⟨_, hnone, -, -⟩
    · obtain rfl := Option.some.inj (hhost.symm.trans hhost')
      rw [resultOf, htriage]
    · exact nomatch hhost.symm.trans hnone
  rw [List.mem_append, mem_byPlace, List.mem_flatten]
  constructor
  · rintro (⟨jobId, place, hget, -, rfl⟩ | ⟨verdicts', hmem, hin⟩)
    · exact ⟨jobId, place, hget, rfl⟩
    · obtain ⟨⟨host, jobIds⟩, hentry, hverdicts⟩ := exists_of_mem_mapM h hmem
      rw [verdicts_ok hverdicts] at hin
      obtain ⟨jobId, hjob, rfl⟩ := List.mem_map.mp hin
      obtain ⟨place, hget, hhost⟩ := get?_onHost.mp ⟨jobIds, Dict.get?_eq_some.mpr hentry, hjob⟩
      exact ⟨jobId, place, hget, (hresult hhost).symm⟩
  · rintro ⟨jobId, place, hget, rfl⟩
    cases hhost : hostOf place with
    | none => exact .inl ⟨jobId, place, hget, hhost, rfl⟩
    | some host =>
      obtain ⟨jobIds, hgroup, hjob⟩ :=
        (@get?_onHost o verb endedIsAnswer placed host jobId).mpr ⟨place, hget, hhost⟩
      obtain ⟨verdicts', hmem, hverdicts⟩ := mem_mapM_eq_ok h (Dict.get?_eq_some.mp hgroup)
      refine .inr ⟨verdicts', hmem, ?_⟩
      rw [verdicts_ok hverdicts, hresult hhost]
      exact List.mem_map.mpr ⟨jobId, hjob, rfl⟩

end All

end Verb

/-! ## The mirrored specs -/

/-- A key that holds a value already is written again. -/
theorem set_eq_self {d : Dict String Json} {k : String} {v : Json} (h : d.get? k = some v) :
    d.set k v = d := by
  have hin : k ∈ d.keys := Dict.mem_keys.mpr ⟨v, h⟩
  apply Dict.ext
  show (if k ∈ d.keys then d.entries.map fun e => if e.1 = k then (k, v) else e else _) = d.entries
  rw [if_pos hin]
  refine (List.map_congr_left fun e he => ?_).trans (List.map_id _)
  by_cases hk : e.1 = k
  · rw [if_pos hk]
    exact (List.inj_on_of_nodup_map d.nodup he (Dict.get?_eq_some.mp h) hk).symm
  · rw [if_neg hk]
    rfl

/-- **A patch that has been written is written again.** -/
theorem update_update (d patch : Dict String Json) : update (update d patch) patch = update d patch := by
  have hfold : ∀ (es : List (String × Json)) (d : Dict String Json),
      (∀ e ∈ es, d.get? e.1 = some e.2) → es.foldl (fun d e => d.set e.1 e.2) d = d := by
    intro es
    induction es with
    | nil => exact fun _ _ => rfl
    | cons e es ih =>
      intro d h
      rw [List.foldl_cons, set_eq_self (h e List.mem_cons_self)]
      exact ih d fun e' he' => h e' (List.mem_cons_of_mem e he')
  have hupdate : ∀ d : Dict String Json,
      update d patch = patch.entries.foldl (fun d e => d.set e.1 e.2) d := by
    intro d
    rw [update, Dict.ofList, List.foldl_append]
    exact congrArg (patch.entries.foldl _) (Dict.ofList_entries d)
  rw [hupdate (update d patch)]
  refine hfold patch.entries _ fun e he => ?_
  rw [get?_update, Dict.get?_eq_some.mpr he]
  rfl

/-- What a spec is once a change to it has been mirrored, where it can be. -/
def mirrored (fields : Dict String Json) (specs : Specs) (jobId : String) :
    Except String (Dict String Json) :=
  match specs.read jobId, specs.refused jobId with
  | .ok document, none => .ok (update document fields)
  | spec, _ => spec

theorem mirrorSpecFields_read (jobId : String) (fields : Dict String Json) (specs : Specs)
    (id : String) :
    (mirrorSpecFields jobId fields specs).1.read id =
      if id = jobId then mirrored fields specs jobId else specs.read id := by
  unfold mirrorSpecFields mirrored
  dsimp only
  cases hread : specs.read jobId with
  | error why =>
    by_cases hid : id = jobId
    · simp [hid, hread]
    · simp [hid]
  | ok document =>
    cases specs.refused jobId with
    | some why =>
      by_cases hid : id = jobId
      · simp [hid, hread]
      · simp [hid]
    | none => rfl

theorem mirrorSpecFields_refused (jobId : String) (fields : Dict String Json) (specs : Specs) :
    (mirrorSpecFields jobId fields specs).1.refused = specs.refused := by
  unfold mirrorSpecFields
  dsimp only
  cases specs.read jobId with
  | error why => rfl
  | ok document => cases specs.refused jobId <;> rfl

/-- What has been mirrored is mirrored again. -/
theorem mirrored_again (fields : Dict String Json) {specs specs' : Specs} {jobId : String}
    (hread : specs'.read jobId = mirrored fields specs jobId)
    (hrefused : specs'.refused jobId = specs.refused jobId) :
    mirrored fields specs' jobId = mirrored fields specs jobId := by
  unfold mirrored at hread ⊢
  rw [hread, hrefused]
  cases specs.read jobId with
  | error why => rfl
  | ok document =>
    cases specs.refused jobId with
    | some why => rfl
    | none => exact congrArg Except.ok (update_update document fields)

/-- **The spec of each job that a host carried out is mirrored, and no other.** -/
theorem mirrorAll_read (fields : Dict String Json) (jobs : List Done) (specs : Specs) (id : String) :
    (mirrorAll fields jobs specs).2.read id =
      if ∃ job ∈ jobs, job.jobId = id ∧ job.Carried then mirrored fields specs id else specs.read id := by
  induction jobs generalizing specs with
  | nil => simp [mirrorAll]
  | cons job rest ih =>
    unfold mirrorAll
    simp only [List.exists_mem_cons_iff]
    by_cases hcarried : job.Carried
    · rw [if_pos hcarried]
      dsimp only
      rw [ih, mirrorSpecFields_read]
      by_cases hid : id = job.jobId
      · subst hid
        have hagain := mirrored_again fields
          ((mirrorSpecFields_read job.jobId fields specs job.jobId).trans (if_pos rfl))
          (congrFun (mirrorSpecFields_refused job.jobId fields specs) job.jobId)
        rw [hagain, if_pos rfl, ite_self, if_pos (.inl ⟨rfl, hcarried⟩)]
      · have hother : mirrored fields (mirrorSpecFields job.jobId fields specs).1 id =
            mirrored fields specs id := by
          unfold mirrored
          rw [mirrorSpecFields_read, if_neg hid, mirrorSpecFields_refused]
        have hne : job.jobId ≠ id := fun h => hid h.symm
        simp only [hother, if_neg hid, hne, false_and, false_or]
    · rw [if_neg hcarried]
      dsimp only
      rw [ih]
      simp only [hcarried, and_false, false_or]

/-- Mirroring leaves every result but its warnings. -/
theorem mirrorAll_done (fields : Dict String Json) (jobs : List Done) (specs : Specs) :
    List.Forall₂ (fun job job' => ∃ warnings, job' = job.withWarnings warnings) jobs
      (mirrorAll fields jobs specs).1 := by
  induction jobs generalizing specs with
  | nil => exact .nil
  | cons job rest ih =>
    unfold mirrorAll
    by_cases hcarried : job.Carried
    · rw [if_pos hcarried]
      exact .cons ⟨_, rfl⟩ (ih _)
    · rw [if_neg hcarried]
      exact .cons ⟨job.warnings, rfl⟩ (ih _)

/-! ## A verb's outcome -/

section Outcome
variable {o : Outside} {verb : String} {endedIsAnswer : Bool} {fields : Dict String Json}
  {placed : Dict String Placed} {specs : Option Specs} {outcome : Outcome}

/-- A host has carried out the verb on a job, by its place and the host's document. -/
def Accepted (o : Outside) (placed : Dict String Placed) (jobId : String)
    (host : String) (entry : Dict String Json) : Prop :=
  ∃ place, placed.get? jobId = some place ∧ hostOf place = some host ∧
    carriedOut (o.reply host) jobId = some entry

/-- **What a verb comes to**: a result for each job in the order of the places, a session with each host
that answered, and the spec of each job that a host carried out mirrored, if anything is. -/
structure Ran (o : Outside) (verb : String) (endedIsAnswer : Bool) (fields : Dict String Json)
    (placed : Dict String Placed) (specs : Option Specs) (outcome : Outcome) : Prop where
  readable : o.Readable placed
  done : List.Forall₂ (fun jobId job => ∃ place warnings, placed.get? jobId = some place ∧
    job = (resultOf o verb endedIsAnswer jobId place).withWarnings warnings)
    placed.keys outcome.done
  sessions : ∀ host, host ∈ outcome.sessions ↔
    (∃ jobId place, placed.get? jobId = some place ∧ hostOf place = some host) ∧ answers o host = true
  specs_isSome : outcome.specs.isSome = specs.isSome
  specs : ∀ before after, specs = some before → outcome.specs = some after → ∀ jobId,
    (fields.entries ≠ [] → (∃ host entry, Accepted o placed jobId host entry) →
      after.read jobId = mirrored fields before jobId) ∧
    ((¬ ∃ host entry, Accepted o placed jobId host entry) → after.read jobId = before.read jobId)

theorem doneOf_ok {jobs : List Done} {jobId : String} {job : Done} (h : doneOf jobs jobId = .ok job) :
    job ∈ jobs ∧ job.jobId = jobId := by
  unfold doneOf at h
  cases hget : (Dict.ofList (jobs.map fun job => (job.jobId, job))).get? jobId with
  | none => rw [hget] at h; exact nomatch h
  | some job' =>
    rw [hget] at h
    obtain rfl := Except.ok.inj h
    obtain ⟨job'', hmem, heq⟩ := List.mem_map.mp (Dict.mem_of_get?_ofList hget)
    obtain ⟨rfl, rfl⟩ := Prod.mk.inj heq
    exact ⟨hmem, rfl⟩

theorem exists_doneOf {jobs : List Done} {job : Done} (h : job ∈ jobs) :
    ∃ job', doneOf jobs job.jobId = .ok job' := by
  have hin : job.jobId ∈ (Dict.ofList (jobs.map fun job => (job.jobId, job))).keys :=
    Dict.mem_keys_ofList.mpr (List.mem_map.mpr ⟨_, List.mem_map.mpr ⟨job, h, rfl⟩, rfl⟩)
  obtain ⟨job', hget⟩ := Dict.mem_keys.mp hin
  exact ⟨job', by rw [doneOf, hget]⟩

theorem mirrorIf_done (fields : Dict String Json) (specs : Option Specs) (done : List Done) :
    List.Forall₂ (fun job job' => ∃ warnings, job' = job.withWarnings warnings) done
      (mirrorIf fields specs done).1 := by
  have hsame : List.Forall₂ (fun job job' : Done => ∃ warnings, job' = job.withWarnings warnings)
      done done := List.forall₂_same.mpr fun job _ => ⟨job.warnings, rfl⟩
  unfold mirrorIf
  cases specs with
  | none => exact hsame
  | some specs =>
    by_cases hnil : fields.entries = []
    · simpa only [hnil, if_true] using hsame
    · simpa only [hnil, if_false] using mirrorAll_done fields done specs

theorem mirrorIf_specs {fields : Dict String Json} {before after : Specs} {done : List Done}
    (h : (mirrorIf fields (some before) done).2 = some after) (jobId : String) :
    (fields.entries ≠ [] → (∃ job ∈ done, job.jobId = jobId ∧ job.Carried) →
      after.read jobId = mirrored fields before jobId) ∧
    ((¬ ∃ job ∈ done, job.jobId = jobId ∧ job.Carried) → after.read jobId = before.read jobId) := by
  unfold mirrorIf at h
  by_cases hnil : fields.entries = []
  · simp only [hnil, if_true] at h
    obtain rfl := Option.some.inj h
    exact ⟨fun hne => absurd hnil hne, fun _ => rfl⟩
  · simp only [hnil, if_false] at h
    obtain rfl := Option.some.inj h
    have hread := mirrorAll_read fields done before jobId
    refine ⟨fun _ hcarried => ?_, fun hnone => ?_⟩
    · rw [hread, if_pos hcarried]
    · rw [hread, if_neg hnone]

/-- **A verb that comes to an end.** -/
theorem jobVerbs_ok (h : jobVerbs o verb fields endedIsAnswer placed specs = .ok outcome) :
    Ran o verb endedIsAnswer fields placed specs outcome := by
  obtain ⟨said', hsaid, h⟩ := bind_eq_ok h
  obtain ⟨done, hdone, h⟩ := bind_eq_ok h
  obtain rfl := Except.ok.inj h
  have hresults : ∀ job, job ∈ _ ↔ _ := fun job => mem_results hsaid
  have hreadable : o.Readable placed := by
    intro jobId place host hget hhost
    obtain ⟨jobIds, hgroup, -⟩ :=
      (@get?_onHost o verb endedIsAnswer placed host jobId).mpr ⟨place, hget, hhost⟩
    obtain ⟨verdicts', -, hverdicts⟩ := mem_mapM_eq_ok hsaid (Dict.get?_eq_some.mp hgroup)
    exact exists_verdicts.mp ⟨verdicts', hverdicts⟩
  have hspec : ∀ {jobId place}, placed.get? jobId = some place → _ :=
    fun {jobId place} hget => @resultOf_spec o verb endedIsAnswer jobId place
      fun host hhost => hreadable jobId place host hget hhost
  have hcarried : ∀ jobId, (∃ job ∈ byPlace o verb endedIsAnswer placed ++ said'.flatten,
      job.jobId = jobId ∧ job.Carried) ↔ ∃ host entry, Accepted o placed jobId host entry := by
    intro jobId
    constructor
    · rintro ⟨job, hmem, rfl, hyes⟩
      obtain ⟨id, place, hget, rfl⟩ := (hresults job).mp hmem
      obtain ⟨hid, hiff, -⟩ := hspec hget
      obtain ⟨host, entry, hhost, hentry⟩ := hiff.mp hyes
      rw [hid]
      exact ⟨host, entry, place, hget, hhost, hentry⟩
    · rintro ⟨host, entry, place, hget, hhost, hentry⟩
      obtain ⟨hid, hiff, -⟩ := hspec hget
      exact ⟨_, (hresults _).mpr ⟨jobId, place, hget, rfl⟩, hid, hiff.mpr ⟨host, entry, hhost, hentry⟩⟩
  refine ⟨hreadable, ?_, ?_, ?_, ?_⟩
  · refine (mapM_eq_ok hdone).imp fun jobId job hjob => ?_
    obtain ⟨hmem, hjobId⟩ := doneOf_ok hjob
    obtain ⟨before, hbefore, warnings, rfl⟩ := exists_left (mirrorIf_done fields specs _) hmem
    obtain ⟨id, place, hget, rfl⟩ := (hresults before).mp hbefore
    obtain ⟨hid, -, -⟩ := hspec hget
    obtain rfl : id = jobId := hid.symm.trans hjobId
    exact ⟨place, warnings, hget, rfl⟩
  · intro host
    rw [List.mem_filter, Dict.mem_keys]
    refine and_congr_left fun _ => ?_
    constructor
    · rintro ⟨jobIds, hgroup⟩
      obtain ⟨jobId, hin⟩ := Dict.exists_mem_of_grouped hgroup
      exact ⟨jobId, get?_onHost.mp ⟨jobIds, hgroup, hin⟩⟩
    · rintro ⟨jobId, place, hget, hhost⟩
      obtain ⟨jobIds, hgroup, -⟩ :=
        (@get?_onHost o verb endedIsAnswer placed host jobId).mpr ⟨place, hget, hhost⟩
      exact ⟨jobIds, hgroup⟩
  · cases specs with
    | none => rfl
    | some specs => by_cases hnil : fields.entries = [] <;> simp [hnil]
  · intro before after hbefore hafter jobId
    rw [hbefore] at hafter
    have hboth := mirrorIf_specs hafter jobId
    rwa [hcarried jobId] at hboth

/-- **A verb comes to an end** exactly when every host that is asked answers with jobs that can be gone
through, if it answers. -/
theorem exists_jobVerbs :
    (∃ outcome, jobVerbs o verb fields endedIsAnswer placed specs = .ok outcome) ↔ o.Readable placed := by
  refine ⟨fun ⟨outcome, h⟩ => (jobVerbs_ok h).readable, fun hreadable => ?_⟩
  obtain ⟨said', hsaid⟩ : ∃ said', (onHost o verb endedIsAnswer placed).entries.mapM
      (fun e => verdicts o verb e.1 e.2) = .ok said' := by
    refine exists_mapM_ok.mpr fun e he => exists_verdicts.mpr ?_
    have hgroup := Dict.get?_eq_some.mpr he
    obtain ⟨jobId, hin⟩ := Dict.exists_mem_of_grouped hgroup
    obtain ⟨place, hget, hhost⟩ := get?_onHost.mp ⟨e.2, hgroup, hin⟩
    exact hreadable jobId place e.1 hget hhost
  obtain ⟨done, hdone⟩ : ∃ done, placed.keys.mapM (doneOf
      (mirrorIf fields specs (byPlace o verb endedIsAnswer placed ++ said'.flatten)).1) = .ok done := by
    refine exists_mapM_ok.mpr fun jobId hin => ?_
    obtain ⟨place, hget⟩ := Dict.mem_keys.mp hin
    obtain ⟨job, hmem, warnings, rfl⟩ := exists_right (mirrorIf_done fields specs _)
      ((mem_results hsaid).mpr ⟨jobId, place, hget, rfl⟩)
    obtain ⟨hid, -, -⟩ := @resultOf_spec o verb endedIsAnswer jobId place
      fun host hhost => hreadable jobId place host hget hhost
    obtain ⟨job', hjob⟩ := exists_doneOf hmem
    exact ⟨job', hid ▸ hjob⟩
  exact exists_bind_ok.mpr ⟨said', hsaid, exists_bind_ok.mpr ⟨done, hdone, _, rfl⟩⟩

/-! ## What is promised -/

/-- **What a command on jobs promises**: one result for each id, in the order asked; none from a host
without an error unless that host's document says so; and no mirrored spec changed but a job's whose
result has no error. -/
structure Truthful (o : Outside) (ids : List String) (specs : Option Specs) (outcome : Outcome) : Prop where
  ids : outcome.done.map Done.jobId = ids
  fromHost : ∀ job ∈ outcome.done, job.source = .host → job.error = none →
    ∃ host, job.host = some host ∧ SaysDone (o.reply host) job.jobId
  mirror : ∀ before after, specs = some before → outcome.specs = some after → ∀ jobId,
    after.read jobId ≠ before.read jobId → ∃ job ∈ outcome.done, job.jobId = jobId ∧ job.error = none

section Ran
variable (h : Ran o verb endedIsAnswer fields placed specs outcome)
include h

theorem Ran.resultOf_spec {jobId : String} {place : Placed} (hget : placed.get? jobId = some place) :
    (resultOf o verb endedIsAnswer jobId place).jobId = jobId ∧
      ((resultOf o verb endedIsAnswer jobId place).Carried ↔
        ∃ host entry, hostOf place = some host ∧ carriedOut (o.reply host) jobId = some entry) ∧
      ∀ host entry, hostOf place = some host → carriedOut (o.reply host) jobId = some entry →
        (resultOf o verb endedIsAnswer jobId place).host = some host ∧
          (resultOf o verb endedIsAnswer jobId place).fields =
            (entry.erase "job_id").erase "warning" :=
  Verbs.resultOf_spec fun host hhost => h.readable jobId place host hget hhost

/-- Each result is its job's. -/
theorem Ran.result {job : Done} (hmem : job ∈ outcome.done) :
    ∃ jobId place warnings, placed.get? jobId = some place ∧ job.jobId = jobId ∧
      job = (resultOf o verb endedIsAnswer jobId place).withWarnings warnings := by
  obtain ⟨jobId, -, place, warnings, hget, rfl⟩ := exists_left h.done hmem
  exact ⟨jobId, place, warnings, hget, (h.resultOf_spec hget).1, rfl⟩

theorem Ran.exists_result {jobId : String} {place : Placed} (hget : placed.get? jobId = some place) :
    ∃ warnings,
      (resultOf o verb endedIsAnswer jobId place).withWarnings warnings ∈ outcome.done := by
  obtain ⟨job, hmem, place', warnings, hget', rfl⟩ :=
    exists_right h.done (Dict.mem_keys.mpr ⟨place, hget⟩)
  obtain rfl := Option.some.inj (hget.symm.trans hget')
  exact ⟨warnings, hmem⟩

theorem Ran.ids : outcome.done.map Done.jobId = placed.keys := by
  have hone : List.Forall₂ (fun jobId job => id jobId = job.jobId) placed.keys outcome.done := by
    refine h.done.imp ?_
    rintro jobId _ ⟨place, warnings, hget, rfl⟩
    exact (h.resultOf_spec hget).1.symm
  rw [← map_eq_map hone, List.map_id]

/-- **A result from a host without an error is one that the host carried out.** -/
theorem Ran.accepted {job : Done} (hmem : job ∈ outcome.done) (hcarried : job.Carried) :
    ∃ host entry, Accepted o placed job.jobId host entry ∧ job.host = some host ∧
      job.fields = (entry.erase "job_id").erase "warning" := by
  obtain ⟨jobId, place, warnings, hget, hid, rfl⟩ := h.result hmem
  obtain ⟨-, hiff, hfields⟩ := h.resultOf_spec hget
  obtain ⟨host, entry, hhost, hentry⟩ := hiff.mp hcarried
  obtain ⟨hsaid, hsame⟩ := hfields host entry hhost hentry
  refine ⟨host, entry, ?_, hsaid, hsame⟩
  rw [hid]
  exact ⟨place, hget, hhost, hentry⟩

/-- **What a host carried out has a result of that host, without an error.** -/
theorem Ran.of_accepted {jobId host : String} {entry : Dict String Json}
    (haccepted : Accepted o placed jobId host entry) :
    ∃ job ∈ outcome.done, job.jobId = jobId ∧ job.Carried ∧ job.host = some host ∧
      job.fields = (entry.erase "job_id").erase "warning" := by
  obtain ⟨place, hget, hhost, hentry⟩ := haccepted
  obtain ⟨hid, hiff, hfields⟩ := h.resultOf_spec hget
  obtain ⟨warnings, hmem⟩ := h.exists_result hget
  obtain ⟨hsaid, hsame⟩ := hfields host entry hhost hentry
  exact ⟨_, hmem, hid, hiff.mpr ⟨host, entry, hhost, hentry⟩, hsaid, hsame⟩

/-- **A verb is truthful.** -/
theorem Ran.truthful : Truthful o placed.keys specs outcome := by
  refine ⟨h.ids, fun job hmem hsource herror => ?_, fun before after hbefore hafter jobId hne => ?_⟩
  · obtain ⟨host, entry, ⟨place, -, -, hentry⟩, hhost, -⟩ := h.accepted hmem ⟨herror, hsource⟩
    exact ⟨host, hhost, saysDone_of_carriedOut hentry⟩
  · have hsame := (h.specs before after hbefore hafter jobId).2
    obtain ⟨host, entry, haccepted⟩ := by_contra fun hnone => hne (hsame hnone)
    obtain ⟨job, hmem, hid, hcarried, -⟩ := h.of_accepted haccepted
    exact ⟨job, hmem, hid, hcarried.1⟩

end Ran

end Outcome

/-! ## `set` -/

section Set
variable {o : Outside} {t : Texts} {formats : Formats} {now : Nat} {patch : Dict String Json}
  {placed : Dict String Placed} {specs : Option Specs} {outcome : Outcome}

/-- A result, checked against the patch and given its place: an error where a field is not confirmed. -/
def Checked (patch : Dict String Json) (job after : Done) : Prop :=
  after.jobId = job.jobId ∧ after.host = job.host ∧ after.source = job.source ∧
    (after.error = none ↔ job.error = none ∧ unsaid patch job.fields = [])

theorem confirm_checked (o : Outside) (patch : Dict String Json) (job : Done) :
    Checked patch job (confirm o patch job) := by
  unfold confirm Checked
  cases herror : job.error with
  | some error => simp [herror]
  | none =>
    rw [if_neg (by simp)]
    dsimp only
    by_cases hmissed : unsaid patch job.fields = []
    · rw [if_pos hmissed]
      simp [herror, hmissed]
    · rw [if_neg hmissed]
      simp [hmissed]

/-- Giving a job its place in the queue leaves what was said of it. -/
theorem replace_ok {sessions : List String} {job after : Done} (h : replace o sessions job = .ok after) :
    after.jobId = job.jobId ∧ after.host = job.host ∧ after.source = job.source ∧
      after.error = job.error := by
  unfold replace at h
  split at h
  · split at h
    · obtain ⟨placement, -, rfl⟩ := map_eq_ok h
      exact ⟨rfl, rfl, rfl, rfl⟩
    · obtain rfl := Except.ok.inj h
      exact ⟨rfl, rfl, rfl, rfl⟩
  · obtain rfl := Except.ok.inj h
    exact ⟨rfl, rfl, rfl, rfl⟩

theorem exists_replace {sessions : List String} {job : Done} :
    (∃ after, replace o sessions job = .ok after) ↔
      ∀ host ∈ sessions, job.error = none → job.host = some host →
        ∃ placement, o.placement host job.jobId = .ok placement := by
  unfold replace
  cases herror : job.error with
  | some error => simp
  | none =>
    cases hhost : job.host with
    | none => simp
    | some host =>
      dsimp only
      by_cases hin : host ∈ sessions
      · rw [if_pos hin]
        cases hplacement : o.placement host job.jobId with
        | error failure => simp [Except.map, hin, hplacement]
        | ok placement =>
          simp only [Except.map, Except.ok.injEq, exists_eq', Option.some.injEq, true_iff]
          rintro other - - rfl
          exact ⟨placement, hplacement⟩
      · rw [if_neg hin]
        simp only [Except.ok.injEq, exists_eq', Option.some.injEq, true_iff]
        rintro other hother - rfl
        exact absurd hother hin

/-- The results of a verb that `set` goes on to check, each with its place where one is asked for. -/
def settled (o : Outside) (patch : Dict String Json) (before : Outcome) : Except Failure (List Done) :=
  if "priority" ∈ patch.keys then (before.done.map (confirm o patch)).mapM (replace o before.sessions)
  else .ok (before.done.map (confirm o patch))

theorem settled_ok {before : Outcome} {done : List Done} (h : settled o patch before = .ok done) :
    List.Forall₂ (Checked patch) before.done done := by
  have hconfirmed : List.Forall₂ (Checked patch) before.done (before.done.map (confirm o patch)) :=
    List.forall₂_map_right_iff.mpr (List.forall₂_same.mpr fun job _ => confirm_checked o patch job)
  unfold settled at h
  split at h
  · refine (List.forall₂_map_left_iff.mp (mapM_eq_ok h)).imp fun job after hafter => ?_
    obtain ⟨hid, hhost, hsource, herror⟩ := replace_ok hafter
    obtain ⟨hid', hhost', hsource', herror'⟩ := confirm_checked o patch job
    exact ⟨hid.trans hid', hhost.trans hhost', hsource.trans hsource', by rw [herror, herror']⟩
  · obtain rfl := Except.ok.inj h
    exact hconfirmed

theorem exists_settled {before : Outcome} :
    (∃ done, settled o patch before = .ok done) ↔
      ("priority" ∈ patch.keys → ∀ job ∈ before.done.map (confirm o patch),
        ∃ after, replace o before.sessions job = .ok after) := by
  unfold settled
  by_cases hin : "priority" ∈ patch.keys
  · rw [if_pos hin, exists_mapM_ok]
    exact ⟨fun h _ => h, fun h => h hin⟩
  · rw [if_neg hin]
    exact ⟨fun _ hin' => absurd hin' hin, fun _ => ⟨_, rfl⟩⟩

/-- **`set_jobs` goes through `job_verbs`, and then checks each result.** -/
theorem setJobs_eq : setJobs o t formats now patch placed specs =
    checkPatch t formats now patch >>= fun _ =>
      (jobVerbs o "set" patch false placed specs).mapError Stopped.failed >>= fun before =>
        (settled o patch before).mapError Stopped.failed >>= fun done =>
          .ok { before with done } := by
  unfold setJobs settled
  refine bind_congr fun _ => bind_congr fun before => ?_
  by_cases hin : "priority" ∈ patch.keys <;>
    simp [hin, Except.mapError, bind, Except.bind, pure, Except.pure]

/-- The host's entry for a job names every field of the patch as it was set. -/
def Confirmed (patch entry : Dict String Json) : Prop :=
  unsaid patch ((entry.erase "job_id").erase "warning") = []

/-- **The follow-up on the queue raises nothing**, where it is asked for. -/
def Outside.Queued (o : Outside) (patch : Dict String Json) (placed : Dict String Placed) : Prop :=
  "priority" ∈ patch.keys → ∀ jobId host entry, Accepted o placed jobId host entry →
    Confirmed patch entry → ∃ placement, o.placement host jobId = .ok placement

/-- **What a host carried out it confirms**, or the mirrored spec would be as it was. -/
def Outside.Confirming (o : Outside) (patch : Dict String Json) (placed : Dict String Placed)
    (specs : Option Specs) : Prop :=
  ∀ before, specs = some before → ∀ jobId host entry, Accepted o placed jobId host entry →
    Confirmed patch entry ∨ mirrored patch before jobId = before.read jobId

/-- A job is carried out on one host, with one entry. -/
theorem Accepted.unique {jobId host host' : String} {entry entry' : Dict String Json}
    (h : Accepted o placed jobId host entry) (h' : Accepted o placed jobId host' entry') :
    host' = host ∧ entry' = entry := by
  obtain ⟨place, hget, hhost, hentry⟩ := h
  obtain ⟨place', hget', hhost', hentry'⟩ := h'
  obtain rfl := Option.some.inj (hget.symm.trans hget')
  obtain rfl := Option.some.inj (hhost.symm.trans hhost')
  exact ⟨rfl, (Option.some.inj (hentry.symm.trans hentry')).symm⟩

/-- A host that carried something out has answered. -/
theorem Accepted.answers {jobId host : String} {entry : Dict String Json}
    (h : Accepted o placed jobId host entry) : answers o host = true := by
  obtain ⟨place, -, -, hentry⟩ := h
  unfold Verbs.answers
  cases hreply : o.reply host with
  | answered payload => rfl
  | unaskable reason => rw [hreply] at hentry; exact nomatch hentry
  | gone reason => rw [hreply] at hentry; exact nomatch hentry

section Before
variable {before : Outcome} (h : Ran o "set" false patch placed specs before)
include h

/-- A result of `set` without an error is its host's. -/
theorem Ran.carried {job : Done} (hmem : job ∈ before.done) (herror : job.error = none) :
    job.Carried := by
  obtain ⟨jobId, place, warnings, hget, -, rfl⟩ := h.result hmem
  exact ⟨herror, source_of_error (fun host hhost => h.readable jobId place host hget hhost) herror⟩

/-- **What `set` goes on to find without an error is what was carried out and is confirmed.** -/
theorem Ran.confirmed {job after : Done} (hmem : job ∈ before.done) (hcheck : Checked patch job after)
    (herror : after.error = none) :
    ∃ host entry, Accepted o placed job.jobId host entry ∧ job.host = some host ∧
      Confirmed patch entry := by
  obtain ⟨herror', hunsaid⟩ := hcheck.2.2.2.mp herror
  obtain ⟨host, entry, haccepted, hhost, hfields⟩ := h.accepted hmem (h.carried hmem herror')
  exact ⟨host, entry, haccepted, hhost, show unsaid _ _ = [] from hfields ▸ hunsaid⟩

theorem Ran.of_confirmed {jobId host : String} {entry : Dict String Json}
    (haccepted : Accepted o placed jobId host entry) (hconfirmed : Confirmed patch entry) :
    ∃ job ∈ before.done, job.jobId = jobId ∧ job.host = some host ∧
      ∀ after, Checked patch job after → after.error = none := by
  obtain ⟨job, hmem, hid, hcarried, hhost, hfields⟩ := h.of_accepted haccepted
  refine ⟨job, hmem, hid, hhost, fun after hcheck => hcheck.2.2.2.mpr ⟨hcarried.1, ?_⟩⟩
  rw [hfields]
  exact hconfirmed

/-- **The checks of `set` come to an end** as long as the follow-up raises nothing. -/
theorem Ran.exists_settled :
    (∃ done, settled o patch before = .ok done) ↔ o.Queued patch placed := by
  rw [Verbs.exists_settled]
  refine forall_congr' fun _ => ⟨fun hall jobId host entry haccepted hconfirmed => ?_, ?_⟩
  · obtain ⟨job, hmem, rfl, hhost, hnone⟩ := h.of_confirmed haccepted hconfirmed
    have hcheck := confirm_checked o patch job
    have hsession : host ∈ before.sessions :=
      (h.sessions host).mpr ⟨⟨job.jobId, haccepted.imp fun _ hplace => ⟨hplace.1, hplace.2.1⟩⟩,
        haccepted.answers⟩
    have hplaced := exists_replace.mp (hall _ (List.mem_map_of_mem hmem)) host hsession
      (hnone _ hcheck) (hcheck.2.1.trans hhost)
    rwa [hcheck.1] at hplaced
  · intro hqueued job' hmem'
    obtain ⟨job, hmem, rfl⟩ := List.mem_map.mp hmem'
    have hcheck := confirm_checked o patch job
    refine exists_replace.mpr fun host hsession herror hhost => ?_
    obtain ⟨host', entry, haccepted, hhost', hconfirmed⟩ := h.confirmed hmem hcheck herror
    obtain rfl : host' = host := Option.some.inj ((hhost'.symm.trans hcheck.2.1.symm).trans hhost)
    rw [hcheck.1]
    exact hqueued job.jobId host' entry haccepted hconfirmed

/-- **`set` is truthful** exactly when what was carried out is confirmed or its mirrored spec stays. -/
theorem Ran.truthful_settled {done : List Done} (hdone : settled o patch before = .ok done)
    (hpatch : patch.entries ≠ []) :
    Truthful o placed.keys specs { before with done } ↔ o.Confirming patch placed specs := by
  have hchecked := settled_ok hdone
  constructor
  · intro htrue specs₀ hspecs jobId host entry haccepted
    obtain ⟨after, hafter⟩ : ∃ after, before.specs = some after :=
      Option.isSome_iff_exists.mp (h.specs_isSome.trans (by rw [hspecs]; rfl))
    have hread := (h.specs specs₀ after hspecs hafter jobId).1 hpatch ⟨host, entry, haccepted⟩
    by_cases hsame : mirrored patch specs₀ jobId = specs₀.read jobId
    · exact .inr hsame
    · obtain ⟨job', hmem', hid', herror'⟩ := htrue.mirror specs₀ after hspecs hafter jobId
        (hread ▸ hsame)
      obtain ⟨job, hmem, hcheck⟩ := exists_left hchecked hmem'
      obtain ⟨host', entry', haccepted', -, hconfirmed⟩ := h.confirmed hmem hcheck herror'
      have hid : job.jobId = jobId := hcheck.1.symm.trans hid'
      obtain ⟨-, rfl⟩ := haccepted.unique (hid ▸ haccepted')
      exact .inl hconfirmed
  · intro hconfirming
    have htrue := h.truthful
    refine ⟨?_, fun job' hmem' hsource herror => ?_, fun specs₀ after hspecs hafter jobId hne => ?_⟩
    · have hsame : List.Forall₂ (fun job job' : Done => job.jobId = job'.jobId) before.done done :=
        hchecked.imp fun _ _ hcheck => hcheck.1.symm
      exact (map_eq_map hsame).symm.trans htrue.ids
    · obtain ⟨job, hmem, hcheck⟩ := exists_left hchecked hmem'
      obtain ⟨host, hhost, hsays⟩ := htrue.fromHost job hmem (hcheck.2.2.1.symm.trans hsource)
        (hcheck.2.2.2.mp herror).1
      exact ⟨host, hcheck.2.1.trans hhost, hcheck.1.symm ▸ hsays⟩
    · have hread := h.specs specs₀ after hspecs hafter jobId
      obtain ⟨host, entry, haccepted⟩ := by_contra fun hnone => hne (hread.2 hnone)
      have hwritten := hread.1 hpatch ⟨host, entry, haccepted⟩
      rcases hconfirming specs₀ hspecs jobId host entry haccepted with hconfirmed | hstays
      · obtain ⟨job, hmem, hid, -, hnone⟩ := h.of_confirmed haccepted hconfirmed
        obtain ⟨job', hmem', hcheck⟩ := exists_right hchecked hmem
        exact ⟨job', hmem', hcheck.1.trans hid, hnone job' hcheck⟩
      · exact absurd (hwritten.trans hstays) hne

end Before

end Set

/-! ## The commands -/

/-- **What a command on jobs keeps to**: its results are truthful. A usage error is no result: nobody has
been asked, and nothing is mirrored. -/
def Promised (o : Outside) (ids : List String) (specs : Option Specs) : Except Stopped Outcome → Prop
  | .ok outcome => Truthful o ids specs outcome
  | .error (.usage _) => True
  | .error _ => False

section Commands
variable {o : Outside} {t : Texts} {formats : Formats} {now : Nat} {placed : Dict String Placed}
  {specs : Option Specs}

theorem jobVerbs_truthful {verb : String} {endedIsAnswer : Bool} {fields : Dict String Json} :
    (∃ outcome, jobVerbs o verb fields endedIsAnswer placed specs = .ok outcome ∧
        Truthful o placed.keys specs outcome) ↔ o.Readable placed := by
  rw [← @exists_jobVerbs o verb endedIsAnswer fields placed specs]
  exact exists_congr fun outcome => and_iff_left_of_imp fun h => (jobVerbs_ok h).truthful

/-- What `job_verbs` comes to, as what a command comes to. -/
theorem promised_jobVerbs {verb : String} {fields : Dict String Json} :
    Promised o placed.keys specs
        ((jobVerbs o verb fields false placed specs).mapError Stopped.failed) ↔ o.Readable placed := by
  rw [← @jobVerbs_truthful o placed specs verb false fields]
  cases jobVerbs o verb fields false placed specs with
  | error failure => exact ⟨False.elim, fun ⟨_, h, _⟩ => nomatch h⟩
  | ok outcome =>
    exact ⟨fun h => ⟨outcome, rfl, h⟩, fun ⟨_, hok, h⟩ => Except.ok.inj hok ▸ h⟩

/-- A command that checks its patch first. -/
theorem promised_checkPatch {patch : Dict String Json} {ids : List String}
    {command : Except Stopped Outcome} :
    Promised o ids specs (checkPatch t formats now patch >>= fun _ => command) ↔
      (∃ error, patchError t formats now patch = .ok (some error)) ∨
      patchError t formats now patch = .ok none ∧ Promised o ids specs command := by
  unfold checkPatch
  cases hpatch : patchError t formats now patch with
  | error raised => simp [Promised, bind, Except.bind]
  | ok error => cases error <;> simp [Promised, bind, Except.bind]

theorem promised_preemptJobs (priority : Option Int) :
    Promised o placed.keys specs (preemptJobs o t formats now priority placed specs) ↔
      (∃ n error, priority = some n ∧
        patchError t formats now (.ofList [("priority", .int n)]) = .ok (some error)) ∨
      (∀ n, priority = some n →
        patchError t formats now (.ofList [("priority", .int n)]) = .ok none) ∧ o.Readable placed := by
  cases priority with
  | none =>
    refine promised_jobVerbs.trans ⟨fun h => .inr ⟨fun _ h => (nomatch h), h⟩, ?_⟩
    rintro (⟨n, error, h, -⟩ | ⟨-, h⟩)
    · exact nomatch h
    · exact h
  | some n =>
    have heq : preemptJobs o t formats now (some n) placed specs =
        checkPatch t formats now (.ofList [("priority", .int n)]) >>= fun _ =>
          (jobVerbs o "preempt" (.ofList [("priority", .int n)]) false placed specs).mapError
            Stopped.failed := rfl
    rw [heq, promised_checkPatch, promised_jobVerbs]
    simp only [Option.some.injEq, exists_and_left, exists_eq_left', forall_eq']

theorem promised_setJobs (patch : Dict String Json) :
    Promised o placed.keys specs (setJobs o t formats now patch placed specs) ↔
      (∃ error, patchError t formats now patch = .ok (some error)) ∨
      patchError t formats now patch = .ok none ∧ o.Readable placed ∧ o.Queued patch placed ∧
        o.Confirming patch placed specs := by
  rw [setJobs_eq, promised_checkPatch]
  refine or_congr_right (and_congr_right fun hnone => ?_)
  have hpatch : patch.entries ≠ [] := by
    intro hnil
    rw [patchError, if_pos hnil] at hnone
    exact nomatch hnone
  constructor
  · intro hpromised
    cases hbefore : jobVerbs o "set" patch false placed specs with
    | error failure => rw [hbefore] at hpromised; exact False.elim hpromised
    | ok before =>
      have hran := jobVerbs_ok hbefore
      cases hdone : settled o patch before with
      | error failure =>
        rw [hbefore] at hpromised
        change Promised o placed.keys specs ((settled o patch before).mapError Stopped.failed >>= _)
          at hpromised
        rw [hdone] at hpromised
        exact False.elim hpromised
      | ok done =>
        rw [hbefore] at hpromised
        change Promised o placed.keys specs ((settled o patch before).mapError Stopped.failed >>= _)
          at hpromised
        rw [hdone] at hpromised
        exact ⟨hran.readable, hran.exists_settled.mp ⟨done, hdone⟩,
          (hran.truthful_settled hdone hpatch).mp hpromised⟩
  · rintro ⟨hreadable, hqueued, hconfirming⟩
    obtain ⟨before, hbefore⟩ := exists_jobVerbs.mpr hreadable
    have hran := jobVerbs_ok hbefore
    obtain ⟨done, hdone⟩ := hran.exists_settled.mpr hqueued
    rw [hbefore]
    show Promised o placed.keys specs ((settled o patch before).mapError Stopped.failed >>= _)
    rw [hdone]
    exact (hran.truthful_settled hdone hpatch).mpr hconfirming

end Commands

/-- **A verb on jobs is truthful** as far as the jobs of each answer can be gone through. `set` is so only
where what a host carries out it confirms as well, or nothing changes in the job's mirrored spec, and where
the follow-up on the queue raises nothing. -/
theorem job_verbs_truthful_iff {w : Locate.World} {t : Texts} {formats : Formats} {now : Nat}
    {jobIds : List String} {host : Option String} {placed : Dict String Placed} {asks : List Question}
    (h : locateMany w t jobIds host = .ok (placed, asks)) (o : Outside) (specs : Option Specs) :
    (∀ verb mirror endedIsAnswer,
      (∃ outcome, jobVerbs o verb mirror endedIsAnswer placed specs = .ok outcome ∧
          Truthful o jobIds.eraseDups specs outcome) ↔ o.Readable placed) ∧
    (∀ priority, Promised o jobIds.eraseDups specs (preemptJobs o t formats now priority placed specs) ↔
      (∃ n error, priority = some n ∧
        patchError t formats now (.ofList [("priority", .int n)]) = .ok (some error)) ∨
      (∀ n, priority = some n →
        patchError t formats now (.ofList [("priority", .int n)]) = .ok none) ∧ o.Readable placed) ∧
    (∀ patch, Promised o jobIds.eraseDups specs (setJobs o t formats now patch placed specs) ↔
      (∃ error, patchError t formats now patch = .ok (some error)) ∨
      patchError t formats now patch = .ok none ∧ o.Readable placed ∧ o.Queued patch placed ∧
        o.Confirming patch placed specs) := by
  rw [← locateMany_keys h]
  exact ⟨fun _ _ _ => jobVerbs_truthful, promised_preemptJobs, promised_setJobs⟩

/-! ### A host that accepts a change and does not name it -/

/-- A registered host, on which the local index has every job. -/
def onBox : Locate.World where
  registry := { hosts := .ofList [("box", { name := "box" })] }
  skipped := []
  localIndex jobId := some { jobId, host := "box" }
  mirrorIndex _ := none
  answer _ _ := .unaskable "not asked"

/-- Every host answers with one job, which is queued and has these fields. -/
def queuedWith (fields : List (String × Json)) : Outside where
  text _ := ""
  dumps _ := ""
  reply _ := .answered (.ofList [("jobs", .arr
    [.obj (("job_id", .str "job") :: ("status", .str "queued") :: fields)])])
  mirror _ := .unmirrored "no bucket is configured"
  placement _ _ := .ok Dict.empty

/-- Specs that can be read and written, and hold nothing. -/
def emptySpecs : Specs := { read := fun _ => .ok Dict.empty, refused := fun _ => none }

/-- The priority to set. -/
def priority5 : Dict String Json := .ofList [("priority", .int 5)]

theorem priority5_accepted : patchError plainTexts plainFormats 0 priority5 = .ok none := by
  decide +kernel

/-- The job's place. -/
def placedOnBox : Dict String Placed :=
  .ofList [("job", .location
    { host := "box", entry := some { name := "box" }, index := some { jobId := "job", host := "box" } })]

theorem accepted_iff {fields : List (String × Json)} {jobId host : String} {entry : Dict String Json} :
    Accepted (queuedWith fields) placedOnBox jobId host entry ↔
      jobId = "job" ∧ host = "box" ∧ carriedOut ((queuedWith fields).reply "box") "job" = some entry := by
  constructor
  · rintro ⟨place, hget, hhost, hentry⟩
    have hmem := Dict.mem_of_get?_ofList hget
    obtain ⟨rfl, rfl⟩ := Prod.mk.inj (List.mem_singleton.mp hmem)
    obtain rfl := Option.some.inj hhost
    exact ⟨rfl, rfl, hentry⟩
  · rintro ⟨rfl, rfl, hentry⟩
    exact ⟨_, rfl, rfl, hentry⟩

theorem set_truthful_confirmed :
    ∃ placed asks, locateMany onBox plainTexts ["job", "job"] none = .ok (placed, asks) ∧
      Promised (queuedWith [("priority", .int 5)]) ["job"] (some emptySpecs)
        (setJobs (queuedWith [("priority", .int 5)]) plainTexts plainFormats 0 priority5 placed
          (some emptySpecs)) := by
  have hlocate : locateMany onBox plainTexts ["job", "job"] none = .ok (placedOnBox, []) := rfl
  refine ⟨placedOnBox, [], hlocate, ?_⟩
  obtain ⟨-, -, hset⟩ := @job_verbs_truthful_iff _ _ plainFormats 0 _ _ _ _ hlocate
    (queuedWith [("priority", .int 5)]) (some emptySpecs)
  refine (hset priority5).mpr (.inr ⟨priority5_accepted, fun _ _ _ _ _ => ⟨_, rfl⟩,
    fun _ _ _ _ _ _ => ⟨_, rfl⟩, fun _ _ jobId host entry haccepted => .inl ?_⟩)
  obtain ⟨-, -, hentry⟩ := accepted_iff.mp haccepted
  obtain rfl := Option.some.inj hentry
  show unsaid _ _ = []
  decide +kernel

/-- **The priority is mirrored, and the result is that it was not set.** -/
theorem mirrored_unconfirmed :
    ∃ placed asks outcome, locateMany onBox plainTexts ["job"] none = .ok (placed, asks) ∧
      setJobs (queuedWith []) plainTexts plainFormats 0 priority5 placed (some emptySpecs) = .ok outcome ∧
      (∀ job ∈ outcome.done, job.error ≠ none) ∧
      (∃ after, outcome.specs = some after ∧ after.read "job" = .ok priority5) ∧
      ¬ Truthful (queuedWith []) ["job"] (some emptySpecs) outcome := by
  have hcheck : checkPatch plainTexts plainFormats 0 priority5 = .ok () := by
    rw [checkPatch, priority5_accepted]
  have hset : ∃ outcome, setJobs (queuedWith []) plainTexts plainFormats 0 priority5 placedOnBox
      (some emptySpecs) = .ok outcome ∧ outcome.done.all (fun job => job.error.isSome) = true ∧
      ∃ after, outcome.specs = some after ∧ after.read "job" = .ok priority5 := by
    rw [setJobs_eq, hcheck]
    exact ⟨_, rfl, by decide +kernel, _, rfl, rfl⟩
  obtain ⟨outcome, hset, herrors, after, hafter, hread⟩ := hset
  have herror : ∀ job ∈ outcome.done, job.error ≠ none := fun job hmem =>
    Option.isSome_iff_ne_none.mp (List.all_eq_true.mp herrors job hmem)
  refine ⟨placedOnBox, [], outcome, rfl, hset, herror, ⟨after, hafter, hread⟩, fun htrue => ?_⟩
  have hne : after.read "job" ≠ emptySpecs.read "job" := by
    rw [hread]
    intro hsame
    exact absurd (congrArg Dict.keys (Except.ok.inj hsame)) (by decide)
  obtain ⟨job, hmem, -, hnone⟩ := htrue.mirror emptySpecs after rfl hafter "job" hne
  exact herror job hmem hnone

end Gpuc.Control.Verbs
