import Gpuc.Basis.Fallible
import Gpuc.Control.Locate

/-!
# No job is missing that was not asked for

What a round leaves is `Leaves`, from one host to the next (`askOne_leaves`): its questions in order,
and every job found that an answer names. Which ids a host is asked about in a round is
`World.asked`, of what is known and of the first round's answers alone, and `Rounds` is what both rounds
come to. So an id comes out missing only when each registered host is gone or was asked about it
(`Rounds.cleared`). A host whose entry could not be read is not among them: an id that nobody has word of
is reported missing without it.
-/

set_option autoImplicit false

namespace Gpuc.Control.Locate

open Gpuc.Basis

variable {w : World}

/-! ## What an answer names -/

/-- An answer can be gone through for its jobs. -/
def Asked.Readable (asked : Asked) : Prop := ∃ jobs, asked.jobs = .ok jobs

/-- Does an answer name a job? -/
def Asked.names (asked : Asked) (jobId : String) : Bool :=
  match asked.jobs with
  | .ok jobs => jobs.any fun job => idOf job = some jobId
  | .error _ => false

theorem Asked.names_of_jobs {asked : Asked} {jobs : List Json} (h : asked.jobs = .ok jobs)
    (jobId : String) : asked.names jobId = true ↔ ∃ job ∈ jobs, idOf job = some jobId := by
  rw [names, h]
  simp

/-- What names a job is an answer. -/
theorem Asked.answered_of_names {asked : Asked} {jobId : String} (h : asked.names jobId = true) :
    ∃ payload, asked = .answered payload := by
  cases asked with
  | answered payload => exact ⟨payload, rfl⟩
  | unaskable reason => exact absurd h (by simp [names, jobs])
  | gone reason => exact absurd h (by simp [names, jobs])

/-! ## One round -/

/-- **What is found in an answer**: what was found before, and what it names of what was asked. -/
theorem get?_findJobs {name : String} {asked : Asked} {jobIds : List String} (jobs : List Json)
    (found : Dict String (String × Asked)) (jobId : String) :
    (findJobs name asked jobIds jobs found).get? jobId =
      (found.get? jobId).or
        (if jobId ∈ jobIds ∧ ∃ job ∈ jobs, idOf job = some jobId then some (name, asked) else none) := by
  induction jobs generalizing found with
  | nil => simp [findJobs]
  | cons job jobs ih =>
    rw [findJobs, List.foldl_cons, ← findJobs, ih]
    cases hid : idOf job with
    | none => simp [hid]
    | some id =>
      dsimp only
      by_cases hasked : id ∈ jobIds
      · rw [if_pos hasked, Dict.get?_setDefault]
        by_cases hsame : jobId = id
        · subst hsame
          cases hget : found.get? jobId <;> simp [hid, hasked]
        · have hne : id ≠ jobId := fun h => hsame h.symm
          simp [hsame, hid, hne]
      · rw [if_neg hasked]
        by_cases hsame : jobId = id
        · subst hsame
          simp [hasked]
        · have hne : id ≠ jobId := fun h => hsame h.symm
          simp [hid, hne]

/-- **What the questions of a round leave.** -/
structure Leaves (w : World) (round : Round) (questions : List (String × List String))
    (before after : Heard) : Prop where
  asks : after.asks = before.asks ++ questions.map fun e => { round, host := e.1, jobIds := e.2 }
  latest : ∀ name, after.latest.get? name =
    if name ∈ questions.map Prod.fst then some (w.answer round name) else before.latest.get? name
  first : ∀ name, after.first.get? name = (before.first.get? name).or
    (if name ∈ questions.map Prod.fst then some (w.answer round name) else none)
  /-- What is found has its host and that host's answer. -/
  found : ∀ jobId name asked, after.found.get? jobId = some (name, asked) →
    before.found.get? jobId = some (name, asked) ∨
      asked = w.answer round name ∧ asked.names jobId = true ∧
        ∃ jobIds, (name, jobIds) ∈ questions ∧ jobId ∈ jobIds
  mem_found : ∀ jobId, jobId ∈ after.found.keys ↔ jobId ∈ before.found.keys ∨
    ∃ e ∈ questions, jobId ∈ e.2 ∧ (w.answer round e.1).names jobId = true

theorem Leaves.refl (w : World) (round : Round) (heard : Heard) : Leaves w round [] heard heard where
  asks := by simp
  latest _ := by simp
  first _ := by simp
  found _ _ _ h := .inl h
  mem_found _ := by simp

theorem Leaves.trans {round : Round} {some' more : List (String × List String)}
    {before between after : Heard} (h : Leaves w round some' before between)
    (h' : Leaves w round more between after) : Leaves w round (some' ++ more) before after where
  asks := by rw [h'.asks, h.asks, List.map_append, List.append_assoc]
  latest name := by
    rw [h'.latest, h.latest, List.map_append]
    by_cases hmore : name ∈ more.map Prod.fst <;> by_cases hsome : name ∈ some'.map Prod.fst <;>
      simp [hmore, hsome]
  first name := by
    rw [h'.first, h.first, Option.or_assoc, List.map_append]
    by_cases hmore : name ∈ more.map Prod.fst <;> by_cases hsome : name ∈ some'.map Prod.fst <;>
      simp [hmore, hsome]
  found jobId name asked hfound := by
    rcases h'.found jobId name asked hfound with hbetween | ⟨hasked, hnames, jobIds, hmem, hin⟩
    · rcases h.found jobId name asked hbetween with hbefore | ⟨hasked, hnames, jobIds, hmem, hin⟩
      · exact .inl hbefore
      · exact .inr ⟨hasked, hnames, jobIds, List.mem_append_left _ hmem, hin⟩
    · exact .inr ⟨hasked, hnames, jobIds, List.mem_append_right _ hmem, hin⟩
  mem_found jobId := by
    rw [h'.mem_found, h.mem_found]
    simp only [List.mem_append, or_and_right, exists_or, or_assoc]

/-- One host of a round. -/
theorem askOne_leaves {round : Round} {heard after : Heard} {question : String × List String}
    (h : askOne w round heard question = .ok after) : Leaves w round [question] heard after := by
  unfold askOne at h
  cases hentry : w.registry.hosts.get? question.1 with
  | none => rw [hentry] at h; exact nomatch h
  | some entry =>
    rw [hentry] at h
    obtain ⟨jobs, hjobs, rfl⟩ := map_eq_ok h
    have hnames := Asked.names_of_jobs hjobs
    constructor
    case asks => rfl
    case latest => intro name; by_cases hname : name = question.1 <;> simp [hname]
    case first => intro name; by_cases hname : name = question.1 <;> simp [hname]
    case found =>
      intro jobId name asked hfound
      rw [get?_findJobs] at hfound
      rcases Option.or_eq_some_iff.mp hfound with hbefore | ⟨-, hnew⟩
      · exact .inl hbefore
      · obtain ⟨⟨hin, hjob⟩, heq⟩ := Option.ite_none_right_eq_some.mp hnew
        obtain ⟨rfl, rfl⟩ := Prod.mk.inj (Option.some.inj heq)
        exact .inr ⟨rfl, (hnames jobId).mpr hjob, question.2, by simp, hin⟩
    case mem_found =>
      intro jobId
      rw [Dict.mem_keys, Dict.mem_keys]
      simp only [get?_findJobs, List.mem_singleton, exists_eq_left, hnames]
      cases hbefore : heard.found.get? jobId with
      | some found => simp
      | none => simp

theorem foldlM_leaves {round : Round} {questions : List (String × List String)} {heard after : Heard}
    (h : questions.foldlM (askOne w round) heard = .ok after) : Leaves w round questions heard after := by
  induction questions generalizing heard with
  | nil =>
    obtain rfl := Except.ok.inj h
    exact .refl w round heard
  | cons question rest ih =>
    rw [List.foldlM_cons] at h
    obtain ⟨between, hfirst, hrest⟩ := bind_eq_ok h
    exact (askOne_leaves hfirst).trans (ih hrest)

/-- **A round that comes to an end.** -/
theorem askEach_leaves {round : Round} {questions : Dict String (List String)} {heard after : Heard}
    (h : askEach w round questions heard = .ok after) :
    Leaves w round questions.entries heard after := foldlM_leaves h

theorem exists_askOne {round : Round} (heard : Heard) {question : String × List String} :
    (∃ after, askOne w round heard question = .ok after) ↔
      question.1 ∈ w.registry.hosts.keys ∧ (w.answer round question.1).Readable := by
  unfold askOne Asked.Readable
  rw [Dict.mem_keys]
  cases w.registry.hosts.get? question.1 with
  | none => simp
  | some entry => cases hjobs : (w.answer round question.1).jobs <;> simp [Except.map, hjobs]

theorem exists_foldlM {round : Round} {questions : List (String × List String)} {heard : Heard} :
    (∃ after, questions.foldlM (askOne w round) heard = .ok after) ↔
      ∀ name ∈ questions.map Prod.fst,
        name ∈ w.registry.hosts.keys ∧ (w.answer round name).Readable := by
  induction questions generalizing heard with
  | nil => simp [pure, Except.pure]
  | cons question rest ih =>
    rw [List.foldlM_cons, exists_bind_ok, List.map_cons, List.forall_mem_cons,
      ← exists_askOne heard]
    constructor
    · rintro ⟨between, hfirst, hrest⟩
      exact ⟨⟨between, hfirst⟩, ih.mp hrest⟩
    · rintro ⟨⟨between, hfirst⟩, hrest⟩
      exact ⟨between, hfirst, ih.mpr hrest⟩

/-- **A round comes to an end** exactly when every name it asks is registered and every answer can be
gone through. -/
theorem exists_askEach {round : Round} {questions : Dict String (List String)} (heard : Heard) :
    (∃ after, askEach w round questions heard = .ok after) ↔
      ∀ name ∈ questions.keys, name ∈ w.registry.hosts.keys ∧ (w.answer round name).Readable :=
  exists_foldlM

/-! ## What is asked -/

section Asked
variable (w) (unplaced : Dict String (Option IndexEntry))

/-- Does the first round find the job? -/
def World.foundFirst (e : String × Option IndexEntry) : Bool :=
  (named w e.2).any fun entry => (w.answer .named entry.name).names e.1

/-- Has a host answered the first round, where it was asked in it? -/
def World.answeredFirst (host : String) : Bool :=
  match w.answer .named host with
  | .answered _ => true
  | .unaskable _ | .gone _ =>
    unplaced.entries.all fun e => (named w e.2).all fun entry => entry.name ≠ host

/-- **The ids that a host is asked about**: first those that the index has on it, then, if it can be
asked, those that are still not found and that it was not asked about. -/
def World.asked (round : Round) (host : String) : List String :=
  match round with
  | .named =>
    (unplaced.entries.filter fun e => (named w e.2).any fun entry => entry.name = host).map Prod.fst
  | .everyone =>
    if host ∈ w.registry.hosts.keys ∧ w.answeredFirst unplaced host = true then
      (unplaced.entries.filter fun e =>
        ((named w e.2).all fun entry => entry.name ≠ host) && !w.foundFirst e).map Prod.fst
    else []

variable {w unplaced}

theorem mem_asked_named {host jobId : String} :
    jobId ∈ w.asked unplaced .named host ↔
      ∃ indexed entry, unplaced.get? jobId = some indexed ∧ named w indexed = some entry ∧
        entry.name = host := by
  simp only [World.asked, List.mem_map, List.mem_filter, Prod.exists, exists_and_right, exists_eq_right,
    Dict.get?_eq_some, Option.any_eq_true, decide_eq_true_eq]
  exact exists_congr fun indexed => by simp

/-- **`by_named` has what the index names.** -/
theorem get?_byNamed (host : String) :
    (byNamed w unplaced).get? host =
      if w.asked unplaced .named host = [] then none else some (w.asked unplaced .named host) := by
  have hgroup : ((unplaced.entries.filterMap fun e =>
        (named w e.2).map fun entry => (entry.name, e.1)).filter fun e => e.1 = host).map Prod.snd =
      w.asked unplaced .named host := by
    unfold World.asked
    induction unplaced.entries with
    | nil => rfl
    | cons e es ih =>
      cases hentry : named w e.2 with
      | none => simpa [hentry] using ih
      | some entry => by_cases hname : entry.name = host <;> simpa [hentry, hname] using ih
  rw [byNamed, Dict.get?_grouped, ← hgroup]
  simp only [List.map_eq_nil_iff]

/-- After the first round, a job is found where its named host names it. -/
theorem mem_found_first {heard : Heard} (h : Leaves w .named (byNamed w unplaced).entries {} heard)
    {jobId : String} {indexed : Option IndexEntry} (hjob : unplaced.get? jobId = some indexed) :
    jobId ∈ heard.found.keys ↔ w.foundFirst (jobId, indexed) = true := by
  rw [h.mem_found]
  have hempty : jobId ∉ ({} : Heard).found.keys := List.not_mem_nil
  simp only [hempty, false_or, World.foundFirst, Option.any_eq_true]
  constructor
  · rintro ⟨⟨host, jobIds⟩, hmem, hin, hnames⟩
    have hget := Dict.get?_eq_some.mpr hmem
    rw [get?_byNamed] at hget
    obtain ⟨-, heq⟩ := Option.ite_none_left_eq_some.mp hget
    obtain rfl := Option.some.inj heq
    obtain ⟨indexed', entry, hjob', hentry, rfl⟩ := mem_asked_named.mp hin
    obtain rfl := Option.some.inj (hjob.symm.trans hjob')
    exact ⟨entry, hentry, hnames⟩
  · rintro ⟨entry, hentry, hnames⟩
    have hin : jobId ∈ w.asked unplaced .named entry.name :=
      mem_asked_named.mpr ⟨indexed, entry, hjob, hentry, rfl⟩
    refine ⟨(entry.name, w.asked unplaced .named entry.name), Dict.get?_eq_some.mp ?_, hin, hnames⟩
    rw [get?_byNamed, if_neg (List.ne_nil_of_mem hin)]

theorem asked_named_eq_nil {host : String} :
    w.asked unplaced .named host = [] ↔
      (unplaced.entries.all fun e => (named w e.2).all fun entry => entry.name ≠ host) = true := by
  unfold World.asked
  rw [List.map_eq_nil_iff, List.filter_eq_nil_iff, List.all_eq_true]
  refine forall₂_congr fun e _ => ?_
  cases named w e.2 <;> simp

/-- After the first round, a host is asked again unless it could not be asked then. -/
theorem askable_first {heard : Heard} (h : Leaves w .named (byNamed w unplaced).entries {} heard)
    (host : String) : heard.askable host = w.answeredFirst unplaced host := by
  have hlatest := h.latest host
  have hkeys : host ∈ (byNamed w unplaced).entries.map Prod.fst ↔ w.asked unplaced .named host ≠ [] := by
    show host ∈ (byNamed w unplaced).keys ↔ _
    rw [Dict.mem_keys, get?_byNamed]
    by_cases hnil : w.asked unplaced .named host = [] <;> simp [hnil]
  unfold Heard.askable World.answeredFirst
  rw [hlatest]
  by_cases hnil : w.asked unplaced .named host = []
  · rw [if_neg (fun hin => hkeys.mp hin hnil), asked_named_eq_nil.mp hnil]
    cases w.answer .named host <;> rfl
  · rw [if_pos (hkeys.mpr hnil)]
    have hnot := fun h => hnil (asked_named_eq_nil.mpr h)
    cases w.answer .named host with
    | answered payload => rfl
    | unaskable reason => exact (Bool.eq_false_iff.mpr hnot).symm
    | gone reason => exact (Bool.eq_false_iff.mpr hnot).symm

/-- **`everyone` has what is still to be found.** -/
theorem get?_everyone {heard : Heard} (h : Leaves w .named (byNamed w unplaced).entries {} heard)
    (host : String) :
    (everyone w unplaced heard).get? host =
      if w.asked unplaced .everyone host = [] then none else some (w.asked unplaced .everyone host) := by
  have hrest : ∀ e ∈ unplaced.entries, decide (e.1 ∉ heard.found.keys) = !w.foundFirst e := by
    intro e hmem
    have hfound := mem_found_first h (Dict.get?_eq_some.mpr hmem)
    cases hfirst : w.foundFirst e with
    | true => simpa using hfound.mpr hfirst
    | false => simpa using fun hin => Bool.false_ne_true (hfirst ▸ hfound.mp hin)
  unfold everyone World.asked
  rw [Dict.get?_filterMap, List.filter_congr hrest]
  dsimp only
  rw [List.filter_filter, askable_first h host]
  cases hentry : w.registry.hosts.get? host with
  | none =>
    have hnot : host ∉ w.registry.hosts.keys := Dict.get?_eq_none.mp hentry
    simp [hnot]
  | some entry =>
    have hin : host ∈ w.registry.hosts.keys := Dict.mem_keys.mpr ⟨entry, hentry⟩
    cases w.answeredFirst unplaced host with
    | false => simp
    | true =>
      rw [if_pos (⟨hin, rfl⟩ : host ∈ w.registry.hosts.keys ∧ true = true)]
      rfl

end Asked

/-! ## Both rounds -/

/-- **What both rounds leave**: the questions are those of `World.asked`, and what is found is what their
answers name. -/
structure Rounds (w : World) (unplaced : Dict String (Option IndexEntry)) (heard : Heard) : Prop where
  registered : ∀ round host, w.asked unplaced round host ≠ [] → host ∈ w.registry.hosts.keys
  asks : ∀ q, q ∈ heard.asks ↔ q.jobIds = w.asked unplaced q.round q.host ∧ q.jobIds ≠ []
  twice : ∀ host, heard.asks.countP (fun q => q.host = host) ≤ 2
  latest : ∀ host, heard.latest.get? host =
    if w.asked unplaced .everyone host ≠ [] then some (w.answer .everyone host)
    else if w.asked unplaced .named host ≠ [] then some (w.answer .named host) else none
  first : ∀ host, w.asked unplaced .named host ≠ [] →
    heard.first.get? host = some (w.answer .named host)
  found : ∀ jobId host asked, heard.found.get? jobId = some (host, asked) →
    ∃ round, asked = w.answer round host ∧ asked.names jobId = true ∧ jobId ∈ w.asked unplaced round host
  mem_found : ∀ jobId, jobId ∈ heard.found.keys ↔
    ∃ round host, jobId ∈ w.asked unplaced round host ∧ (w.answer round host).names jobId = true

section Rounds
variable {unplaced : Dict String (Option IndexEntry)} {heard : Heard}

/-- A dictionary of questions, one for each host with something to be asked about. -/
def Puts (w : World) (unplaced : Dict String (Option IndexEntry)) (round : Round)
    (questions : Dict String (List String)) : Prop :=
  ∀ host, questions.get? host =
    if w.asked unplaced round host = [] then none else some (w.asked unplaced round host)

section Puts
variable {round : Round} {questions : Dict String (List String)}

theorem Puts.mem_entries (h : Puts w unplaced round questions) {host : String} {jobIds : List String} :
    (host, jobIds) ∈ questions.entries ↔ jobIds = w.asked unplaced round host ∧ jobIds ≠ [] := by
  rw [← Dict.get?_eq_some, h host]
  by_cases hnil : w.asked unplaced round host = []
  · rw [if_pos hnil, hnil]
    simp
  · rw [if_neg hnil]
    constructor
    · intro heq
      obtain rfl := Option.some.inj heq
      exact ⟨rfl, hnil⟩
    · rintro ⟨rfl, -⟩
      rfl

theorem Puts.mem_keys (h : Puts w unplaced round questions) {host : String} :
    host ∈ questions.keys ↔ w.asked unplaced round host ≠ [] := by
  rw [Dict.mem_keys, h host]
  by_cases hnil : w.asked unplaced round host = [] <;> simp [hnil]

/-- Each host is asked once in a round. -/
theorem countP_questions (questions : Dict String (List String)) (round : Round) (host : String) :
    (questions.entries.map fun e => ({ round, host := e.1, jobIds := e.2 } : Question)).countP
      (fun q => q.host = host) ≤ 1 := by
  rw [List.countP_map]
  have hkeys : questions.entries.countP ((fun q : Question => decide (q.host = host)) ∘ fun e =>
      { round, host := e.1, jobIds := e.2 }) = questions.keys.count host := by
    rw [Dict.keys, List.count, List.countP_map]
    refine List.countP_congr fun e _ => ?_
    simp
  rw [hkeys]
  exact List.nodup_iff_count_le_one.mp questions.nodup_keys host

end Puts

theorem puts_named : Puts w unplaced .named (byNamed w unplaced) := get?_byNamed

/-- **Both rounds, where they come to an end.** -/
theorem rounds_of {heard' : Heard} (hfirst : askEach w .named (byNamed w unplaced) {} = .ok heard)
    (hsecond : askEach w .everyone (everyone w unplaced heard) heard = .ok heard') :
    Rounds w unplaced heard' := by
  have hnamed := askEach_leaves hfirst
  have hnext := askEach_leaves hsecond
  have hputs : Puts w unplaced .everyone (everyone w unplaced heard) := get?_everyone hnamed
  constructor
  case registered =>
    intro round host hasked
    cases round with
    | named => exact ((exists_askEach _).mp ⟨_, hfirst⟩ host (puts_named.mem_keys.mpr hasked)).1
    | everyone => exact ((exists_askEach _).mp ⟨_, hsecond⟩ host (hputs.mem_keys.mpr hasked)).1
  case asks =>
    intro q
    obtain ⟨round, host, jobIds⟩ := q
    rw [hnext.asks, hnamed.asks]
    simp only [List.nil_append, List.mem_append, List.mem_map, Prod.exists, Question.mk.injEq]
    constructor
    · rintro (⟨_, _, hmem, rfl, rfl, rfl⟩ | ⟨_, _, hmem, rfl, rfl, rfl⟩)
      · exact puts_named.mem_entries.mp hmem
      · exact hputs.mem_entries.mp hmem
    · intro hasked
      cases round with
      | named => exact .inl ⟨host, jobIds, puts_named.mem_entries.mpr hasked, rfl, rfl, rfl⟩
      | everyone => exact .inr ⟨host, jobIds, hputs.mem_entries.mpr hasked, rfl, rfl, rfl⟩
  case twice =>
    intro host
    rw [hnext.asks, hnamed.asks, List.nil_append, List.countP_append]
    have h₁ := countP_questions (byNamed w unplaced) .named host
    have h₂ := countP_questions (everyone w unplaced heard) .everyone host
    omega
  case latest =>
    intro host
    have hempty : ({} : Heard).latest.get? host = none := rfl
    have hkeys : host ∈ (everyone w unplaced heard).entries.map Prod.fst ↔ _ := hputs.mem_keys
    have hkeys' : host ∈ (byNamed w unplaced).entries.map Prod.fst ↔ _ := puts_named.mem_keys
    simp only [hnext.latest, hnamed.latest, hkeys, hkeys', hempty]
  case first =>
    intro host hasked
    have hempty : ({} : Heard).first.get? host = none := rfl
    have hkeys : host ∈ (byNamed w unplaced).entries.map Prod.fst := puts_named.mem_keys.mpr hasked
    rw [hnext.first, hnamed.first, hempty, if_pos hkeys]
    rfl
  case found =>
    intro jobId host asked hfound
    rcases hnext.found jobId host asked hfound with hbefore | ⟨hasked, hnames, jobIds, hmem, hin⟩
    · rcases hnamed.found jobId host asked hbefore with hnone | ⟨hasked, hnames, jobIds, hmem, hin⟩
      · cases hnone
      · exact ⟨.named, hasked, hnames, (puts_named.mem_entries.mp hmem).1 ▸ hin⟩
    · exact ⟨.everyone, hasked, hnames, (hputs.mem_entries.mp hmem).1 ▸ hin⟩
  case mem_found =>
    intro jobId
    rw [hnext.mem_found, hnamed.mem_found]
    have hempty : jobId ∉ ({} : Heard).found.keys := List.not_mem_nil
    simp only [hempty, false_or, Prod.exists]
    constructor
    · rintro (⟨host, jobIds, hmem, hin, hnames⟩ | ⟨host, jobIds, hmem, hin, hnames⟩)
      · exact ⟨.named, host, (puts_named.mem_entries.mp hmem).1 ▸ hin, hnames⟩
      · exact ⟨.everyone, host, (hputs.mem_entries.mp hmem).1 ▸ hin, hnames⟩
    · rintro ⟨round, host, hin, hnames⟩
      have hne := List.ne_nil_of_mem hin
      cases round with
      | named => exact .inl ⟨host, _, puts_named.mem_entries.mpr ⟨rfl, hne⟩, hin, hnames⟩
      | everyone => exact .inr ⟨host, _, hputs.mem_entries.mpr ⟨rfl, hne⟩, hin, hnames⟩

/-- **Both rounds come to an end** exactly when every host that is asked is registered and answers with
what can be gone through. -/
theorem exists_rounds :
    (∃ heard heard', askEach w .named (byNamed w unplaced) {} = .ok heard ∧
        askEach w .everyone (everyone w unplaced heard) heard = .ok heard') ↔
      ∀ round host, w.asked unplaced round host ≠ [] →
        host ∈ w.registry.hosts.keys ∧ (w.answer round host).Readable := by
  constructor
  · rintro ⟨heard, heard', hfirst, hsecond⟩ round host hasked
    have hputs : Puts w unplaced .everyone (everyone w unplaced heard) :=
      get?_everyone (askEach_leaves hfirst)
    cases round with
    | named => exact (exists_askEach _).mp ⟨_, hfirst⟩ host (puts_named.mem_keys.mpr hasked)
    | everyone => exact (exists_askEach _).mp ⟨_, hsecond⟩ host (hputs.mem_keys.mpr hasked)
  · intro h
    obtain ⟨heard, hfirst⟩ := (exists_askEach {}).mpr fun host hin =>
      h .named host ((puts_named : Puts w unplaced .named _).mem_keys.mp hin)
    have hputs : Puts w unplaced .everyone (everyone w unplaced heard) :=
      get?_everyone (askEach_leaves hfirst)
    obtain ⟨heard', hsecond⟩ := (exists_askEach heard).mpr fun host hin =>
      h .everyone host (hputs.mem_keys.mp hin)
    exact ⟨heard, heard', hfirst, hsecond⟩

/-! ## One id -/

/-- **No host has word of a job, and none that could have it is left**: the answers to the questions about
it do not name it, the index names no host for it or a registered one that answered, and every other
host that was asked answered or is gone. -/
def World.noWord (w : World) (unplaced : Dict String (Option IndexEntry)) (jobId : String)
    (indexed : Option IndexEntry) : Prop :=
  (∀ round host, jobId ∈ w.asked unplaced round host → (w.answer round host).names jobId = false) ∧
  (indexed = none ∨ ∃ entry payload,
    named w indexed = some entry ∧ w.answer .named entry.name = .answered payload) ∧
  ∀ round host reason, w.asked unplaced round host ≠ [] → w.answer round host = .unaskable reason →
    ∃ entry, named w indexed = some entry ∧ entry.name = host

theorem unasked_eq_nil {entry : Option HostEntry} :
    unasked heard entry = [] ↔
      ∀ host reason, heard.latest.get? host = some (.unaskable reason) →
        ∃ entry', entry = some entry' ∧ entry'.name = host := by
  unfold unasked
  rw [List.filterMap_eq_nil_iff]
  constructor
  · intro h host reason hlatest
    have hnone := h _ (Dict.get?_eq_some.mp hlatest)
    cases entry with
    | none => exact absurd hnone (by simp)
    | some entry =>
      refine ⟨entry, rfl, ?_⟩
      by_contra hne
      have hne' : host ≠ entry.name := fun heq => hne heq.symm
      exact absurd hnone (by simp [hne'])
  · intro h e hmem
    obtain ⟨host, asked⟩ := e
    cases asked with
    | answered payload => rfl
    | gone reason => rfl
    | unaskable reason =>
      obtain ⟨entry, rfl, rfl⟩ := h host reason (Dict.get?_eq_some.mpr hmem)
      simp

/-- A host that could not be asked in the first round is not asked in the second. -/
theorem asked_everyone_eq_nil {host : String} (hnamed : w.asked unplaced .named host ≠ [])
    (hanswer : ∀ payload, w.answer .named host ≠ .answered payload) :
    w.asked unplaced .everyone host = [] := by
  have hnot : w.answeredFirst unplaced host = false := by
    unfold World.answeredFirst
    have hall := fun h => hnamed (asked_named_eq_nil.mpr h)
    cases hcase : w.answer .named host with
    | answered payload => exact absurd hcase (hanswer payload)
    | unaskable reason => exact Bool.eq_false_iff.mpr hall
    | gone reason => exact Bool.eq_false_iff.mpr hall
  rw [World.asked, if_neg (by simp [hnot])]

/-- **The last answer of a host that could not be asked.** -/
theorem Rounds.latest_unaskable (h : Rounds w unplaced heard) {host reason : String} :
    heard.latest.get? host = some (.unaskable reason) ↔
      ∃ round, w.asked unplaced round host ≠ [] ∧ w.answer round host = .unaskable reason := by
  rw [h.latest]
  by_cases hnext : w.asked unplaced .everyone host ≠ []
  · rw [if_pos hnext]
    refine ⟨fun heq => ⟨.everyone, hnext, Option.some.inj heq⟩, fun ⟨round, hasked, hanswer⟩ => ?_⟩
    cases round with
    | everyone => exact congrArg some hanswer
    | named => exact absurd (asked_everyone_eq_nil hasked fun _ h => nomatch hanswer.symm.trans h) hnext
  · rw [if_neg hnext]
    by_cases hnamed : w.asked unplaced .named host ≠ []
    · rw [if_pos hnamed]
      refine ⟨fun heq => ⟨.named, hnamed, Option.some.inj heq⟩, fun ⟨round, hasked, hanswer⟩ => ?_⟩
      cases round with
      | everyone => exact absurd hasked hnext
      | named => exact congrArg some hanswer
    · rw [if_neg hnamed]
      refine ⟨fun heq => (nomatch heq), fun ⟨round, hasked, hanswer⟩ => ?_⟩
      cases round with
      | everyone => exact absurd hasked hnext
      | named => exact absurd hasked hnamed

variable {jobId : String} {indexed : Option IndexEntry}

theorem settle_found {host : String} {asked : Asked} {entry : HostEntry}
    (hfound : heard.found.get? jobId = some (host, asked))
    (hentry : w.registry.hosts.get? host = some entry) :
    settle w heard jobId indexed =
      .ok (.location { host, entry := some entry, index := indexed, asked := some asked }) := by
  unfold settle
  rw [hfound]
  dsimp only
  rw [hentry]

/-- A host that the index names and that could not be asked is still the answer. -/
theorem settle_trouble {entry : HostEntry} {asked : Asked} (hfound : heard.found.get? jobId = none)
    (hentry : named w indexed = some entry) (hfirst : heard.first.get? entry.name = some asked)
    (hasked : ∀ payload, asked ≠ .answered payload) :
    settle w heard jobId indexed =
      .ok (.location { host := entry.name, entry := some entry, index := indexed, asked := some asked }) := by
  unfold settle
  rw [hfound]
  dsimp only
  rw [hentry, Option.bind_some, hfirst]
  cases asked with
  | answered payload => exact absurd rfl (hasked payload)
  | unaskable reason => rfl
  | gone reason => rfl

/-- What is left for an id without an entry or with one that answered. -/
theorem settle_unheard (hfound : heard.found.get? jobId = none)
    (hanswered : ∀ entry, named w indexed = some entry →
      ∃ payload, heard.first.get? entry.name = some (.answered payload)) :
    ∃ place, settle w heard jobId indexed = .ok place ∧ (∀ l, place = .location l →
        l.asked = some (notRegistered l.host)) ∧
      ((∃ reason, place = .unlocated reason true) ↔
        unasked heard (named w indexed) = [] ∧ (indexed = none ∨ (named w indexed).isSome = true)) := by
  unfold settle
  rw [hfound]
  dsimp only
  cases hentry : named w indexed with
  | none =>
    cases indexed with
    | none => cases unasked heard none <;> simp
    | some indexed => cases unasked heard none <;> simp
  | some entry =>
    obtain ⟨payload, hfirst⟩ := hanswered entry hentry
    rw [Option.bind_some, hfirst]
    cases indexed with
    | none => exact nomatch hentry
    | some indexed => cases unasked heard (some entry) <;> simp

/-- **A job's place, once both rounds have been asked.** -/
theorem Rounds.settles (h : Rounds w unplaced heard) (hjob : unplaced.get? jobId = some indexed) :
    ∃ place, settle w heard jobId indexed = .ok place ∧
      (∀ l payload, place = .location l → l.asked = some (.answered payload) →
        (∃ entry, w.registry.hosts.get? l.host = some entry ∧ l.entry = some entry) ∧
        ∃ round, jobId ∈ w.asked unplaced round l.host ∧
          w.answer round l.host = .answered payload ∧ (Asked.answered payload).names jobId = true) ∧
      ((∃ reason, place = .unlocated reason true) ↔ w.noWord unplaced jobId indexed) := by
  have hin : ∀ entry, named w indexed = some entry → jobId ∈ w.asked unplaced .named entry.name :=
    fun entry hentry => mem_asked_named.mpr ⟨indexed, entry, hjob, hentry, rfl⟩
  have hfirst : ∀ entry, named w indexed = some entry →
      heard.first.get? entry.name = some (w.answer .named entry.name) :=
    fun entry hentry => h.first entry.name (List.ne_nil_of_mem (hin entry hentry))
  cases hfound : heard.found.get? jobId with
  | some found =>
    obtain ⟨host, asked⟩ := found
    obtain ⟨round, rfl, hnames, hasked⟩ := h.found jobId host asked hfound
    obtain ⟨entry, hentry⟩ := Dict.mem_keys.mp (h.registered round host (List.ne_nil_of_mem hasked))
    refine ⟨_, settle_found hfound hentry, ?_, ?_⟩
    · intro l payload hl hpayload
      obtain rfl := Placed.location.inj hl
      have hanswer : w.answer round host = .answered payload := Option.some.inj hpayload
      exact ⟨⟨entry, hentry, rfl⟩, round, hasked, hanswer, hanswer ▸ hnames⟩
    · refine ⟨fun ⟨_, heq⟩ => (nomatch heq), fun hno => ?_⟩
      exact absurd hnames (by simp [hno.1 round host hasked])
  | none =>
    have hunnamed : ∀ round host, jobId ∈ w.asked unplaced round host →
        (w.answer round host).names jobId = false := by
      intro round host hasked
      by_contra hnames
      exact Dict.get?_eq_none.mp hfound
        ((h.mem_found jobId).mpr ⟨round, host, hasked, Bool.not_eq_false _ ▸ hnames⟩)
    by_cases htrouble : ∃ entry, named w indexed = some entry ∧
        ∀ payload, w.answer .named entry.name ≠ .answered payload
    · obtain ⟨entry, hentry, hnot⟩ := htrouble
      refine ⟨_, settle_trouble hfound hentry (hfirst entry hentry) hnot, ?_, ?_⟩
      · intro l payload hl hpayload
        obtain rfl := Placed.location.inj hl
        exact absurd (Option.some.inj hpayload) (hnot payload)
      · refine ⟨fun ⟨_, heq⟩ => (nomatch heq), fun ⟨_, hindexed, _⟩ => ?_⟩
        rcases hindexed with rfl | ⟨entry', payload, hentry', hanswer⟩
        · exact nomatch hentry
        · obtain rfl := Option.some.inj (hentry.symm.trans hentry')
          exact absurd hanswer (hnot payload)
    · have hanswered : ∀ entry, named w indexed = some entry →
          ∃ payload, w.answer .named entry.name = .answered payload := by
        intro entry hentry
        by_contra hnot
        exact htrouble ⟨entry, hentry, fun payload h => hnot ⟨payload, h⟩⟩
      have hheard : ∀ entry, named w indexed = some entry →
          ∃ payload, heard.first.get? entry.name = some (.answered payload) := by
        intro entry hentry
        obtain ⟨payload, hanswer⟩ := hanswered entry hentry
        exact ⟨payload, (hfirst entry hentry).trans (congrArg some hanswer)⟩
      obtain ⟨place, hplace, hlocation, hmissing⟩ := settle_unheard hfound hheard
      refine ⟨place, hplace, ?_, ?_⟩
      · intro l payload hl hpayload
        rw [hlocation l hl] at hpayload
        exact nomatch hpayload
      · rw [hmissing, unasked_eq_nil]
        unfold World.noWord
        simp only [h.latest_unaskable, forall_exists_index, and_imp]
        constructor
        · rintro ⟨hall, hindexed⟩
          refine ⟨hunnamed, ?_, fun round host reason => hall host reason round⟩
          refine hindexed.imp id fun hsome => ?_
          obtain ⟨entry, hentry⟩ := Option.isSome_iff_exists.mp hsome
          obtain ⟨payload, hanswer⟩ := hanswered entry hentry
          exact ⟨entry, payload, hentry, hanswer⟩
        · rintro ⟨-, hindexed, hall⟩
          refine ⟨fun host reason round => hall round host reason, hindexed.imp id ?_⟩
          rintro ⟨entry, payload, hentry, -⟩
          rw [hentry]
          rfl

/-- A host is gone, or answered a question about a job without it. -/
def Cleared (w : World) (asks : List Question) (jobId host : String) : Prop :=
  ∃ q ∈ asks, q.host = host ∧
    ((∃ reason, w.answer q.round host = .gone reason) ∨
      (∃ payload, w.answer q.round host = .answered payload) ∧ jobId ∈ q.jobIds ∧
        (w.answer q.round host).names jobId = false)

/-- **A job is not missing before every registered host is gone or has answered without it.** -/
theorem Rounds.cleared (h : Rounds w unplaced heard) (hjob : unplaced.get? jobId = some indexed)
    (hno : w.noWord unplaced jobId indexed) {host : String} (hhost : host ∈ w.registry.hosts.keys) :
    Cleared w heard.asks jobId host := by
  obtain ⟨hunnamed, hindexed, hunaskable⟩ := hno
  have hask : ∀ round, w.asked unplaced round host ≠ [] →
      (⟨round, host, w.asked unplaced round host⟩ : Question) ∈ heard.asks :=
    fun round hne => (h.asks _).mpr ⟨rfl, hne⟩
  by_cases hnamed : jobId ∈ w.asked unplaced .named host
  · -- the host that the index names
    obtain ⟨indexed', entry, hjob', hentry, rfl⟩ := mem_asked_named.mp hnamed
    obtain rfl := Option.some.inj (hjob.symm.trans hjob')
    rcases hindexed with rfl | ⟨entry', payload, hentry', hanswer⟩
    · exact nomatch hentry
    · obtain rfl := Option.some.inj (hentry.symm.trans hentry')
      exact ⟨_, hask .named (List.ne_nil_of_mem hnamed), rfl,
        .inr ⟨⟨payload, hanswer⟩, hnamed, hunnamed .named entry.name hnamed⟩⟩
  · have hother : ∀ entry, named w indexed = some entry → entry.name ≠ host :=
      fun entry hentry heq => hnamed (mem_asked_named.mpr ⟨indexed, entry, hjob, hentry, heq⟩)
    have hgone : ∀ round, w.asked unplaced round host ≠ [] →
        (∀ payload, w.answer round host ≠ .answered payload) →
        ∃ reason, w.answer round host = .gone reason := by
      intro round hne hnot
      cases hanswer : w.answer round host with
      | answered payload => exact absurd hanswer (hnot payload)
      | gone reason => exact ⟨reason, rfl⟩
      | unaskable reason =>
        obtain ⟨entry, hentry, hname⟩ := hunaskable round host reason hne hanswer
        exact absurd hname (hother entry hentry)
    cases hfirst : w.answeredFirst unplaced host with
    | true =>
      have hin : jobId ∈ w.asked unplaced .everyone host := by
        have hfound : w.foundFirst (jobId, indexed) = false := by
          unfold World.foundFirst
          cases hentry : named w indexed with
          | none => rfl
          | some entry =>
            exact hunnamed .named entry.name (mem_asked_named.mpr ⟨indexed, entry, hjob, hentry, rfl⟩)
        have hall : (named w indexed).all (fun entry => entry.name ≠ host) = true := by
          rw [Option.all_eq_true]
          exact fun entry hentry => by simpa using hother entry hentry
        rw [World.asked, if_pos ⟨hhost, hfirst⟩]
        exact List.mem_map.mpr ⟨(jobId, indexed),
          List.mem_filter.mpr ⟨Dict.get?_eq_some.mp hjob,
            Bool.and_eq_true_iff.mpr ⟨hall, by simp [hfound]⟩⟩, rfl⟩
      have hne := List.ne_nil_of_mem hin
      by_cases hanswer : ∃ payload, w.answer .everyone host = .answered payload
      · exact ⟨_, hask .everyone hne, rfl, .inr ⟨hanswer, hin, hunnamed .everyone host hin⟩⟩
      · exact ⟨_, hask .everyone hne, rfl,
          .inl (hgone .everyone hne fun payload h => hanswer ⟨payload, h⟩)⟩
    | false =>
      unfold World.answeredFirst at hfirst
      cases hanswer : w.answer .named host with
      | answered payload => rw [hanswer] at hfirst; exact nomatch hfirst
      | unaskable reason | gone reason =>
        rw [hanswer] at hfirst
        have hne : w.asked unplaced .named host ≠ [] := fun hnil =>
          Bool.false_ne_true (hfirst.symm.trans (asked_named_eq_nil.mp hnil))
        exact ⟨_, hask .named hne, rfl, .inl (hgone .named hne fun _ h => nomatch hanswer.symm.trans h)⟩

end Rounds

/-! ## All ids -/

section All
variable {ids : List String} {jobId : String}

theorem mem_unplaced {indexed : Option IndexEntry} :
    (jobId, indexed) ∈ (ids.filterMap fun jobId =>
      match placeByIndex w jobId with
      | .inl _ => none
      | .inr indexed => some (jobId, indexed)) ↔
      jobId ∈ ids ∧ placeByIndex w jobId = .inr indexed := by
  rw [List.mem_filterMap]
  constructor
  · rintro ⟨id, hin, heq⟩
    cases hplace : placeByIndex w id with
    | inl place =>
      rw [hplace] at heq
      cases heq
    | inr indexed' =>
      rw [hplace] at heq
      obtain ⟨rfl, rfl⟩ := Prod.mk.inj (Option.some.inj heq)
      exact ⟨hin, hplace⟩
  · rintro ⟨hin, hplace⟩
    exact ⟨jobId, hin, by rw [hplace]⟩

theorem get?_unplacedOf {indexed : Option IndexEntry} :
    (unplacedOf w ids).get? jobId = some indexed ↔
      jobId ∈ ids ∧ placeByIndex w jobId = .inr indexed := by
  have hmem := @mem_unplaced w ids
  have hagree := Dict.get?_ofList_agree (k := jobId) (v := indexed) fun id v v' hv hv' =>
    Sum.inr.inj ((hmem.mp hv).2.symm.trans (hmem.mp hv').2)
  exact hagree.trans hmem

theorem mem_placedOf {place : Placed} :
    (jobId, place) ∈ placedOf w ids ↔ jobId ∈ ids ∧ placeByIndex w jobId = .inl place := by
  rw [placedOf, List.mem_filterMap]
  constructor
  · rintro ⟨id, hin, heq⟩
    cases hplace : placeByIndex w id with
    | inr indexed => rw [hplace] at heq; exact nomatch heq
    | inl place' =>
      rw [hplace] at heq
      obtain ⟨rfl, rfl⟩ := Prod.mk.inj (Option.some.inj heq)
      exact ⟨hin, hplace⟩
  · rintro ⟨hin, hplace⟩
    exact ⟨jobId, hin, by rw [hplace]⟩

/-- **A job's place**: where the index has it, or what both rounds came to. -/
def HasPlace (w : World) (heard : Heard) (jobId : String) (place : Placed) : Prop :=
  placeByIndex w jobId = .inl place ∨
    ∃ indexed, placeByIndex w jobId = .inr indexed ∧ settle w heard jobId indexed = .ok place

theorem HasPlace.unique {heard : Heard} {place place' : Placed} (h : HasPlace w heard jobId place)
    (h' : HasPlace w heard jobId place') : place = place' := by
  rcases h with h | ⟨indexed, h, hsettle⟩ <;> rcases h' with h' | ⟨indexed', h', hsettle'⟩
  · exact Sum.inl.inj (h.symm.trans h')
  · exact nomatch h.symm.trans h'
  · exact nomatch h.symm.trans h'
  · obtain rfl := Sum.inr.inj (h.symm.trans h')
    exact Except.ok.inj (hsettle.symm.trans hsettle')

/-- **The places of the ids asked for, and what was asked.** -/
structure Answers (w : World) (ids : List String) (placed : Dict String Placed) (heard : Heard) : Prop where
  rounds : Rounds w (unplacedOf w ids) heard
  keys : placed.keys = ids
  place : ∀ jobId place, placed.get? jobId = some place → HasPlace w heard jobId place

/-- Nothing is asked for nobody. -/
theorem askAround_nil {unplaced : Dict String (Option IndexEntry)} (h : unplaced.entries = []) :
    askAround w unplaced = .ok ([], []) := by
  obtain ⟨entries, hnodup⟩ := unplaced
  obtain rfl : entries = [] := h
  have heveryone : ∀ heard, (everyone w ⟨[], hnodup⟩ heard).entries = [] := by
    intro heard
    refine List.filterMap_eq_nil_iff.mpr fun e _ => ?_
    simp
  unfold askAround
  show (askEach w .everyone (everyone w ⟨[], hnodup⟩ {}) {} >>= _) = _
  unfold askEach
  rw [heveryone]
  rfl

/-- **What becomes of the ids that are asked about.** -/
theorem askAround_ok {unplaced : Dict String (Option IndexEntry)} {found : List (String × Placed)}
    {asks : List Question} (h : askAround w unplaced = .ok (found, asks)) :
    ∃ heard, Rounds w unplaced heard ∧ asks = heard.asks ∧
      ∀ jobId place, (jobId, place) ∈ found ↔
        ∃ indexed, unplaced.get? jobId = some indexed ∧ settle w heard jobId indexed = .ok place := by
  obtain ⟨heard, hfirst, h⟩ := bind_eq_ok h
  obtain ⟨heard', hsecond, h⟩ := bind_eq_ok h
  obtain ⟨found', hfound, h⟩ := bind_eq_ok h
  obtain ⟨rfl, rfl⟩ := Prod.mk.inj (Except.ok.inj h)
  refine ⟨heard', rounds_of hfirst hsecond, rfl, fun jobId place => ⟨fun hmem => ?_, ?_⟩⟩
  · obtain ⟨e, he, heq⟩ := exists_of_mem_mapM hfound hmem
    obtain ⟨place', hsettle, hpair⟩ := map_eq_ok heq
    obtain ⟨rfl, rfl⟩ := Prod.mk.inj hpair
    exact ⟨e.2, Dict.get?_eq_some.mpr he, hsettle⟩
  · rintro ⟨indexed, hget, hsettle⟩
    obtain ⟨pair, hin, hpair⟩ := mem_mapM_eq_ok hfound (Dict.get?_eq_some.mp hget)
    obtain ⟨place', hsettle', rfl⟩ := map_eq_ok hpair
    rwa [Except.ok.inj (hsettle.symm.trans hsettle')]

theorem exists_askAround {unplaced : Dict String (Option IndexEntry)} :
    (∃ r, askAround w unplaced = .ok r) ↔
      ∀ round host, w.asked unplaced round host ≠ [] →
        host ∈ w.registry.hosts.keys ∧ (w.answer round host).Readable := by
  rw [← exists_rounds]
  constructor
  · rintro ⟨r, h⟩
    obtain ⟨heard, hfirst, h⟩ := bind_eq_ok h
    obtain ⟨heard', hsecond, -⟩ := bind_eq_ok h
    exact ⟨heard, heard', hfirst, hsecond⟩
  · rintro ⟨heard, heard', hfirst, hsecond⟩
    have hrounds := rounds_of hfirst hsecond
    obtain ⟨placed, hplaced⟩ : ∃ placed, (unplaced.entries.mapM fun e =>
        (e.1, ·) <$> settle w heard' e.1 e.2) = .ok placed := by
      refine exists_mapM_ok.mpr fun e he => ?_
      obtain ⟨place, hsettle, -⟩ := hrounds.settles (Dict.get?_eq_some.mpr he)
      exact ⟨(e.1, place), by rw [hsettle]; rfl⟩
    exact exists_bind_ok.mpr ⟨heard, hfirst,
      exists_bind_ok.mpr ⟨heard', hsecond, exists_bind_ok.mpr ⟨placed, hplaced, _, rfl⟩⟩⟩

/-- What is asked around for, also where nothing is. -/
theorem askUnplaced_eq (unplaced : Dict String (Option IndexEntry)) :
    askUnplaced w unplaced = askAround w unplaced := by
  unfold askUnplaced
  by_cases hnil : unplaced.entries = []
  · rw [if_pos hnil, askAround_nil hnil]
  · rw [if_neg hnil]

/-- Every id asked for has its place among those of the index and those found. -/
theorem get?_places {heard : Heard} {found : List (String × Placed)}
    (hfound : ∀ jobId place, (jobId, place) ∈ found ↔
      ∃ indexed, (unplacedOf w ids).get? jobId = some indexed ∧
        settle w heard jobId indexed = .ok place) {place : Placed} :
    (Dict.ofList (placedOf w ids ++ found)).get? jobId = some place ↔
      jobId ∈ ids ∧ HasPlace w heard jobId place := by
  have hmem : ∀ id place, (id, place) ∈ placedOf w ids ++ found ↔
      id ∈ ids ∧ HasPlace w heard id place := by
    intro id place
    rw [List.mem_append, mem_placedOf, hfound, HasPlace]
    simp only [get?_unplacedOf]
    constructor
    · rintro (⟨hin, hplace⟩ | ⟨indexed, ⟨hin, hplace⟩, hsettle⟩)
      · exact ⟨hin, .inl hplace⟩
      · exact ⟨hin, .inr ⟨indexed, hplace, hsettle⟩⟩
    · rintro ⟨hin, hplace | ⟨indexed, hplace, hsettle⟩⟩
      · exact .inl ⟨hin, hplace⟩
      · exact .inr ⟨indexed, ⟨hin, hplace⟩, hsettle⟩
  have hagree := Dict.get?_ofList_agree (k := jobId) (v := place) fun id v v' hv hv' =>
    ((hmem id v).mp hv).2.unique ((hmem id v').mp hv').2
  exact hagree.trans (hmem jobId place)

theorem Rounds.hasPlace {heard : Heard} (h : Rounds w (unplacedOf w ids) heard) (hin : jobId ∈ ids) :
    ∃ place, HasPlace w heard jobId place := by
  cases hplace : placeByIndex w jobId with
  | inl place => exact ⟨place, .inl hplace⟩
  | inr indexed =>
    obtain ⟨place, hsettle, -⟩ := h.settles (get?_unplacedOf.mpr ⟨hin, hplace⟩)
    exact ⟨place, .inr ⟨indexed, hplace, hsettle⟩⟩

variable {t : Texts} {jobIds : List String}

/-- `locate_many`, where no host is named. -/
theorem locateMany_none :
    locateMany w t jobIds none = (do
      let (found, asks) ← askAround w (unplacedOf w jobIds.eraseDups)
      let answers ← jobIds.eraseDups.mapM (answerOf (.ofList (placedOf w jobIds.eraseDups ++ found)))
      pure (.ofList answers, asks)) := by
  rw [← askUnplaced_eq]
  rfl

theorem nodup_eraseDups : ∀ jobIds : List String, jobIds.eraseDups.Nodup
  | [] => List.nodup_nil
  | first :: rest => by
    rw [List.eraseDups_cons]
    refine List.nodup_cons.mpr ⟨fun hin => ?_, nodup_eraseDups _⟩
    have hother := (List.mem_filter.mp (List.mem_eraseDups.mp hin)).2
    exact absurd hother (by simp)
termination_by jobIds => jobIds.length
decreasing_by exact Nat.lt_succ_of_le (List.length_filter_le _ _)

/-- The places of ids, one after the other. -/
theorem keys_answers {placed : Dict String Placed} {answers : List (String × Placed)}
    (h : ids.mapM (answerOf placed) = .ok answers) :
    answers.map Prod.fst = ids ∧ ∀ jobId place, (jobId, place) ∈ answers →
      placed.get? jobId = some place := by
  have hone : ∀ id answer, answerOf placed id = .ok answer →
      answer.1 = id ∧ placed.get? answer.1 = some answer.2 := by
    intro id answer hanswer
    unfold answerOf at hanswer
    cases hget : placed.get? id with
    | none => rw [hget] at hanswer; exact nomatch hanswer
    | some place =>
      rw [hget] at hanswer
      obtain rfl := Except.ok.inj hanswer
      exact ⟨rfl, hget⟩
  constructor
  · have hall : List.Forall₂ (fun jobId answer => id jobId = Prod.fst answer) ids answers :=
      (mapM_eq_ok h).imp fun jobId answer hanswer => (hone jobId answer hanswer).1.symm
    exact (map_eq_map hall).symm.trans (List.map_id ids)
  · intro jobId place hmem
    obtain ⟨id, -, hanswer⟩ := exists_of_mem_mapM h hmem
    exact (hone id _ hanswer).2

/-- **What `locate_many` answers.** -/
theorem locateMany_ok {placed : Dict String Placed} {asks : List Question}
    (h : locateMany w t jobIds none = .ok (placed, asks)) :
    ∃ heard, asks = heard.asks ∧ Answers w jobIds.eraseDups placed heard := by
  rw [locateMany_none] at h
  obtain ⟨⟨found, asks'⟩, haround, h⟩ := bind_eq_ok h
  obtain ⟨answers, hanswers, h⟩ := bind_eq_ok h
  obtain ⟨rfl, rfl⟩ := Prod.mk.inj (Except.ok.inj h)
  obtain ⟨heard, hrounds, rfl, hfound⟩ := askAround_ok haround
  obtain ⟨hkeys, hplaces⟩ := keys_answers hanswers
  have hnodup : (answers.map Prod.fst).Nodup := hkeys ▸ nodup_eraseDups jobIds
  have hentries : (Dict.ofList answers).entries = answers :=
    congrArg Dict.entries (Dict.ofList_entries ⟨answers, hnodup⟩)
  refine ⟨heard, rfl, hrounds, ?_, ?_⟩
  · rw [Dict.keys, hentries, hkeys]
  · intro jobId place hget
    rw [Dict.get?_eq_some, hentries] at hget
    exact ((get?_places hfound).mp (hplaces jobId place hget)).2

/-- **`locate_many` answers** exactly when every host that is asked is registered and answers with what
can be gone through. -/
theorem exists_locateMany :
    (∃ r, locateMany w t jobIds none = .ok r) ↔
      ∀ round host, w.asked (unplacedOf w jobIds.eraseDups) round host ≠ [] →
        host ∈ w.registry.hosts.keys ∧ (w.answer round host).Readable := by
  rw [locateMany_none, ← exists_askAround]
  constructor
  · rintro ⟨r, h⟩
    obtain ⟨around, haround, -⟩ := bind_eq_ok h
    exact ⟨around, haround⟩
  · rintro ⟨⟨found, asks⟩, haround⟩
    obtain ⟨heard, hrounds, -, hfound⟩ := askAround_ok haround
    obtain ⟨answers, hanswers⟩ := exists_mapM_ok.mpr fun jobId hin => by
      obtain ⟨place, hplace⟩ := hrounds.hasPlace hin
      exact ⟨(jobId, place), show answerOf (.ofList (placedOf w jobIds.eraseDups ++ found)) jobId = _ by
        rw [answerOf, (get?_places hfound).mpr ⟨hin, hplace⟩]⟩
    exact exists_bind_ok.mpr ⟨_, haround, exists_bind_ok.mpr ⟨answers, hanswers, _, rfl⟩⟩

/-- **A place for each id in the order asked, and each repeat once**, whether a host is named or not. -/
theorem locateMany_keys {explicit : Option String} {placed : Dict String Placed} {asks : List Question}
    (h : locateMany w t jobIds explicit = .ok (placed, asks)) : placed.keys = jobIds.eraseDups := by
  cases hname : explicit.filter fun name => name ≠ "" with
  | none =>
    have hsame : locateMany w t jobIds explicit = locateMany w t jobIds none := by
      unfold locateMany
      rw [hname, Option.filter_none]
    obtain ⟨heard, -, hanswers⟩ := locateMany_ok (hsame ▸ h)
    exact hanswers.keys
  | some name =>
    unfold locateMany at h
    rw [hname] at h
    obtain ⟨rfl, -⟩ := Prod.mk.inj (Except.ok.inj h)
    have hkeys : (jobIds.eraseDups.map fun jobId => (jobId, onNamedHost w t jobId name)).map Prod.fst =
        jobIds.eraseDups := by
      rw [List.map_map]
      exact List.map_id _
    have hnodup := hkeys.symm ▸ nodup_eraseDups jobIds
    rw [Dict.keys, Dict.ofList_entries ⟨_, hnodup⟩]
    exact hkeys

end All

/-! ## The lookup tells the truth -/

/-- **What a lookup promises**: one answer for each id, in the order asked; a host's word for every job
placed with an answer; no job missing that a host may have that this machine knows; and no host asked
more than twice. -/
structure Truthful (w : World) (ids : List String) (placed : Dict String Placed) (asks : List Question) :
    Prop where
  keys : placed.keys = ids
  named : ∀ jobId l payload, placed.get? jobId = some (.location l) →
    l.asked = some (.answered payload) →
    (∃ entry, w.registry.hosts.get? l.host = some entry ∧ l.entry = some entry) ∧
      ∃ q ∈ asks, q.host = l.host ∧ jobId ∈ q.jobIds ∧ w.answer q.round l.host = .answered payload ∧
        (Asked.answered payload).names jobId = true
  missing : ∀ jobId reason, placed.get? jobId = some (.unlocated reason true) →
    ∀ host, host ∈ w.registry.hosts.keys ∨ host ∈ w.skipped → Cleared w asks jobId host
  twice : ∀ host, asks.countP (fun q => q.host = host) ≤ 2

/-- **Every host that is asked is registered under its own name, and answers with jobs that can be gone
through.** -/
def World.Answering (w : World) (ids : List String) : Prop :=
  ∀ round host, w.asked (unplacedOf w ids) round host ≠ [] →
    host ∈ w.registry.hosts.keys ∧ (w.answer round host).Readable

/-- **Nobody has word of a job that the index does not place.** -/
def World.Unheard (w : World) (ids : List String) (jobId : String) : Prop :=
  ∃ indexed, placeByIndex w jobId = .inr indexed ∧ w.noWord (unplacedOf w ids) jobId indexed

section Truth
variable {t : Texts} {jobIds ids : List String} {placed : Dict String Placed} {heard : Heard}
  {jobId : String}

theorem placeByIndex_located {place : Placed} (h : placeByIndex w jobId = .inl place) :
    ∃ l, place = .location l ∧ ∀ payload, l.asked ≠ some (.answered payload) := by
  unfold placeByIndex at h
  cases hlocal : (w.localIndex jobId).bind fun indexed =>
      (w.registry.hosts.get? indexed.host).map fun entry => (indexed, entry) with
  | some found =>
    rw [hlocal] at h
    obtain rfl := Sum.inl.inj h
    exact ⟨_, rfl, fun _ heq => nomatch heq⟩
  | none =>
    rw [hlocal] at h
    dsimp only at h
    split at h
    · split at h
      · obtain rfl := Sum.inl.inj h
        exact ⟨_, rfl, fun _ heq => nomatch heq⟩
      · exact nomatch h
    · exact nomatch h

/-- **A job is missing exactly when nobody has word of it.** -/
theorem Answers.missing (h : Answers w ids placed heard) :
    (∃ reason, placed.get? jobId = some (.unlocated reason true)) ↔
      jobId ∈ ids ∧ w.Unheard ids jobId := by
  constructor
  · rintro ⟨reason, hget⟩
    have hin : jobId ∈ ids := h.keys ▸ Dict.mem_keys.mpr ⟨_, hget⟩
    rcases h.place jobId _ hget with hplace | ⟨indexed, hplace, hsettle⟩
    · obtain ⟨l, hl, -⟩ := placeByIndex_located hplace
      exact nomatch hl
    · obtain ⟨place, hsettle', -, hmissing⟩ := h.rounds.settles (get?_unplacedOf.mpr ⟨hin, hplace⟩)
      obtain rfl := Except.ok.inj (hsettle.symm.trans hsettle')
      exact ⟨hin, indexed, hplace, hmissing.mp ⟨reason, rfl⟩⟩
  · rintro ⟨hin, indexed, hplace, hno⟩
    obtain ⟨place, hget⟩ := Dict.mem_keys.mp (h.keys.symm ▸ hin : jobId ∈ placed.keys)
    obtain ⟨place', hsettle, -, hmissing⟩ := h.rounds.settles (get?_unplacedOf.mpr ⟨hin, hplace⟩)
    have hsame := (h.place jobId place hget).unique (.inr ⟨indexed, hplace, hsettle⟩)
    obtain ⟨reason, hreason⟩ := hmissing.mpr hno
    exact ⟨reason, by rw [hget, hsame, hreason]⟩

/-- An id placed with an answer has been asked about, and the answer names it. -/
theorem Answers.named (h : Answers w ids placed heard) {l : Location} {payload : Dict String Json}
    (hget : placed.get? jobId = some (.location l)) (hasked : l.asked = some (.answered payload)) :
    (∃ entry, w.registry.hosts.get? l.host = some entry ∧ l.entry = some entry) ∧
      ∃ q ∈ heard.asks, q.host = l.host ∧ jobId ∈ q.jobIds ∧
        w.answer q.round l.host = .answered payload ∧ (Asked.answered payload).names jobId = true := by
  have hin : jobId ∈ ids := h.keys ▸ Dict.mem_keys.mpr ⟨_, hget⟩
  rcases h.place jobId _ hget with hplace | ⟨indexed, hplace, hsettle⟩
  · obtain ⟨l', hl, hno⟩ := placeByIndex_located hplace
    obtain rfl := Placed.location.inj hl
    exact absurd hasked (hno payload)
  · obtain ⟨place, hsettle', hlocated, -⟩ := h.rounds.settles (get?_unplacedOf.mpr ⟨hin, hplace⟩)
    obtain rfl := Except.ok.inj (hsettle.symm.trans hsettle')
    obtain ⟨hentry, round, hasked, hanswer, hnames⟩ := hlocated l payload rfl hasked
    exact ⟨hentry, ⟨round, l.host, _⟩, (h.rounds.asks _).mpr ⟨rfl, List.ne_nil_of_mem hasked⟩, rfl,
      hasked, hanswer, hnames⟩

/-- Only registered hosts are asked. -/
theorem Rounds.registered_of_cleared {unplaced : Dict String (Option IndexEntry)}
    (h : Rounds w unplaced heard) {host : String} (hcleared : Cleared w heard.asks jobId host) :
    host ∈ w.registry.hosts.keys := by
  obtain ⟨q, hq, rfl, -⟩ := hcleared
  obtain ⟨heq, hne⟩ := (h.asks q).mp hq
  exact h.registered q.round q.host (heq ▸ hne)

/-- **The answers of a lookup are truthful**, as long as every entry could be read or no job is
unheard of. -/
theorem Answers.truthful_iff (h : Answers w ids placed heard) :
    Truthful w ids placed heard.asks ↔
      (∀ host ∈ w.skipped, host ∈ w.registry.hosts.keys) ∨ ∀ jobId ∈ ids, ¬ w.Unheard ids jobId := by
  constructor
  · intro htrue
    by_contra hneither
    rw [not_or] at hneither
    obtain ⟨hskipped, hunheard⟩ := hneither
    refine hskipped fun host hhost => ?_
    by_contra hout
    refine hunheard fun jobId hin hjob => hout ?_
    obtain ⟨reason, hmissing⟩ := h.missing.mpr ⟨hin, hjob⟩
    exact h.rounds.registered_of_cleared (htrue.missing jobId reason hmissing host (.inr hhost))
  · intro hknown
    refine ⟨h.keys, fun jobId l payload => h.named, fun jobId reason hmissing host hhost => ?_,
      h.rounds.twice⟩
    obtain ⟨hin, hunheard⟩ := h.missing.mp ⟨reason, hmissing⟩
    obtain ⟨indexed, hplace, hno⟩ := id hunheard
    refine h.rounds.cleared (get?_unplacedOf.mpr ⟨hin, hplace⟩) hno ?_
    rcases hknown with hskipped | hnone
    · exact hhost.elim id (hskipped host)
    · exact absurd hunheard (hnone jobId hin)

end Truth

/-- **`locate_many` answers truthfully** exactly when every host that is asked is registered and answers
with what can be gone through, and every entry could be read or no id is one that nobody has word of. -/
theorem locate_many_truthful_iff (w : World) (t : Texts) (jobIds : List String) :
    (∃ placed asks, locateMany w t jobIds none = .ok (placed, asks) ∧
        Truthful w jobIds.eraseDups placed asks) ↔
      w.Answering jobIds.eraseDups ∧
        ((∀ host ∈ w.skipped, host ∈ w.registry.hosts.keys) ∨
          ∀ jobId ∈ jobIds.eraseDups, ¬ w.Unheard jobIds.eraseDups jobId) := by
  constructor
  · rintro ⟨placed, asks, hlocate, htrue⟩
    obtain ⟨heard, rfl, hanswers⟩ := locateMany_ok hlocate
    exact ⟨exists_locateMany.mp ⟨_, hlocate⟩, hanswers.truthful_iff.mp htrue⟩
  · rintro ⟨hanswering, hknown⟩
    obtain ⟨⟨placed, asks⟩, hlocate⟩ := exists_locateMany.mpr hanswering
    obtain ⟨heard, rfl, hanswers⟩ := locateMany_ok hlocate
    exact ⟨placed, heard.asks, hlocate, hanswers.truthful_iff.mpr hknown⟩

/-! ### An entry this build cannot read -/

/-- One host, whose entry could not be read, and a job that no index has. -/
def onlyUnreadable : World where
  registry := {}
  skipped := ["box"]
  localIndex _ := none
  mirrorIndex _ := none
  answer _ _ := .unaskable "not asked"

/-- **A job is reported missing, and nobody was asked.** -/
theorem missing_unasked :
    ∃ placed, locateMany onlyUnreadable plainTexts ["job"] none = .ok (placed, []) ∧
      (∃ reason, placed.get? "job" = some (.unlocated reason true)) ∧
      ¬ Truthful onlyUnreadable ["job"] placed [] := by
  refine ⟨_, rfl, ⟨_, rfl⟩, fun htrue => ?_⟩
  obtain ⟨q, hq, -⟩ := htrue.missing "job" _ rfl "box" (.inr (List.mem_singleton_self _))
  exact absurd hq List.not_mem_nil

end Gpuc.Control.Locate
