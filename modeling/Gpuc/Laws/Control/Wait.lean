import Mathlib.Data.List.Forall2
import Mathlib.Data.List.Induction
import Mathlib.Tactic.Linarith
import Gpuc.Control.Wait

/-!
# A patient wait gives every job a verdict, and no hasty one

What a poll makes of a job is `Became`, one case for each branch; what it leaves of the clock is
`poll_asked` and `poll_answered`. An answer starts the clock anew, at its own time and only for a job it
leaves out; a host that cannot be asked keeps the clock it has. So the clock never runs from before the
last answer (`Clock.quiet`), and no error comes before it has run for `TROUBLE_GRACE_S`.

A job that the host leaves out of one answer after the other is never settled, as each answer starts the
clock anew. Where no answer leaves a job out after a poll that brought no word of it (`LeftOutOnce`), a
silence keeps the clock it began with (`silent_step`), and the job is settled in time.
-/

set_option autoImplicit false

namespace Gpuc.Control.Wait

open Gpuc.Basis
open Gpuc.Host (Status Seconds)

/-! ## What is said in a poll -/

/-- Is the host asked, and does it answer? -/
def Watch.answers (watch : Watch) (poll : Poll) : Bool :=
  match watch.ask poll with
  | .answered _ => true
  | .unaskable _ | .gone _ => false

/-- Does a poll bring word of a job? -/
def Watch.hears (watch : Watch) (poll : Poll) (jobId : String) : Bool :=
  match watch.ask poll with
  | .answered view => (view.views.get? jobId).isSome
  | .unaskable _ | .gone _ => false

/-- Is the host found gone in a poll? -/
def Watch.lost (watch : Watch) (poll : Poll) : Bool :=
  match watch.ask poll with
  | .gone _ => true
  | .answered _ | .unaskable _ => false

theorem answers_of_hears {watch : Watch} {poll : Poll} {jobId : String}
    (h : watch.hears poll jobId = true) : watch.answers poll = true := by
  unfold Watch.hears at h
  unfold Watch.answers
  cases hask : watch.ask poll with
  | answered view => rfl
  | unaskable reason => rw [hask] at h; exact absurd h Bool.false_ne_true
  | gone reason => rw [hask] at h; exact absurd h Bool.false_ne_true

/-! ## Giving up -/

theorem readMirror_finished {jobId : String} {mirror : Mirror} {view : JobView}
    (h : (readMirror jobId mirror).view = some view) : view.status.finished = true := by
  cases mirror with
  | unmirrored missing => exact nomatch h
  | mirrored uri finished =>
    unfold readMirror at h
    dsimp only at h
    cases hfind : finished.find? fun view => view.status.finished with
    | none => rw [hfind] at h; exact nomatch h
    | some found =>
      rw [hfind] at h
      obtain rfl := Option.some.inj h
      simpa using List.find?_some hfind

@[simp] theorem note_trouble (line : Line) (text : String) : (line.note text).trouble = line.trouble := rfl

section Poll
variable {watch : Watch} {poll : Poll}

/-- A job is settled by its mirror, or left as it is. -/
theorem fromMirror_cases (poll : Poll) (watched : Watched) (line : Line) :
    (fromMirror poll watched line).2.2.trouble = line.trouble ∧
      (((fromMirror poll watched line).1.view = none ∧
          (fromMirror poll watched line).2.1 = watched) ∨
        ∃ view, (fromMirror poll watched line).1.view = some view ∧ view.status.finished = true ∧
          (fromMirror poll watched line).2.1 = { watched with view := some view, source := .mirror }) := by
  unfold fromMirror
  dsimp only
  cases hview : (readMirror watched.jobId (poll.mirror watched.jobId)).view with
  | none => exact ⟨rfl, .inl ⟨hview, rfl⟩⟩
  | some view => exact ⟨rfl, .inr ⟨view, hview, readMirror_finished hview, rfl⟩⟩

/-- **Giving up settles a job.** -/
theorem giveUp_settles (why waited : String) (gone : Bool) (state : HostState) (watched : Watched)
    (line : Line) :
    let given := giveUp watch poll why waited gone state watched line
    given.1.settled = true ∧ given.1.jobId = watched.jobId ∧ given.1.seen = watched.seen ∧
      given.2.trouble = line.trouble := by
  intro given
  unfold given giveUp
  dsimp only
  obtain ⟨htrouble, hcase⟩ := fromMirror_cases poll
    { watched with hostState := if gone then .gone else state } line
  cases gone with
  | true =>
    rw [if_pos rfl]
    rcases hcase with ⟨hnone, hsame⟩ | ⟨view, hsome, hfinished, hview⟩
    · simp only [if_pos] at hnone hsame htrouble
      simp [hnone, hsame, htrouble, Watched.settled]
    · simp only [if_pos] at hsome hview htrouble
      simp [hsome, hview, htrouble, Watched.settled, Watched.finished, hfinished]
  | false =>
    rw [if_neg Bool.false_ne_true]
    cases hpatient : watch.patient with
    | false => simp [Watched.settled]
    | true =>
      rw [if_pos rfl]
      rcases hcase with ⟨hnone, hsame⟩ | ⟨view, hsome, hfinished, hview⟩
      · simp only [Bool.false_eq_true, if_false] at hnone hsame htrouble
        simp [hnone, hsame, htrouble, Watched.settled]
      · simp only [Bool.false_eq_true, if_false] at hsome hview htrouble
        simp [hsome, hview, htrouble, Watched.settled, Watched.finished, hfinished]

end Poll

/-! ## Every job in turn -/

section EachPending
variable {step : Watched → Line → Watched × Line} {P : Line → Prop}

theorem eachPending_cons_settled {watched : Watched} (h : watched.settled = true)
    (rest : List Watched) (line : Line) :
    eachPending step (watched :: rest) line =
      (watched :: (eachPending step rest line).1, (eachPending step rest line).2) := by
  rw [eachPending, if_pos h]

theorem eachPending_cons_pending {watched : Watched} (h : watched.settled = false)
    (rest : List Watched) (line : Line) :
    eachPending step (watched :: rest) line =
      ((step watched line).1 :: (eachPending step rest (step watched line).2).1,
        (eachPending step rest (step watched line).2).2) := by
  rw [eachPending, if_neg (by simp [h])]

/-- **What every step keeps of the line, all of them keep.** -/
theorem eachPending_keeps (hstep : ∀ watched line, P line → P (step watched line).2) :
    ∀ (jobs : List Watched) (line : Line), P line → P (eachPending step jobs line).2
  | [], _, h => h
  | watched :: rest, line, h => by
    cases hsettled : watched.settled with
    | true =>
      rw [eachPending_cons_settled hsettled]
      exact eachPending_keeps hstep rest line h
    | false =>
      rw [eachPending_cons_pending hsettled]
      exact eachPending_keeps hstep rest _ (hstep watched line h)

/-- What one job's step brings about, and every step keeps, holds at the end. -/
theorem eachPending_reaches (hkeeps : ∀ watched line, P line → P (step watched line).2)
    {watched : Watched} (hpending : watched.settled = false)
    (hmakes : ∀ line, P (step watched line).2) {jobs : List Watched} (hmem : watched ∈ jobs)
    (line : Line) : P (eachPending step jobs line).2 := by
  induction jobs generalizing line with
  | nil => exact absurd hmem List.not_mem_nil
  | cons first rest ih =>
    rcases List.mem_cons.mp hmem with rfl | hrest
    · rw [eachPending_cons_pending hpending]
      exact eachPending_keeps hkeeps rest _ (hmakes line)
    · cases hfirst : first.settled with
      | true =>
        rw [eachPending_cons_settled hfirst]
        exact ih hrest line
      | false =>
        rw [eachPending_cons_pending hfirst]
        exact ih hrest _

/-- **Each job becomes what its own step makes of it**, at a line the steps before have kept. -/
theorem eachPending_became {R : Watched → Watched → Prop}
    (hsettled : ∀ watched, watched.settled = true → R watched watched)
    (hstep : ∀ watched line, watched.settled = false → P line →
      R watched (step watched line).1 ∧ P (step watched line).2) :
    ∀ (jobs : List Watched) (line : Line), P line →
      List.Forall₂ R jobs (eachPending step jobs line).1
  | [], _, _ => .nil
  | watched :: rest, line, h => by
    cases hpending : watched.settled with
    | true =>
      rw [eachPending_cons_settled hpending]
      exact .cons (hsettled watched hpending) (eachPending_became hsettled hstep rest line h)
    | false =>
      rw [eachPending_cons_pending hpending]
      obtain ⟨hfirst, hline⟩ := hstep watched line hpending h
      exact .cons hfirst (eachPending_became hsettled hstep rest _ hline)

end EachPending

/-! ## One poll of a patient watch -/

/-- **What a poll of a patient watch makes of a job that is waited for.** -/
inductive Became (watch : Watch) (poll : Poll) (watched : Watched) : Watched → Prop
  | shown (hheard : watch.hears poll watched.jobId = true) (job : JobView) :
    Became watch poll watched { watched with view := some job, seen := true }
  | unknown (hunheard : watch.hears poll watched.jobId = false) (hseen : watched.seen = false)
    {after : Watched} (hsettles : after.settled = true) (hid : after.jobId = watched.jobId) :
    Became watch poll watched after
  | leftOut (hanswers : watch.answers poll = true)
    (hunheard : watch.hears poll watched.jobId = false) (hseen : watched.seen = true) :
    Became watch poll watched watched
  | waits (hanswers : watch.answers poll = false)
    (htime : poll.now - watch.line.since poll.now < troubleGraceS) : Became watch poll watched watched
  | givenUp (hanswers : watch.answers poll = false)
    (htime : watch.lost poll = true ∨ troubleGraceS ≤ poll.now - watch.line.since poll.now)
    {after : Watched} (hsettles : after.settled = true) (hid : after.jobId = watched.jobId) :
    Became watch poll watched after

/-- What a poll makes of a job: one that has settled stays. -/
def Polled (watch : Watch) (poll : Poll) (watched after : Watched) : Prop :=
  (watched.settled = true ∧ after = watched) ∨
    (watched.settled = false ∧ Became watch poll watched after)

section Poll
variable {watch : Watch} {poll : Poll}

theorem Polled.jobId_eq {watched after : Watched} (h : Polled watch poll watched after) :
    after.jobId = watched.jobId := by
  rcases h with ⟨-, rfl⟩ | ⟨-, hbecame⟩
  · rfl
  · cases hbecame with
    | shown | leftOut | waits => rfl
    | unknown _ _ _ hid => exact hid
    | givenUp _ _ _ hid => exact hid

/-- A host still given time, of a patient watch. -/
theorem waits_eq (hpatient : watch.patient = true) (gone : Bool) (line : Line) :
    waits watch poll gone line = true ↔
      gone = false ∧ poll.now - line.since poll.now < troubleGraceS := by
  simp [waits, hpatient]

/-- Trouble is noted at the time it is known from. -/
theorem troubled_trouble (why : String) (gone : Bool) (line : Line) :
    (troubled watch poll why gone line).trouble = some { since := line.since poll.now, why } := rfl

/-- **Trouble with a host** leaves the clock it has, or starts one. -/
theorem troubleWith_since (pending : List Watched) (why : String) (gone : Bool) (state : HostState)
    (line : Line) :
    ((troubleWith watch poll pending why gone state line).2.trouble).map (·.since) =
      some (line.since poll.now) := by
  unfold troubleWith
  dsimp only
  split
  · rfl
  · exact eachPending_keeps
      (P := fun after => after.trouble.map (·.since) = some (line.since poll.now))
      (fun watched after h => by
        rw [(giveUp_settles why (waited poll line) gone state watched after).2.2.2, h])
      pending _ rfl

/-- A clock that runs from now at the latest. -/
def Line.Now (now : Seconds) (line : Line) : Prop :=
  ∀ trouble, line.trouble = some trouble → trouble.since = now

theorem Line.Now.since_eq {now : Seconds} {line : Line} (h : line.Now now) : line.since now = now := by
  unfold Line.since
  cases htrouble : line.trouble with
  | none => rfl
  | some trouble => exact h trouble htrouble

theorem now_of_since {now : Seconds} {line : Line}
    (h : line.trouble.map (·.since) = some now) : line.Now now := by
  intro trouble htrouble
  rw [htrouble] at h
  exact Option.some.inj h

/-- **A job that an answer leaves out**: unknown if it was never shown, else waited for, with the
clock at the answer's own time. -/
theorem vanished_eq (hpatient : watch.patient = true) {line : Line} (hline : line.Now poll.now)
    (watched : Watched) :
    (watched.seen = false ∧ (vanished watch poll watched line).1.settled = true ∧
        (vanished watch poll watched line).1.jobId = watched.jobId ∧
        (vanished watch poll watched line).2 = line) ∨
      (watched.seen = true ∧ (vanished watch poll watched line).1 = watched) := by
  unfold vanished
  cases hseen : watched.seen with
  | false => exact .inl ⟨rfl, by simp [Watched.settled], rfl, rfl⟩
  | true =>
    refine .inr ⟨rfl, ?_⟩
    have hwaits : waits watch poll false line = true := by
      rw [waits_eq hpatient, hline.since_eq, sub_self]
      exact ⟨rfl, by decide +kernel⟩
    simp [troubleWith, hwaits]

theorem vanished_since {watched : Watched} (hseen : watched.seen = true) (line : Line) :
    (vanished watch poll watched line).2.trouble.map (·.since) = some (line.since poll.now) := by
  unfold vanished
  rw [hseen]
  exact troubleWith_since ..

/-- What an answer makes of the clock, for one job. -/
theorem heard_now (views : Dict String JobView) (watched : Watched) (line : Line)
    (h : line.Now poll.now) : (heard watch poll views watched line).2.Now poll.now := by
  unfold heard
  cases views.get? watched.jobId with
  | some job => exact h
  | none =>
    cases hseen : watched.seen with
    | false => simpa [vanished, hseen] using h
    | true => exact now_of_since (by rw [vanished_since hseen, h.since_eq])

theorem heard_isSome (views : Dict String JobView) (watched : Watched) (line : Line)
    (h : line.trouble.isSome = true) : (heard watch poll views watched line).2.trouble.isSome = true := by
  unfold heard
  cases views.get? watched.jobId with
  | some job => exact h
  | none =>
    cases hseen : watched.seen with
    | false => simpa [vanished, hseen] using h
    | true =>
      have hsince : (vanished watch poll watched line).2.trouble.map (·.since) = _ :=
        vanished_since hseen line
      exact Option.isSome_of_mem (Option.map_eq_some_iff.mp hsince).choose_spec.1

/-- After an answer is read, before its jobs are, there is no trouble. -/
theorem clearTrouble_trouble (line : Line) : (clearTrouble watch line).trouble = none := by
  unfold clearTrouble
  cases htrouble : line.trouble with
  | none => exact htrouble
  | some trouble => rfl

theorem checkDispatcher_trouble (view : HostView) (queued : Bool) (line : Line) :
    (checkDispatcher watch view queued line).trouble = line.trouble := by
  unfold checkDispatcher
  split <;> rfl

/-- The line an answer's jobs are read with. -/
def answeredLine (watch : Watch) (view : HostView) : Line :=
  checkDispatcher watch view (waitingToStart view.views watch.jobs) (clearTrouble watch watch.line)

theorem answeredLine_trouble (view : HostView) : (answeredLine watch view).trouble = none := by
  rw [answeredLine, checkDispatcher_trouble, clearTrouble_trouble]

theorem answeredLine_now (view : HostView) (now : Seconds) : (answeredLine watch view).Now now := by
  intro trouble htrouble
  rw [answeredLine_trouble] at htrouble
  exact nomatch htrouble

/-! ### The three kinds of polls -/

theorem poll_settled (h : watch.jobs.all Watched.settled = true) : watch.poll poll = watch := by
  unfold Watch.poll pollHost
  rw [if_pos h]

theorem poll_of_answered (h : watch.jobs.all Watched.settled = false) {view : HostView}
    (hask : watch.ask poll = .answered view) :
    watch.poll poll =
      { watch with
        jobs := (eachPending (heard watch poll view.views) watch.jobs (answeredLine watch view)).1
        line := (eachPending (heard watch poll view.views) watch.jobs (answeredLine watch view)).2 } := by
  unfold Watch.poll pollHost
  rw [if_neg (by simp [h]), hask]
  rfl

/-- A host that is not answering is in trouble. -/
theorem poll_of_trouble (h : watch.jobs.all Watched.settled = false)
    (hanswers : watch.answers poll = false) :
    ∃ reason, watch.poll poll =
      { watch with
        jobs := (troubleWith watch poll watch.jobs reason (watch.lost poll) .unaskable watch.line).1
        line := (troubleWith watch poll watch.jobs reason (watch.lost poll) .unaskable watch.line).2 } := by
  unfold Watch.poll pollHost Watch.lost
  unfold Watch.answers at hanswers
  rw [if_neg (by simp [h])]
  cases hask : watch.ask poll with
  | answered view => rw [hask] at hanswers; exact nomatch hanswers
  | unaskable reason => exact ⟨reason, rfl⟩
  | gone reason => exact ⟨reason, rfl⟩

theorem exists_answered (hanswers : watch.answers poll = true) :
    ∃ view, watch.ask poll = .answered view := by
  unfold Watch.answers at hanswers
  cases hask : watch.ask poll with
  | answered view => exact ⟨view, rfl⟩
  | unaskable reason => rw [hask] at hanswers; exact nomatch hanswers
  | gone reason => rw [hask] at hanswers; exact nomatch hanswers

theorem hears_of_answered {view : HostView} (hask : watch.ask poll = .answered view) (jobId : String) :
    watch.hears poll jobId = (view.views.get? jobId).isSome := by
  rw [Watch.hears, hask]

/-- **Every job, through a poll.** -/
theorem poll_jobs (hpatient : watch.patient = true) :
    List.Forall₂ (Polled watch poll) watch.jobs (watch.poll poll).jobs := by
  cases hall : watch.jobs.all Watched.settled with
  | true =>
    rw [poll_settled hall]
    exact List.forall₂_same.mpr fun watched hmem =>
      .inl ⟨List.all_eq_true.mp hall watched hmem, rfl⟩
  | false =>
    cases hanswers : watch.answers poll with
    | true =>
      obtain ⟨view, hask⟩ := exists_answered hanswers
      rw [poll_of_answered hall hask]
      refine eachPending_became (P := Line.Now poll.now) (fun watched h => .inl ⟨h, rfl⟩)
        (fun watched line hpending hline => ⟨.inr ⟨hpending, ?_⟩, heard_now _ watched line hline⟩)
        _ _ (answeredLine_now view poll.now)
      unfold heard
      have hheard := hears_of_answered hask watched.jobId
      cases hget : view.views.get? watched.jobId with
      | some job => exact .shown (by rw [hheard, hget]; rfl) job
      | none =>
        rcases vanished_eq hpatient hline watched with ⟨hseen, hsettles, hid, -⟩ | ⟨hseen, hsame⟩
        · exact .unknown (by rw [hheard, hget]; rfl) hseen hsettles hid
        · show Became watch poll watched (vanished watch poll watched line).1
          rw [hsame]
          exact .leftOut hanswers (by rw [hheard, hget]; rfl) hseen
    | false =>
      obtain ⟨reason, hpoll⟩ := poll_of_trouble hall hanswers
      rw [hpoll]
      unfold troubleWith
      dsimp only
      split
      · next hwaits =>
        refine List.forall₂_same.mpr fun watched _ => ?_
        cases hpending : watched.settled with
        | true => exact .inl ⟨hpending, rfl⟩
        | false => exact .inr ⟨hpending, .waits hanswers ((waits_eq hpatient _ _).mp hwaits).2⟩
      · next hover =>
        refine eachPending_became (P := fun _ => True) (fun watched h => .inl ⟨h, rfl⟩)
          (fun watched line hpending _ => ⟨.inr ⟨hpending, ?_⟩, trivial⟩) _ _ trivial
        have htime : watch.lost poll = true ∨
            troubleGraceS ≤ poll.now - watch.line.since poll.now := by
          rw [waits_eq hpatient, not_and_or, Bool.not_eq_false, not_lt] at hover
          exact hover
        obtain ⟨hsettles, hid, -, -⟩ := @giveUp_settles watch poll reason
          (waited poll watch.line) (watch.lost poll) .unaskable watched line
        exact .givenUp hanswers htime hsettles hid

/-- A poll without an answer leaves the clock it finds, or starts one. -/
theorem poll_asked (h : watch.jobs.all Watched.settled = false) (hanswers : watch.answers poll = false) :
    ∃ trouble, (watch.poll poll).line.trouble = some trouble ∧
      trouble.since = watch.line.since poll.now := by
  obtain ⟨reason, hpoll⟩ := poll_of_trouble h hanswers
  rw [hpoll]
  exact Option.map_eq_some_iff.mp (troubleWith_since ..)

/-- An answer leaves no clock, or one that starts with it. -/
theorem poll_answered (h : watch.jobs.all Watched.settled = false) (hanswers : watch.answers poll = true) :
    (watch.poll poll).line.Now poll.now := by
  obtain ⟨view, hask⟩ := exists_answered hanswers
  rw [poll_of_answered h hask]
  exact eachPending_keeps (fun watched line => heard_now view.views watched line) _ _
    (answeredLine_now view poll.now)

/-- **An answer that leaves a job out starts the clock.** -/
theorem poll_leftOut {watched : Watched} (hmem : watched ∈ watch.jobs)
    (hpending : watched.settled = false) (hseen : watched.seen = true)
    (hanswers : watch.answers poll = true) (hunheard : watch.hears poll watched.jobId = false) :
    (watch.poll poll).line.trouble.isSome = true := by
  have hall : watch.jobs.all Watched.settled = false :=
    List.all_eq_false.mpr ⟨watched, hmem, by simp [hpending]⟩
  obtain ⟨view, hask⟩ := exists_answered hanswers
  rw [hears_of_answered hask, Option.isSome_eq_false_iff, Option.isNone_iff_eq_none] at hunheard
  rw [poll_of_answered hall hask]
  refine eachPending_reaches (P := fun line => line.trouble.isSome = true)
    (fun watched line => heard_isSome view.views watched line) hpending (fun line => ?_) hmem _
  unfold heard
  rw [hunheard]
  exact Option.isSome_of_mem (Option.map_eq_some_iff.mp (vanished_since hseen line)).choose_spec.1

end Poll

/-! ## Runs -/

theorem run_concat (watch : Watch) (polls : List Poll) (poll : Poll) :
    watch.run (polls ++ [poll]) = (watch.run polls).poll poll := by
  rw [Watch.run, List.foldl_append]
  rfl

section Run
variable {watch : Watch} {polls : List Poll} {jobId : String}

theorem run_patient : (watch.run polls).patient = watch.patient := by
  induction polls using List.reverseRecOn with
  | nil => rfl
  | append_singleton polls poll ih => rw [run_concat, ← ih]; rfl

theorem run_gone : (watch.run polls).gone = watch.gone := by
  induction polls using List.reverseRecOn with
  | nil => rfl
  | append_singleton polls poll ih => rw [run_concat, ← ih]; rfl

/-- Whether a host is asked does not change. -/
theorem run_ask (poll : Poll) : (watch.run polls).ask poll = watch.ask poll := by
  rw [Watch.ask, Watch.ask, run_gone]

@[simp] theorem run_hears (poll : Poll) : (watch.run polls).hears poll jobId = watch.hears poll jobId := by
  rw [Watch.hears, Watch.hears, run_ask]

@[simp] theorem run_answers (poll : Poll) : (watch.run polls).answers poll = watch.answers poll := by
  rw [Watch.answers, Watch.answers, run_ask]

@[simp] theorem run_lost (poll : Poll) : (watch.run polls).lost poll = watch.lost poll := by
  rw [Watch.lost, Watch.lost, run_ask]

/-! ### One job -/

theorem mem_of_job? {watched : Watched} (h : watch.job? jobId = some watched) :
    watched ∈ watch.jobs ∧ watched.jobId = jobId :=
  ⟨List.mem_of_find?_eq_some h, by simpa using List.find?_some h⟩

/-- A job is found again where every job keeps its place. -/
theorem find?_of_forall₂ {R : Watched → Watched → Prop}
    (hid : ∀ watched after, R watched after → after.jobId = watched.jobId) {jobs jobs' : List Watched}
    (h : List.Forall₂ R jobs jobs') {watched : Watched}
    (hfind : jobs.find? (fun watched => watched.jobId = jobId) = some watched) :
    ∃ after, jobs'.find? (fun watched => watched.jobId = jobId) = some after ∧ R watched after := by
  induction h with
  | nil => exact nomatch hfind
  | @cons first after rest rest' hfirst _ ih =>
    rw [List.find?_cons] at hfind ⊢
    rw [hid first after hfirst]
    by_cases hjob : first.jobId = jobId
    · rw [decide_eq_true hjob] at hfind ⊢
      obtain rfl := Option.some.inj hfind
      exact ⟨after, rfl, hfirst⟩
    · rw [decide_eq_false hjob] at hfind ⊢
      exact ih hfind

/-- **One job, through a poll.** -/
theorem poll_job? (hpatient : watch.patient = true) (poll : Poll) {watched : Watched}
    (h : watch.job? jobId = some watched) :
    ∃ after, (watch.poll poll).job? jobId = some after ∧ Polled watch poll watched after :=
  find?_of_forall₂ (fun _ _ => Polled.jobId_eq) (poll_jobs hpatient) h

/-- Has a job settled? -/
def Watch.hasSettled (watch : Watch) (jobId : String) : Bool := (watch.job? jobId).any Watched.settled

theorem hasSettled_of {watched : Watched} (h : watch.job? jobId = some watched)
    (hsettled : watched.settled = true) : watch.hasSettled jobId = true := by
  rw [Watch.hasSettled, h]
  exact hsettled

theorem all_eq_false_of {watched : Watched} (h : watch.job? jobId = some watched)
    (hpending : watched.settled = false) : watch.jobs.all Watched.settled = false :=
  List.all_eq_false.mpr ⟨watched, (mem_of_job? h).1, by simp [hpending]⟩

theorem start_job? {name : String} {jobIds : List String} {patient : Bool} {gone : Option String}
    (h : jobId ∈ jobIds) :
    (Watch.start name jobIds patient gone).job? jobId = some { jobId } := by
  show (jobIds.map fun jobId => ({ jobId } : Watched)).find? _ = _
  induction jobIds with
  | nil => exact absurd h List.not_mem_nil
  | cons first rest ih =>
    rw [List.map_cons, List.find?_cons]
    by_cases hfirst : first = jobId
    · rw [decide_eq_true hfirst, hfirst]
    · rw [decide_eq_false hfirst]
      exact ih ((List.mem_cons.mp h).resolve_left fun heq => hfirst heq.symm)

/-- A job that is watched stays watched. -/
theorem run_job? (hpatient : watch.patient = true) (polls : List Poll) {watched : Watched}
    (h : watch.job? jobId = some watched) : ∃ after, (watch.run polls).job? jobId = some after := by
  induction polls using List.reverseRecOn with
  | nil => exact ⟨watched, h⟩
  | append_singleton polls poll ih =>
    obtain ⟨before, hbefore⟩ := ih
    rw [run_concat]
    obtain ⟨after, hafter, -⟩ := poll_job? (run_patient.trans hpatient) poll hbefore
    exact ⟨after, hafter⟩

end Run

/-! ## The clock -/

/-- No poll is before an earlier one. -/
def Ordered (polls : List Poll) : Prop := polls.Pairwise fun poll later => poll.now ≤ later.now

theorem ordered_concat {polls : List Poll} {poll : Poll} :
    Ordered (polls ++ [poll]) ↔ Ordered polls ∧ ∀ earlier ∈ polls, earlier.now ≤ poll.now := by
  rw [Ordered, List.pairwise_append]
  simp [Ordered]

/-- **The clock of a host, while jobs are waited for**: it started by now, and since then the host has
not answered. -/
structure Clock (watch : Watch) (polls : List Poll) : Prop where
  since_le : ∀ trouble, (watch.run polls).line.trouble = some trouble →
    ∀ now, (∀ poll ∈ polls, poll.now ≤ now) → trouble.since ≤ now
  quiet : (watch.run polls).jobs.all Watched.settled = false →
    ∀ trouble, (watch.run polls).line.trouble = some trouble →
      ∀ poll ∈ polls, trouble.since < poll.now → watch.answers poll = false

theorem Line.since_le {line : Line} {now : Seconds}
    (h : ∀ trouble, line.trouble = some trouble → trouble.since ≤ now) : line.since now ≤ now := by
  unfold Line.since
  cases htrouble : line.trouble with
  | none => exact le_refl now
  | some trouble => exact h trouble htrouble

theorem Line.since_of {line : Line} {trouble : Trouble} (h : line.trouble = some trouble)
    (now : Seconds) : line.since now = trouble.since := by
  rw [Line.since, h]
  rfl

section Run
variable {watch : Watch} {polls : List Poll} {poll : Poll} {jobId : String}

/-- **One more poll keeps it.** -/
theorem Clock.concat (h : Clock watch polls) (hlater : ∀ earlier ∈ polls, earlier.now ≤ poll.now) :
    Clock watch (polls ++ [poll]) := by
  have hnow : (watch.run polls).line.since poll.now ≤ poll.now :=
    Line.since_le fun trouble htrouble => h.since_le trouble htrouble poll.now hlater
  cases hall : (watch.run polls).jobs.all Watched.settled with
  | true =>
    have hsame : watch.run (polls ++ [poll]) = watch.run polls := by
      rw [run_concat, poll_settled hall]
    refine ⟨?_, ?_⟩
    · rw [hsame]
      intro trouble htrouble now hle
      exact h.since_le trouble htrouble now fun earlier hmem => hle earlier (List.mem_append_left _ hmem)
    · rw [hsame, hall]
      exact fun hnot => nomatch hnot
  | false =>
    cases hanswers : watch.answers poll with
    | true =>
      have hfresh := poll_answered hall ((run_answers poll).trans hanswers)
      refine ⟨?_, ?_⟩
      · rw [run_concat]
        intro trouble htrouble now hle
        rw [hfresh trouble htrouble]
        exact hle poll (List.mem_append_right _ (List.mem_singleton_self poll))
      · rw [run_concat]
        intro _ trouble htrouble earlier hmem hafter
        rw [hfresh trouble htrouble] at hafter
        rcases List.mem_append.mp hmem with hearlier | hself
        · exact absurd hafter (not_lt.mpr (hlater earlier hearlier))
        · rw [List.mem_singleton.mp hself] at hafter
          exact absurd hafter (lt_irrefl _)
    | false =>
      obtain ⟨kept, hkept, hsince⟩ := poll_asked hall ((run_answers poll).trans hanswers)
      refine ⟨?_, ?_⟩
      · rw [run_concat]
        intro trouble htrouble now hle
        obtain rfl := Option.some.inj (hkept.symm.trans htrouble)
        rw [hsince]
        exact hnow.trans (hle poll (List.mem_append_right _ (List.mem_singleton_self poll)))
      · rw [run_concat]
        intro _ trouble htrouble earlier hmem hafter
        obtain rfl := Option.some.inj (hkept.symm.trans htrouble)
        rw [hsince] at hafter
        rcases List.mem_append.mp hmem with hearlier | hself
        · cases hbefore : (watch.run polls).line.trouble with
          | none =>
            rw [Line.since, hbefore] at hafter
            exact absurd hafter (not_lt.mpr (hlater earlier hearlier))
          | some before =>
            rw [Line.since_of hbefore] at hafter
            exact h.quiet hall before hbefore earlier hearlier hafter
        · rw [List.mem_singleton.mp hself]
          exact hanswers

theorem clock (hfresh : watch.line.trouble = none) (hordered : Ordered polls) : Clock watch polls := by
  induction polls using List.reverseRecOn with
  | nil =>
    refine ⟨fun trouble htrouble => ?_, fun _ _ _ _ hmem => absurd hmem List.not_mem_nil⟩
    exact nomatch hfresh.symm.trans htrouble
  | append_singleton polls poll ih =>
    obtain ⟨hbefore, hlater⟩ := ordered_concat.mp hordered
    exact (ih hbefore).concat hlater

end Run

/-! ## Verdicts -/

/-- **A job gets its verdict in time**: once polls bring no word of it, it has settled by the first of
them that is `TROUBLE_GRACE_S` after the first. -/
def GivesVerdict (watch : Watch) (polls : List Poll) (jobId : String) : Prop :=
  ∀ earlier start between last, polls = earlier ++ start :: (between ++ [last]) →
    (∀ poll ∈ start :: (between ++ [last]), watch.hears poll jobId = false) →
    start.now + troubleGraceS ≤ last.now → (watch.run polls).hasSettled jobId = true

/-- **No hasty verdict**: a job the host has shown, on a host never found gone, is given an error in a
poll only if no poll in the `TROUBLE_GRACE_S` before it brought word of the job. -/
def NeverHasty (watch : Watch) (polls : List Poll) (jobId : String) : Prop :=
  ∀ earlier last before after, polls = earlier ++ [last] →
    (watch.run earlier).job? jobId = some before → (watch.run polls).job? jobId = some after →
    before.error = none → after.error.isSome = true →
    (∃ poll ∈ polls, watch.hears poll jobId = true) → (∀ poll ∈ polls, watch.lost poll = false) →
    ∀ poll ∈ polls, last.now < poll.now + troubleGraceS → watch.hears poll jobId = false

/-- **An answer leaves a job out only once**: a job that the host has shown and that is waited for is
left out of an answer only where the poll before brought word of it. -/
def LeftOutOnce (watch : Watch) (polls : List Poll) (jobId : String) : Prop :=
  ∀ earlier poll next later watched, polls = earlier ++ poll :: next :: later →
    (watch.run (earlier ++ [poll])).job? jobId = some watched →
    watched.seen = true → watched.settled = false →
    watch.answers next = true → watch.hears next jobId = false → watch.hears poll jobId = true

section Verdict
variable {watch : Watch} {polls : List Poll} {poll : Poll} {jobId : String} {start : Seconds}

/-- A job has settled, or the clock runs for it. -/
def Timed (watch : Watch) (jobId : String) (start : Seconds) : Prop :=
  watch.hasSettled jobId = true ∨ ∃ trouble, watch.line.trouble = some trouble ∧ trouble.since ≤ start

theorem hasSettled_poll (hpatient : watch.patient = true) (poll : Poll)
    (h : watch.hasSettled jobId = true) : (watch.poll poll).hasSettled jobId = true := by
  rw [Watch.hasSettled, Option.any_eq_true] at h
  obtain ⟨watched, hjob, hsettled⟩ := h
  obtain ⟨after, hafter, hpolled⟩ := poll_job? hpatient poll hjob
  rcases hpolled with ⟨-, rfl⟩ | ⟨hpending, -⟩
  · exact hasSettled_of hafter hsettled
  · exact absurd hsettled (by simp [hpending])

/-- **A silence starts with the clock running.** -/
theorem timed_start (hpatient : watch.patient = true) {watched : Watched}
    (hjob : watch.job? jobId = some watched) (hunheard : watch.hears poll jobId = false)
    (hclock : ∀ trouble, watch.line.trouble = some trouble → trouble.since ≤ poll.now) :
    Timed (watch.poll poll) jobId poll.now := by
  obtain ⟨hmem, hid⟩ := mem_of_job? hjob
  obtain ⟨after, hafter, hpolled⟩ := poll_job? hpatient poll hjob
  rcases hpolled with ⟨hsettled, rfl⟩ | ⟨hpending, hbecame⟩
  · exact .inl (hasSettled_of hafter hsettled)
  · have hall := all_eq_false_of hjob hpending
    cases hbecame with
    | shown hheard => exact absurd (hid ▸ hheard) (by simp [hunheard])
    | unknown _ _ hsettles => exact .inl (hasSettled_of hafter hsettles)
    | leftOut hanswers hunheard hseen =>
      obtain ⟨trouble, htrouble⟩ := Option.isSome_iff_exists.mp
        (poll_leftOut hmem hpending hseen hanswers hunheard)
      exact .inr ⟨trouble, htrouble, le_of_eq (poll_answered hall hanswers trouble htrouble)⟩
    | waits hanswers =>
      obtain ⟨trouble, htrouble, hsince⟩ := poll_asked hall hanswers
      exact .inr ⟨trouble, htrouble, hsince ▸ Line.since_le hclock⟩
    | givenUp _ _ hsettles => exact .inl (hasSettled_of hafter hsettles)

/-- **A silence goes on with the clock it has**, where no answer starts it anew, and no longer than the
grace. -/
theorem silent_step (hpatient : watch.patient = true) {watched : Watched}
    (hjob : watch.job? jobId = some watched) (hunheard : watch.hears poll jobId = false)
    (honce : watch.answers poll = true → watched.seen = true → watched.settled = true)
    (htimed : Timed watch jobId start) :
    (watch.poll poll).hasSettled jobId = true ∨
      poll.now < start + troubleGraceS ∧ Timed (watch.poll poll) jobId start := by
  obtain ⟨-, hid⟩ := mem_of_job? hjob
  obtain ⟨after, hafter, hpolled⟩ := poll_job? hpatient poll hjob
  rcases hpolled with ⟨hsettled, rfl⟩ | ⟨hpending, hbecame⟩
  · exact .inl (hasSettled_of hafter hsettled)
  · cases hbecame with
    | shown hheard => exact absurd (hid ▸ hheard) (by simp [hunheard])
    | unknown _ _ hsettles => exact .inl (hasSettled_of hafter hsettles)
    | leftOut hanswers _ hseen => exact absurd (honce hanswers hseen) (by simp [hpending])
    | waits hanswers htime =>
      rcases htimed with hsettled | ⟨trouble, htrouble, hle⟩
      · exact .inl (hasSettled_poll hpatient poll hsettled)
      · rw [Line.since_of htrouble] at htime
        obtain ⟨kept, hkept, hsince⟩ := poll_asked (all_eq_false_of hjob hpending) hanswers
        rw [Line.since_of htrouble] at hsince
        exact .inr ⟨by linarith, .inr ⟨kept, hkept, hsince.trans_le hle⟩⟩
    | givenUp _ _ hsettles => exact .inl (hasSettled_of hafter hsettles)

/-- In a silence, an answer leaves a job out only if it was never shown, or has settled. -/
theorem LeftOutOnce.settled (honce : LeftOutOnce watch polls jobId) {earlier silent later : List Poll}
    (hpolls : polls = earlier ++ silent ++ poll :: later) (hne : silent ≠ [])
    (hsilent : ∀ before ∈ silent, watch.hears before jobId = false)
    (hunheard : watch.hears poll jobId = false) {watched : Watched}
    (hjob : (watch.run (earlier ++ silent)).job? jobId = some watched)
    (hanswers : watch.answers poll = true) (hseen : watched.seen = true) : watched.settled = true := by
  by_contra hpending
  have hlast : silent = silent.dropLast ++ [silent.getLast hne] :=
    (List.dropLast_append_getLast hne).symm
  rw [hlast, ← List.append_assoc] at hpolls hjob
  rw [List.append_assoc, List.singleton_append] at hpolls
  have hheard := honce _ _ _ _ watched hpolls hjob hseen (by simpa using hpending) hanswers hunheard
  rw [hsilent _ (List.getLast_mem hne)] at hheard
  exact nomatch hheard

/-- **Along a silence** a job has settled, or the clock has run since it began. -/
theorem silence_timed (hpatient : watch.patient = true) (hfresh : watch.line.trouble = none)
    (hwatched : ∃ watched, watch.job? jobId = some watched) (hordered : Ordered polls)
    (honce : LeftOutOnce watch polls jobId) {earlier : List Poll} {first : Poll} (silent : List Poll) :
    ∀ rest, polls = earlier ++ first :: silent ++ rest →
      (∀ poll ∈ first :: silent, watch.hears poll jobId = false) →
      Timed (watch.run (earlier ++ first :: silent)) jobId first.now := by
  obtain ⟨_, hwatched⟩ := hwatched
  induction silent using List.reverseRecOn with
  | nil =>
    intro rest hpolls hsilent
    obtain ⟨watched, hjob⟩ := run_job? hpatient earlier hwatched
    rw [hpolls] at hordered
    obtain ⟨hbefore, hlater⟩ := ordered_concat.mp (List.pairwise_append.mp hordered).1
    rw [run_concat]
    exact timed_start (run_patient.trans hpatient) hjob
      ((run_hears first).trans (hsilent first List.mem_cons_self))
      fun trouble htrouble => (clock hfresh hbefore).since_le trouble htrouble first.now hlater
  | append_singleton silent poll ih =>
    intro rest hpolls hsilent
    have hcons : earlier ++ first :: (silent ++ [poll]) = earlier ++ first :: silent ++ [poll] := by simp
    have hbefore : ∀ before ∈ first :: silent, watch.hears before jobId = false :=
      fun before hmem => hsilent before (List.mem_append_left [poll] hmem)
    have hunheard := hsilent poll (by simp)
    rw [hcons, List.append_assoc, List.singleton_append] at hpolls
    obtain ⟨watched, hjob⟩ := run_job? hpatient (earlier ++ first :: silent) hwatched
    rw [hcons, run_concat]
    rcases silent_step (run_patient.trans hpatient) hjob ((run_hears poll).trans hunheard)
        (fun hanswers => honce.settled hpolls (List.cons_ne_nil _ _) hbefore hunheard hjob
          ((run_answers poll).symm.trans hanswers))
        (ih (poll :: rest) hpolls hbefore) with hsettled | ⟨-, htimed⟩
    · exact .inl hsettled
    · exact htimed

/-- **A silence of the grace's length settles a job**, where no answer starts the clock anew. -/
theorem givesVerdict (hpatient : watch.patient = true) (hfresh : watch.line.trouble = none)
    (hwatched : ∃ watched, watch.job? jobId = some watched) (hordered : Ordered polls)
    (honce : LeftOutOnce watch polls jobId) : GivesVerdict watch polls jobId := by
  intro earlier first between last hpolls hsilent hlong
  have hcons : earlier ++ first :: (between ++ [last]) = earlier ++ first :: between ++ [last] := by simp
  rw [hcons] at hpolls
  have hbefore : ∀ before ∈ first :: between, watch.hears before jobId = false :=
    fun before hmem => hsilent before (List.mem_append_left [last] hmem)
  have hunheard := hsilent last (by simp)
  have htimed := silence_timed hpatient hfresh hwatched hordered honce between [last] hpolls hbefore
  obtain ⟨_, hwatched⟩ := hwatched
  obtain ⟨watched, hjob⟩ := run_job? hpatient (earlier ++ first :: between) hwatched
  rw [hpolls, run_concat]
  rcases silent_step (run_patient.trans hpatient) hjob ((run_hears last).trans hunheard)
      (fun hanswers => honce.settled (show _ = _ ++ last :: [] from hpolls) (List.cons_ne_nil _ _)
        hbefore hunheard hjob ((run_answers last).symm.trans hanswers)) htimed with hsettled | ⟨hshort, -⟩
  · exact hsettled
  · exact absurd hlong (not_le.mpr hshort)

/-- **A job that the host has shown is seen**, or has settled. -/
theorem seen_of_heard (hpatient : watch.patient = true) {watched : Watched}
    (hjob : (watch.run polls).job? jobId = some watched) (hwatched : ∃ first, watch.job? jobId = some first)
    (hheard : ∃ poll ∈ polls, watch.hears poll jobId = true) :
    watched.seen = true ∨ watched.settled = true := by
  obtain ⟨first, hfirst⟩ := hwatched
  induction polls using List.reverseRecOn generalizing watched with
  | nil => exact absurd hheard.choose_spec.1 List.not_mem_nil
  | append_singleton polls poll ih =>
    obtain ⟨before, hbefore⟩ := run_job? hpatient polls hfirst
    rw [run_concat] at hjob
    obtain ⟨after, hafter, hpolled⟩ := poll_job? (run_patient.trans hpatient) poll hbefore
    obtain rfl := Option.some.inj (hafter.symm.trans hjob)
    rcases hpolled with ⟨hsettled, rfl⟩ | ⟨hpending, hbecame⟩
    · exact .inr hsettled
    · cases hbecame with
      | shown => exact .inl rfl
      | unknown _ _ hsettles => exact .inr hsettles
      | leftOut _ _ hseen => exact .inl hseen
      | givenUp _ _ hsettles => exact .inr hsettles
      | waits hanswers =>
        obtain ⟨heard, hmem, hyes⟩ := hheard
        rcases List.mem_append.mp hmem with hearlier | hself
        · exact ih hbefore ⟨heard, hearlier, hyes⟩
        · rw [List.mem_singleton.mp hself] at hyes
          rw [run_answers, answers_of_hears hyes] at hanswers
          exact nomatch hanswers

/-- **No verdict is hasty.** -/
theorem neverHasty (hpatient : watch.patient = true) (hfresh : watch.line.trouble = none)
    (hwatched : ∃ watched, watch.job? jobId = some watched) (hordered : Ordered polls) :
    NeverHasty watch polls jobId := by
  intro earlier last before after hpolls hbefore hafter hnone herror hshown hfound poll hmem hrecent
  rw [hpolls] at hordered
  rw [hpolls, run_concat] at hafter
  obtain ⟨hearlier, hlater⟩ := ordered_concat.mp hordered
  obtain ⟨_, hsame, hpolled⟩ := poll_job? (run_patient.trans hpatient) last hbefore
  obtain rfl := Option.some.inj (hsame.symm.trans hafter)
  obtain ⟨-, hid⟩ := mem_of_job? hbefore
  rcases hpolled with ⟨-, rfl⟩ | ⟨hpending, hbecame⟩
  · rw [hnone] at herror
    exact nomatch herror
  · cases hbecame with
    | shown => exact absurd herror (by simp [hnone])
    | leftOut => exact absurd herror (by simp [hnone])
    | waits => exact absurd herror (by simp [hnone])
    | unknown hunheard hseen =>
      obtain ⟨shown, hin, hheard⟩ := hshown
      rw [hpolls] at hin
      rcases List.mem_append.mp hin with hin | hself
      · rcases seen_of_heard hpatient hbefore hwatched ⟨shown, hin, hheard⟩ with hyes | hyes
        · exact absurd hyes (by simp [hseen])
        · exact absurd hyes (by simp [hpending])
      · rw [List.mem_singleton.mp hself, ← hid, ← run_hears, hunheard] at hheard
        exact nomatch hheard
    | givenUp hanswers htime =>
      rw [run_answers] at hanswers
      rw [run_lost, hfound last (by simp [hpolls])] at htime
      have hgrace := htime.resolve_left Bool.false_ne_true
      by_contra hheard
      have hyes := answers_of_hears (Bool.not_eq_false _ ▸ hheard)
      rw [hpolls] at hmem
      rcases List.mem_append.mp hmem with hin | hself
      · cases htrouble : (watch.run earlier).line.trouble with
        | none =>
          -- a clock that starts now has not run for the grace
          rw [Line.since, htrouble] at hgrace
          exact absurd hgrace (by simp [troubleGraceS])
        | some trouble =>
          rw [Line.since_of htrouble] at hgrace
          have hsince : trouble.since < poll.now := by linarith
          have hquiet := (clock hfresh hearlier).quiet (all_eq_false_of hbefore hpending) trouble
            htrouble poll hin hsince
          rw [hyes] at hquiet
          exact nomatch hquiet
      · rw [List.mem_singleton.mp hself, hanswers] at hyes
        exact nomatch hyes

/-- **A host that keeps answering without a job keeps a patient wait for ever.** -/
theorem leftOut_forever (hpatient : watch.patient = true) {watched : Watched}
    (hjob : watch.job? jobId = some watched) (hseen : watched.seen = true)
    (hpending : watched.settled = false)
    (hleft : ∀ poll ∈ polls, watch.answers poll = true ∧ watch.hears poll jobId = false) :
    (watch.run polls).job? jobId = some watched := by
  obtain ⟨-, hid⟩ := mem_of_job? hjob
  induction polls using List.reverseRecOn with
  | nil => exact hjob
  | append_singleton polls poll ih =>
    rw [List.forall_mem_append, List.forall_mem_singleton] at hleft
    obtain ⟨hbefore, hanswers, hunheard⟩ := hleft
    obtain ⟨after, hafter, hpolled⟩ := poll_job? (run_patient.trans hpatient) poll (ih hbefore)
    rw [run_concat, hafter]
    rcases hpolled with ⟨hsettled, -⟩ | ⟨-, hbecame⟩
    · exact absurd hsettled (by simp [hpending])
    · cases hbecame with
      | shown hheard => exact absurd hheard (by simp [hid, hunheard])
      | unknown _ hnot => exact absurd hnot (by simp [hseen])
      | leftOut => rfl
      | waits hnot => exact absurd hnot (by simp [hanswers])
      | givenUp hnot => exact absurd hnot (by simp [hanswers])

end Verdict

/-- **A patient wait never gives a hasty verdict, and gives every job one in time whose host does not
leave it out of one answer after the other.** -/
theorem patient_verdicts (name : String) (gone : Option String) {jobIds : List String} {jobId : String}
    (hin : jobId ∈ jobIds) {polls : List Poll} (hordered : Ordered polls) :
    let watch := Watch.start name jobIds true gone
    (LeftOutOnce watch polls jobId → GivesVerdict watch polls jobId) ∧ NeverHasty watch polls jobId := by
  intro watch
  have hwatched : ∃ watched, watch.job? jobId = some watched := ⟨_, start_job? hin⟩
  exact ⟨givesVerdict rfl rfl hwatched hordered, neverHasty rfl rfl hwatched hordered⟩

/-! ### A host that shows a job and loses it -/

/-- An answer that has the job, or none. -/
def answerWith (jobs : List JobView) : Asked :=
  .answered { queue := [], running := jobs, finished := [], dispatcherAlive := true }

/-- The job is shown, left out half a minute later, and the host then cannot be asked. -/
def blip : List Poll :=
  [{ now := 0, asked := answerWith [{ jobId := "train", status := .running }]
     mirror := fun _ => .unmirrored "s3_bucket is unset" },
   { now := 30, asked := answerWith [], mirror := fun _ => .unmirrored "s3_bucket is unset" },
   { now := 400, asked := .unaskable "ssh timed out"
     mirror := fun _ => .unmirrored "s3_bucket is unset" }]

/-- The same host, answering to the end. -/
def purged : List Poll :=
  blip.take 2 ++
    [{ now := 400, asked := answerWith [], mirror := fun _ => .unmirrored "s3_bucket is unset" }]

theorem patient_verdicts_blip :
    ((Watch.start "box" ["train"]).run blip).hasSettled "train" = true ∧
      NeverHasty (Watch.start "box" ["train"]) blip "train" := by
  have hordered : Ordered blip := by
    unfold Ordered blip
    decide +kernel
  obtain ⟨hgives, hhasty⟩ :=
    patient_verdicts "box" none (List.mem_singleton_self "train") hordered
  refine ⟨?_, hhasty⟩
  refine hgives ?_ _ _ [] _ (show blip = [blip[0]] ++ blip[1] :: ([] ++ [blip[2]]) from rfl) ?_ ?_
  · intro earlier poll next later watched hpolls _ _ _ hanswers _
    match earlier with
    | [] =>
      obtain rfl := (List.cons.inj hpolls).1
      decide +kernel
    | [_] =>
      obtain rfl := (List.cons.inj (List.cons.inj (List.cons.inj hpolls).2).2).1
      exact absurd hanswers (by decide +kernel)
    | _ :: _ :: _ =>
      have hlength := congrArg List.length hpolls
      simp only [blip, List.length_append, List.length_cons, List.length_nil] at hlength
      omega
  · decide +kernel
  · decide +kernel

/-- **Lost by a host that keeps answering, the job gets no verdict.** -/
theorem purged_unsettled :
    Ordered purged ∧ ¬ GivesVerdict (Watch.start "box" ["train"]) purged "train" := by
  refine ⟨by unfold Ordered; decide +kernel, fun hgives => ?_⟩
  have hsettled := hgives _ _ [] _ (show purged = [purged[0]] ++ purged[1] :: ([] ++ [purged[2]]) from rfl)
    (by decide +kernel) (by decide +kernel)
  exact absurd hsettled (by decide +kernel)

end Gpuc.Control.Wait
