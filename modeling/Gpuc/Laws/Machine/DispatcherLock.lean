import Gpuc.Host.DispatcherLock
import Mathlib.Algebra.Order.Ring.Rat

/-!
# Who is in office, and who may be killed for it

However many dispatchers start at once, one at most holds the lock, and its file names it
(`Kept.exclusive`, `Kept.named`). A dispatcher that is starting sends SIGKILLs (`Kept.justified`): to the
group of a process that wrote the lock's file, and if that is in office, then as one that was asked to
stand down and given the whole wait for it, or as one whose last heartbeat was stale; or else it has beaten
for the first time since the heartbeat was looked at, which is the one way to kill a dispatcher that has
just won (`winner_killed`).
-/

set_option autoImplicit false

namespace Gpuc.Host.DispatcherLock

open Gpuc.Basis
open Gpuc.Control (isOtherBuild)

/-! ## What has been read so far -/

def Place.holds : Place → Bool
  | .adopting | .beaten _ | .truncated _ | .serving _ => true
  | _ => false

/-- When the process has beaten for the first time. -/
def Place.since? : Place → Option Seconds
  | .beaten since | .truncated since | .serving since => some since
  | _ => none

theorem Place.holds_of_since {place : Place} {since : Seconds} (h : place.since? = some since) :
    place.holds = true := by
  cases place with
  | beaten | truncated | serving => rfl
  | _ => cases h

/-- The body that a process is about to send a SIGKILL for. -/
def Place.Kills (place : Place) (body : LockBody) : Prop :=
  (∃ asked, place = .insisting body asked) ∨ ∃ seen looked, place = .evictingOf body seen looked

/-- The body names that process. -/
def LockBody.Names (body : LockBody) (name : Name) : Prop :=
  body.pid = some name.pid ∧ body.starttime = some name.starttime

theorem LockBody.Names.eq {body : LockBody} {name other : Name} (h : body.Names name)
    (h' : body.Names other) : name = other := by
  have hpid := Option.some.inj (h.1.symm.trans h'.1)
  have hstart := Option.some.inj (h.2.symm.trans h'.2)
  cases name
  cases other
  simp_all

/-- **What a body that was read by then says**: the process it names wrote it as it took office, and has
been in office or out of it since. -/
structure Vouched (s : State) (body : LockBody) (t : Seconds) : Prop where
  named : ∀ pid, body.pid = some pid → ∃ name ∈ s.past, body.Names name
  served : ∀ q ∈ s.processes, body.Names q.name → body = q.body s.boot ∧
    ((∃ since, since ≤ t ∧ q.place = .serving since) ∨ q.place = .left)

/-- **What a stale heartbeat says**: whoever has beaten had beaten before that, or has since. -/
structure Judged (s : State) (seen : Option Seconds) (looked : Seconds) : Prop where
  stale : ∀ beat, seen = some beat → heartbeatStaleS ≤ looked - beat
  passed : looked ≤ s.now
  beaten : ∀ q ∈ s.processes, ∀ since, q.place.since? = some since →
    (∃ beat, seen = some beat ∧ since ≤ beat) ∨ looked ≤ since

variable (w : Waits)

/-- What a process of this commit relies on where it stands. -/
def Fits (s : State) (commit : Option String) : Place → Prop
  | .looked incumbent => Vouched s incumbent s.now
  | .asking incumbent =>
    Vouched s incumbent s.now ∧ isOtherBuild incumbent.pkgCommit commit = true
  | .waiting (some (incumbent, asked)) deadline | .trying (some (incumbent, asked)) deadline =>
    Vouched s incumbent asked ∧ isOtherBuild incumbent.pkgCommit commit = true ∧
      deadline = asked + w.handoffS
  | .rechecking incumbent asked | .insisting incumbent asked =>
    Vouched s incumbent asked ∧ isOtherBuild incumbent.pkgCommit commit = true ∧
      asked + w.handoffS ≤ s.now
  | .evicting seen looked => Judged s seen looked
  | .evictingOf holder seen looked => Vouched s holder s.now ∧ Judged s seen looked
  | _ => True

structure Sound (s : State) : Prop where
  pids : ∀ p ∈ s.processes, ∀ q ∈ s.processes, p.name.pid = q.name.pid → p = q
  known : ∀ p ∈ s.processes, p.name ∈ s.past
  started : ∀ name ∈ s.past, name.starttime ≠ ""
  taken : ∀ name, s.holder = some name → name ∈ s.past
  holder : ∀ p ∈ s.processes, p.place.holds = true ↔ s.holder = some p.name
  beat : ∀ p ∈ s.processes, ∀ since, p.place.since? = some since →
    since ≤ s.now ∧ ∃ beat, s.beat = some beat ∧ since ≤ beat
  body : Vouched s s.body s.now
  serving : ∀ p ∈ s.processes, ∀ since, p.place = .serving since → s.body = p.body s.boot
  fits : ∀ p ∈ s.processes, Fits w s p.commit p.place

/-! ## What a later state keeps of it -/

section Later
variable {w} {s s' : State} {body : LockBody} {t : Seconds} {seen : Option Seconds} {looked : Seconds}

/-- A process, some steps later. -/
structure Continues (now : Seconds) (q q' : Process) : Prop where
  name : q'.name = q.name
  pgid : q'.pgid = q.pgid
  commit : q'.commit = q.commit
  serving : ∀ since, q.place = .serving since → q'.place = .serving since ∨ q'.place = .left
  left : q.place = .left → q'.place = .left
  since : ∀ since, q'.place.since? = some since → q.place.since? = some since ∨ now ≤ since

theorem Continues.body_eq {now : Seconds} {q q' : Process} (h : Continues now q q') (boot : Boot) :
    q'.body boot = q.body boot := by
  rw [Process.body, Process.body, h.name, h.pgid, h.commit]

/-- What has changed from one state to a later one, whoever took the steps. -/
structure Later (s s' : State) : Prop where
  boot : s'.boot = s.boot
  now : s.now ≤ s'.now
  past : ∀ name ∈ s.past, name ∈ s'.past
  process : ∀ q' ∈ s'.processes, (q'.name ∉ s.past ∧ q'.place.since? = none) ∨
    ∃ q ∈ s.processes, Continues s.now q q'

theorem Vouched.mono {t' : Seconds} (h : Vouched s body t) (hle : t ≤ t') : Vouched s body t' where
  named := h.named
  served q hq hnames := by
    obtain ⟨hbody, ⟨since, hsince, hplace⟩ | hleft⟩ := h.served q hq hnames
    · exact ⟨hbody, .inl ⟨since, hsince.trans hle, hplace⟩⟩
    · exact ⟨hbody, .inr hleft⟩

theorem Vouched.later (h : Vouched s body t) (hlater : Later s s') : Vouched s' body t where
  named pid hpid := by
    obtain ⟨name, hname, hnames⟩ := h.named pid hpid
    exact ⟨name, hlater.past name hname, hnames⟩
  served q' hq' hnames := by
    obtain ⟨hnew, -⟩ | ⟨q, hq, hcontinues⟩ := hlater.process q' hq'
    · obtain ⟨name, hpast, hnames'⟩ := h.named _ hnames.1
      exact absurd (hnames'.eq hnames ▸ hpast) hnew
    · rw [hcontinues.name] at hnames
      obtain ⟨hbody, ⟨since, hsince, hplace⟩ | hleft⟩ := h.served q hq hnames
      · refine ⟨by rw [hlater.boot, hcontinues.body_eq, hbody], ?_⟩
        obtain hserving | hleft := hcontinues.serving since hplace
        · exact .inl ⟨since, hsince, hserving⟩
        · exact .inr hleft
      · exact ⟨by rw [hlater.boot, hcontinues.body_eq, hbody], .inr (hcontinues.left hleft)⟩

theorem Judged.later (h : Judged s seen looked) (hlater : Later s s') : Judged s' seen looked where
  stale := h.stale
  passed := h.passed.trans hlater.now
  beaten q' hq' since hsince := by
    obtain ⟨-, hnone⟩ | ⟨q, hq, hcontinues⟩ := hlater.process q' hq'
    · rw [hnone] at hsince
      cases hsince
    · obtain hbefore | hafter := hcontinues.since since hsince
      · exact h.beaten q hq since hbefore
      · exact .inr (h.passed.trans hafter)

theorem Fits.later {commit : Option String} {place : Place} (h : Fits w s commit place)
    (hlater : Later s s') : Fits w s' commit place := by
  cases place with
  | looked incumbent => exact (Vouched.later h hlater).mono hlater.now
  | asking incumbent => exact ⟨(Vouched.later h.1 hlater).mono hlater.now, h.2⟩
  | waiting asked deadline | trying asked deadline =>
    cases asked with
    | none => trivial
    | some asked => exact ⟨Vouched.later h.1 hlater, h.2⟩
  | rechecking incumbent asked | insisting incumbent asked =>
    exact ⟨Vouched.later h.1 hlater, h.2.1, h.2.2.trans hlater.now⟩
  | evicting seen looked => exact Judged.later h hlater
  | evictingOf holder seen looked =>
    exact ⟨(Vouched.later h.1 hlater).mono hlater.now, Judged.later h.2 hlater⟩
  | _ => trivial

end Later

/-! ## Every step keeps it -/

section Steps
variable {w} {s : State} {p : Process}

theorem Sound.eq_of_name (h : Sound w s) {q : Process} (hp : p ∈ s.processes) (hq : q ∈ s.processes)
    (hname : p.name = q.name) : p = q :=
  h.pids p hp q hq (by rw [hname])

theorem mem_of_find {name : Name} (h : s.find? name = some p) : p ∈ s.processes ∧ p.name = name :=
  ⟨List.mem_of_find?_eq_some h, by simpa using List.find?_some h⟩

/-- The process that goes there, and the others as they were. -/
theorem Sound.mem_goTo (h : Sound w s) (hp : p ∈ s.processes) {place : Place} {q' : Process}
    (hq' : q' ∈ (s.goTo p.name place).processes) :
    q' = p.goTo place ∨ (q' ∈ s.processes ∧ q'.name ≠ p.name) := by
  obtain ⟨q, hq, rfl⟩ := List.mem_map.mp hq'
  by_cases hname : q.name = p.name
  · obtain rfl := h.eq_of_name hq hp hname
    exact .inl (if_pos rfl)
  · rw [if_neg hname]
    exact .inr ⟨hq, hname⟩

/-- A place that the process may have come to from its own. -/
structure Onwards (now : Seconds) (place place' : Place) : Prop where
  serving : ∀ since, place = .serving since → place' = .serving since ∨ place' = .left
  left : place = .left → place' = .left
  since : ∀ since, place'.since? = some since → place.since? = some since ∨ now ≤ since

theorem later_goTo (h : Sound w s) (hp : p ∈ s.processes) {place : Place}
    (honwards : Onwards s.now p.place place) (s' : State)
    (hs' : s'.processes = (s.goTo p.name place).processes) (hboot : s'.boot = s.boot)
    (hnow : s'.now = s.now) (hpast : s'.past = s.past) : Later s s' where
  boot := hboot
  now := hnow.ge
  past name hname := hpast ▸ hname
  process q' hq' := by
    rw [hs'] at hq'
    obtain rfl | ⟨hq, -⟩ := h.mem_goTo hp hq'
    · exact .inr ⟨p, hp, rfl, rfl, rfl, honwards.serving, honwards.left, honwards.since⟩
    · exact .inr ⟨q', hq, rfl, rfl, rfl, fun _ => .inl, id, fun _ => .inl⟩

/-- **One process goes somewhere, with what it does to what is shared.** -/
theorem Sound.goes_to (h : Sound w s) (hp : p ∈ s.processes) (place : Place) (s' : State)
    (hs' : s'.processes = (s.goTo p.name place).processes) (hboot : s'.boot = s.boot)
    (hnow : s'.now = s.now) (hpast : s'.past = s.past) (honwards : Onwards s.now p.place place)
    (htaken : ∀ name, s'.holder = some name → name = p.name ∨ s.holder = some name)
    (hself : place.holds = true ↔ s'.holder = some p.name)
    (hothers : ∀ q ∈ s.processes, q.name ≠ p.name →
      (s'.holder = some q.name ↔ s.holder = some q.name) ∧
        (q.place.holds = true → s'.beat = s.beat ∧ s'.body = s.body))
    (hbeat : ∀ since, place.since? = some since → since ≤ s.now ∧ ∃ beat, s'.beat = some beat ∧ since ≤ beat)
    (hbody : Vouched s' s'.body s.now)
    (hserving : ∀ since, place = .serving since → s'.body = p.body s.boot)
    (hfits : Fits w s' p.commit place) : Sound w s' := by
  have hlater := later_goTo h hp honwards s' hs' hboot hnow hpast
  have hmem : ∀ q' ∈ s'.processes, q' = p.goTo place ∨ (q' ∈ s.processes ∧ q'.name ≠ p.name) :=
    fun q' hq' => h.mem_goTo hp (hs' ▸ hq')
  refine ⟨?_, ?_, hpast ▸ h.started, ?_, ?_, ?_, hnow ▸ hbody, ?_, ?_⟩
  · intro a ha b hb hpid
    obtain rfl | ⟨ha, hane⟩ := hmem a ha
    · obtain rfl | ⟨hb, hbne⟩ := hmem b hb
      · rfl
      · exact absurd (congrArg Process.name (h.pids b hb p hp hpid.symm)) hbne
    · obtain rfl | ⟨hb, -⟩ := hmem b hb
      · exact absurd (congrArg Process.name (h.pids a ha p hp hpid)) hane
      · exact h.pids a ha b hb hpid
  · intro q' hq'
    rw [hpast]
    obtain rfl | ⟨hq, -⟩ := hmem q' hq'
    · exact h.known p hp
    · exact h.known q' hq
  · intro name hname
    rw [hpast]
    obtain rfl | hname := htaken name hname
    · exact h.known p hp
    · exact h.taken name hname
  · intro q' hq'
    obtain rfl | ⟨hq, hne⟩ := hmem q' hq'
    · exact hself
    · rw [(hothers q' hq hne).1]
      exact h.holder q' hq
  · intro q' hq' since hsince
    rw [hnow]
    obtain rfl | ⟨hq, hne⟩ := hmem q' hq'
    · exact hbeat since hsince
    · rw [((hothers q' hq hne).2 (Place.holds_of_since hsince)).1]
      exact h.beat q' hq since hsince
  · intro q' hq' since hplace
    rw [hboot]
    obtain rfl | ⟨hq, hne⟩ := hmem q' hq'
    · exact hserving since hplace
    · rw [((hothers q' hq hne).2 (by rw [hplace]; rfl)).2]
      exact h.serving q' hq since hplace
  · intro q' hq'
    obtain rfl | ⟨hq, -⟩ := hmem q' hq'
    · exact hfits
    · exact (h.fits q' hq).later hlater

/-- **One process goes on that has not taken the lock**, by what it has read. -/
theorem Sound.walks (h : Sound w s) (hp : p ∈ s.processes) {place : Place}
    (hfrom : p.place.holds = false) (hleft : p.place ≠ .left) (hto : place.holds = false)
    (hfits : Fits w s p.commit place) : Sound w (s.goTo p.name place) := by
  have honwards : Onwards s.now p.place place := by
    refine ⟨fun since hserving => ?_, fun h => absurd h hleft, fun since hsince => ?_⟩
    · rw [hserving] at hfrom
      cases hfrom
    · rw [Place.holds_of_since hsince] at hto
      cases hto
  have hlater := later_goTo h hp honwards (s.goTo p.name place) rfl rfl rfl rfl
  refine h.goes_to hp place _ rfl rfl rfl rfl honwards (fun _ => .inr) ?_ ?_ ?_ (h.body.later hlater) ?_
    (hfits.later hlater)
  · have hholder := h.holder p hp
    rw [hfrom] at hholder
    rw [hto]
    exact hholder
  · exact fun q _ _ => ⟨Iff.rfl, fun _ => ⟨rfl, rfl⟩⟩
  · intro since hsince
    rw [Place.holds_of_since hsince] at hto
    cases hto
  · intro since hserving
    rw [hserving] at hto
    cases hto

/-- **The processes there still are, some time later**, with the lock where it was among them. -/
theorem Sound.stays (h : Sound w s) {s' : State} (hboot : s'.boot = s.boot) (hnow : s.now ≤ s'.now)
    (hpast : s'.past = s.past) (hbeat : s'.beat = s.beat) (hbody : s'.body = s.body)
    (hmem : ∀ q' ∈ s'.processes, ∃ q ∈ s.processes, q'.name = q.name ∧ q'.pgid = q.pgid ∧
      q'.commit = q.commit ∧ q'.place = q.place)
    (hpids : ∀ p ∈ s'.processes, ∀ q ∈ s'.processes, p.name.pid = q.name.pid → p = q)
    (htaken : ∀ name, s'.holder = some name → s.holder = some name)
    (hholder : ∀ q' ∈ s'.processes, s'.holder = some q'.name ↔ s.holder = some q'.name) :
    Sound w s' := by
  have hlater : Later s s' := by
    refine ⟨hboot, hnow, fun name hname => hpast ▸ hname, fun q' hq' => ?_⟩
    obtain ⟨q, hq, hname, hpgid, hcommit, hplace⟩ := hmem q' hq'
    exact .inr ⟨q, hq, hname, hpgid, hcommit, fun since hs => .inl (hplace ▸ hs), fun hs => hplace ▸ hs,
      fun since hs => .inl (hplace ▸ hs)⟩
  refine ⟨hpids, ?_, hpast ▸ h.started, fun name hname => hpast ▸ h.taken name (htaken name hname), ?_, ?_,
    ?_, ?_, ?_⟩
  · intro q' hq'
    obtain ⟨q, hq, hname, -⟩ := hmem q' hq'
    exact hpast ▸ hname ▸ h.known q hq
  · intro q' hq'
    obtain ⟨q, hq, hname, -, -, hplace⟩ := hmem q' hq'
    rw [hholder q' hq', hplace, hname]
    exact h.holder q hq
  · intro q' hq' since hsince
    obtain ⟨q, hq, -, -, -, hplace⟩ := hmem q' hq'
    obtain ⟨hle, hlast⟩ := h.beat q hq since (hplace ▸ hsince)
    exact ⟨hle.trans hnow, hbeat ▸ hlast⟩
  · exact hbody ▸ (h.body.later hlater).mono hnow
  · intro q' hq' since hserving
    obtain ⟨q, hq, hname, hpgid, hcommit, hplace⟩ := hmem q' hq'
    have hsame : q'.body s'.boot = q.body s.boot := by
      rw [Process.body, Process.body, hname, hpgid, hcommit, hboot]
    rw [hbody, hsame]
    exact h.serving q hq since (hplace ▸ hserving)
  · intro q' hq'
    obtain ⟨q, hq, -, -, hcommit, hplace⟩ := hmem q' hq'
    rw [hcommit, hplace]
    exact (h.fits q hq).later hlater

theorem Sound.dooms (h : Sound w s) (pgid : Nat) : Sound w (s.dooms pgid) := by
  have hmem : ∀ q' ∈ (s.dooms pgid).processes, ∃ q ∈ s.processes,
      q' = if q.pgid = pgid then { q with doomed := true } else q := by
    intro q' hq'
    obtain ⟨q, hq, rfl⟩ := List.mem_map.mp hq'
    exact ⟨q, hq, rfl⟩
  refine h.stays rfl (le_refl _) rfl rfl rfl (fun q' hq' => ?_) (fun a ha b hb hpid => ?_) (fun _ => id)
    fun _ _ => Iff.rfl
  · obtain ⟨q, hq, rfl⟩ := hmem q' hq'
    refine ⟨q, hq, ?_⟩
    split <;> exact ⟨rfl, rfl, rfl, rfl⟩
  · obtain ⟨c, hc, rfl⟩ := hmem a ha
    obtain ⟨d, hd, rfl⟩ := hmem b hb
    have hsame : c.name.pid = d.name.pid := by
      split at hpid <;> split at hpid <;> exact hpid
    rw [h.pids c hc d hd hsame]

theorem Sound.passes (h : Sound w s) {d : Seconds} (hd : 0 ≤ d) :
    Sound w { s with now := s.now + d } :=
  h.stays rfl (le_add_of_nonneg_right hd) rfl rfl rfl
    (fun q hq => ⟨q, hq, rfl, rfl, rfl, rfl⟩) h.pids (fun _ => id) fun _ _ => Iff.rfl

theorem Sound.dies (h : Sound w s) (name : Name) :
    Sound w { s with
      processes := s.processes.filter fun p => p.name ≠ name
      holder := s.holder.filter fun holder => holder ≠ name } := by
  have hmem : ∀ q ∈ s.processes.filter (fun p => p.name ≠ name), q ∈ s.processes ∧ q.name ≠ name := by
    intro q hq
    rw [List.mem_filter, decide_eq_true_eq] at hq
    exact hq
  refine h.stays rfl (le_refl _) rfl rfl rfl (fun q hq => ⟨q, (hmem q hq).1, rfl, rfl, rfl, rfl⟩)
    (fun a ha b hb => h.pids a (hmem a ha).1 b (hmem b hb).1)
    (fun name hname => (Option.filter_eq_some_iff.mp hname).1) fun q hq => ?_
  simp only [Option.filter_eq_some_iff, decide_eq_true_eq]
  exact ⟨And.left, fun hholder => ⟨hholder, (hmem q hq).2⟩⟩

theorem Sound.starts (h : Sound w s) {p : Process} (hstarts : s.mayStart p.name = true)
    (hholds : p.place.holds = false) (hfits : ∀ s', Fits w s' p.commit p.place) : Sound w (s.starts p) := by
  rw [State.mayStart, Bool.and_eq_true, Bool.and_eq_true, decide_eq_true_eq, decide_eq_true_eq,
    List.all_eq_true] at hstarts
  obtain ⟨⟨hnew, hstarttime⟩, hpid⟩ := hstarts
  have hpid : ∀ q ∈ s.processes, q.name.pid ≠ p.name.pid := fun q hq => of_decide_eq_true (hpid q hq)
  have hnone : p.place.since? = none := by
    cases hsince : p.place.since? with
    | none => rfl
    | some since =>
      rw [Place.holds_of_since hsince] at hholds
      cases hholds
  have hlater : Later s (s.starts p) := by
    refine ⟨rfl, le_refl _, fun name hname => List.mem_cons_of_mem _ hname, fun q hq => ?_⟩
    obtain rfl | hq := List.mem_cons.mp hq
    · exact .inl ⟨hnew, hnone⟩
    · exact .inr ⟨q, hq, rfl, rfl, rfl, fun _ => .inl, id, fun _ => .inl⟩
  refine ⟨?_, ?_, ?_, ?_, ?_, ?_, h.body.later hlater, ?_, ?_⟩
  · intro a ha b hb hab
    obtain ha | ha := List.mem_cons.mp ha
    · obtain hb | hb := List.mem_cons.mp hb
      · rw [ha, hb]
      · exact absurd (ha ▸ hab).symm (hpid b hb)
    · obtain hb | hb := List.mem_cons.mp hb
      · exact absurd (hb ▸ hab) (hpid a ha)
      · exact h.pids a ha b hb hab
  · intro q hq
    obtain rfl | hq := List.mem_cons.mp hq
    · exact List.mem_cons_self
    · exact List.mem_cons_of_mem _ (h.known q hq)
  · intro name hname
    obtain rfl | hname := List.mem_cons.mp hname
    · exact hstarttime
    · exact h.started name hname
  · exact fun name hname => List.mem_cons_of_mem _ (h.taken name hname)
  · intro q hq
    obtain rfl | hq := List.mem_cons.mp hq
    · rw [hholds]
      exact ⟨fun h => Bool.noConfusion h, fun hholder => absurd (h.taken _ hholder) hnew⟩
    · exact h.holder q hq
  · intro q hq since hsince
    obtain rfl | hq := List.mem_cons.mp hq
    · rw [hnone] at hsince
      cases hsince
    · exact h.beat q hq since hsince
  · intro q hq since hserving
    obtain rfl | hq := List.mem_cons.mp hq
    · rw [hserving] at hholds
      cases hholds
    · exact h.serving q hq since hserving
  · intro q hq
    obtain rfl | hq := List.mem_cons.mp hq
    · exact hfits _
    · exact (h.fits q hq).later hlater

/-- Nobody else has the lock. -/
theorem Sound.alone (h : Sound w s) (hp : p ∈ s.processes) (hholds : p.place.holds = true) {q : Process}
    (hq : q ∈ s.processes) (hne : q.name ≠ p.name) : q.place.holds = false := by
  have hholder := (h.holder p hp).mp hholds
  cases hholds' : q.place.holds with
  | false => rfl
  | true =>
    have hother := (h.holder q hq).mp hholds'
    exact absurd (Option.some.inj (hother.symm.trans hholder)) hne

/-- One that tries a lock that is free takes it. -/
theorem Sound.takes (h : Sound w s) (hp : p ∈ s.processes) (hfree : s.holder = none)
    (hleft : p.place ≠ .left) :
    Sound w (s.takes p.name) := by
  have hnot : p.place.holds = false := by
    cases hholds : p.place.holds with
    | false => rfl
    | true =>
      have hholder := (h.holder p hp).mp hholds
      rw [hfree] at hholder
      cases hholder
  have honwards : Onwards s.now p.place .adopting := by
    refine ⟨fun since hserving => ?_, fun h => absurd h hleft, fun since hsince => by cases hsince⟩
    rw [hserving] at hnot
    cases hnot
  have hlater := later_goTo h hp honwards (s.takes p.name) rfl rfl rfl rfl
  refine h.goes_to hp .adopting _ rfl rfl rfl rfl honwards (fun name hname => ?_) ?_ (fun q hq hne => ?_)
    (fun since hsince => by cases hsince) (h.body.later hlater) (fun since hs => by cases hs) trivial
  · exact .inl (Option.some.inj hname).symm
  · exact ⟨fun _ => rfl, fun _ => rfl⟩
  · refine ⟨?_, fun _ => ⟨rfl, rfl⟩⟩
    rw [hfree]
    exact ⟨fun heq => absurd (Option.some.inj heq).symm hne, fun heq => by cases heq⟩

/-- **What the holder does to what is shared**, on its way into office. -/
theorem Sound.adopts (h : Sound w s) (hp : p ∈ s.processes) {place : Place} {s' : State}
    (hfrom : p.place.holds = true) (hto : place.holds = true) (hs' : s'.processes = (s.goTo p.name place).processes)
    (hboot : s'.boot = s.boot) (hnow : s'.now = s.now) (hpast : s'.past = s.past)
    (hholder : s'.holder = s.holder) (hnot : ∀ since, p.place ≠ .serving since)
    (hsince : ∀ since, place.since? = some since → p.place.since? = some since ∨ since = s.now)
    (hbeat : ∀ since, place.since? = some since → ∃ beat, s'.beat = some beat ∧ since ≤ beat)
    (hbody : Vouched s' s'.body s.now)
    (hserving : ∀ since, place = .serving since → s'.body = p.body s.boot)
    (hfits : Fits w s' p.commit place) : Sound w s' := by
  have honwards : Onwards s.now p.place place := by
    refine ⟨fun since hs => absurd hs (hnot since), fun hleft => ?_, fun since hs => ?_⟩
    · rw [hleft] at hfrom
      cases hfrom
    · exact (hsince since hs).imp_right Eq.ge
  refine h.goes_to hp place _ hs' hboot hnow hpast honwards (fun name hname => .inr (hholder ▸ hname)) ?_
    (fun q hq hne => ?_) (fun since hs => ⟨?_, hbeat since hs⟩) hbody hserving hfits
  · rw [hto, hholder, ← h.holder p hp, hfrom]
  · rw [hholder]
    refine ⟨Iff.rfl, fun hholds => ?_⟩
    rw [h.alone hp hfrom hq hne] at hholds
    cases hholds
  · obtain hbefore | rfl := hsince since hs
    · exact (h.beat p hp since hbefore).1
    · exact le_refl _

theorem Sound.firstBeat (h : Sound w s) (hp : p ∈ s.processes) (hplace : p.place = .adopting) :
    Sound w (s.firstBeat p.name) := by
  have hnot : ∀ since, p.place ≠ .serving since := fun since hs => by rw [hplace] at hs; cases hs
  have honwards : Onwards s.now p.place (.beaten s.now) := by
    refine ⟨fun since hs => absurd hs (hnot since), fun hs => ?_, fun since hs => .inr (Option.some.inj hs).le⟩
    rw [hplace] at hs
    cases hs
  have hlater := later_goTo h hp honwards (s.firstBeat p.name) rfl rfl rfl rfl
  refine h.adopts hp (by rw [hplace]; rfl) rfl rfl rfl rfl rfl rfl hnot (fun since hs => ?_) (fun since hs => ?_)
    (h.body.later hlater) (fun since hs => by cases hs) trivial
  · exact .inr (Option.some.inj hs).symm
  · exact ⟨s.now, rfl, (Option.some.inj hs).ge⟩

theorem Sound.truncates (h : Sound w s) (hp : p ∈ s.processes) {since : Seconds}
    (hplace : p.place = .beaten since) :
    Sound w (s.truncates p.name since) := by
  have hnot : ∀ t, p.place ≠ .serving t := fun t hs => by rw [hplace] at hs; cases hs
  have hfrom : p.place.since? = some since := by rw [hplace]; rfl
  refine h.adopts hp (by rw [hplace]; rfl) rfl rfl rfl rfl rfl rfl hnot (fun t hs => ?_) (fun t hs => ?_)
    ⟨(fun pid hpid => by cases hpid), fun q _ hnames => by cases hnames.1⟩ (fun t hs => by cases hs) trivial
  · exact .inl (hs ▸ hfrom)
  · exact Option.some.inj hs ▸ (h.beat p hp since hfrom).2

theorem Sound.writes (h : Sound w s) (hp : p ∈ s.processes) {since : Seconds}
    (hplace : p.place = .truncated since) :
    Sound w (s.writes p since) := by
  have hnot : ∀ t, p.place ≠ .serving t := fun t hs => by rw [hplace] at hs; cases hs
  have hfrom : p.place.since? = some since := by rw [hplace]; rfl
  refine h.adopts hp (by rw [hplace]; rfl) rfl rfl rfl rfl rfl rfl hnot (fun t hs => ?_) (fun t hs => ?_)
    ⟨fun pid hpid => ⟨p.name, h.known p hp, rfl, rfl⟩, fun q hq hnames => ?_⟩ (fun _ _ => rfl) trivial
  · exact .inl (hs ▸ hfrom)
  · exact Option.some.inj hs ▸ (h.beat p hp since hfrom).2
  · obtain rfl | ⟨-, hne⟩ := h.mem_goTo hp hq
    · exact ⟨rfl, .inl ⟨since, (h.beat p hp since hfrom).1, rfl⟩⟩
    · have hself : (p.body s.boot).Names p.name := ⟨rfl, rfl⟩
      exact absurd (hnames.eq hself) hne

theorem Sound.beats (h : Sound w s) : Sound w { s with beat := some s.now } := by
  have hlater : Later s { s with beat := some s.now } :=
    ⟨rfl, le_refl _, fun _ => id, fun q hq => .inr ⟨q, hq, rfl, rfl, rfl, fun _ => .inl, id, fun _ => .inl⟩⟩
  refine ⟨h.pids, h.known, h.started, h.taken, h.holder, fun q hq since hs => ?_, h.body.later hlater, h.serving,
    fun q hq => (h.fits q hq).later hlater⟩
  have hle := (h.beat q hq since hs).1
  exact ⟨hle, s.now, rfl, hle⟩

theorem Sound.releases (h : Sound w s) (hp : p ∈ s.processes) {since : Seconds}
    (hplace : p.place = .serving since) : Sound w (s.releases p.name) := by
  have hholds : p.place.holds = true := by rw [hplace]; rfl
  have honwards : Onwards s.now p.place .left :=
    ⟨fun _ _ => .inr rfl, fun _ => rfl, fun since hs => by cases hs⟩
  have hlater := later_goTo h hp honwards (s.releases p.name) rfl rfl rfl rfl
  refine h.goes_to hp .left _ rfl rfl rfl rfl honwards (fun name hname => by cases hname) ?_
    (fun q hq hne => ⟨?_, fun _ => ⟨rfl, rfl⟩⟩) (fun since hs => by cases hs) (h.body.later hlater)
    (fun since hs => by cases hs) trivial
  · exact ⟨(fun h => Bool.noConfusion h), fun h => by cases h⟩
  · rw [← h.holder q hq, h.alone hp hholds hq hne]
    exact ⟨(fun h => by cases h), fun h => Bool.noConfusion h⟩

/-! ## Who is signalled -/

/-- **What a body's process must be to be signalled**: one that wrote it, and leads a group of its own. -/
structure Leads (s : State) (p leader : Process) (body : LockBody) (t : Seconds) : Prop where
  mem : leader ∈ s.processes
  gpuc : leader.gpuc = true
  leads : leader.pgid = leader.name.pid
  notSelf : leader.pgid ≠ p.pgid ∧ leader.name ≠ p.name
  wrote : body = leader.body s.boot
  served : (∃ since, since ≤ t ∧ leader.place = .serving since) ∨ leader.place = .left

theorem known_some {text : String} (h : text ≠ "") : known (some text) = some text := by
  rw [known, Option.filter_some, decide_eq_true h, if_pos rfl]

/-- A pid that was reused is told by its start time. -/
theorem Sound.alive (h : Sound w s) {name : Name} {bootId initStart : Option String} (hpast : name ∈ s.past)
    (halive : ¬ recordedProcessAlive s.boot s.identities (some name.pid) bootId (some name.starttime) initStart
      = false) : ∃ q ∈ s.processes, q.name = name := by
  rw [Bool.not_eq_false, recordedProcessAlive, Option.bind_some] at halive
  split at halive
  · cases halive
  · next process hfind =>
    obtain ⟨q, hq, rfl⟩ := List.mem_map.mp (List.mem_of_find?_eq_some hfind)
    have hpid : q.name.pid = name.pid := by simpa using List.find?_some hfind
    refine ⟨q, hq, ?_⟩
    rw [known_some (h.started name hpast), known_some (h.started q.name (h.known q hq))] at halive
    split at halive
    · cases halive
    · have hstart : name.starttime = q.name.starttime := of_decide_eq_true halive
      cases name
      cases hname : q.name
      rw [hname] at hpid hstart
      simp_all

theorem Sound.signalable (h : Sound w s) {body : LockBody} {t : Seconds} {pgid : Nat}
    (hvouched : Vouched s body t) (hpgid : s.signalablePgid p body = some pgid) :
    ∃ leader, leader.pgid = pgid ∧ Leads s p leader body t := by
  unfold State.signalablePgid at hpgid
  cases hpid : body.pid with
  | none =>
    rw [hpid] at hpgid
    cases hpgid
  | some pid =>
    rw [hpid] at hpgid
    dsimp only at hpgid
    split_ifs at hpgid with halive hgpuc hgroup hself
    obtain rfl := Option.some.inj hpgid
    obtain ⟨name, hpast, hnames⟩ := hvouched.named pid hpid
    have hname : name.pid = pid := Option.some.inj (hnames.1.symm.trans hpid)
    obtain ⟨leader, hmem, hleader⟩ := h.alive hpast (hname ▸ hnames.2 ▸ halive)
    obtain ⟨hwrote, hserved⟩ := hvouched.served leader hmem (hleader ▸ hnames)
    have hleads : leader.pgid = leader.name.pid := by
      rw [not_not, hwrote, Process.body] at hgroup
      dsimp only at hgroup
      split at hgroup
      · next hleads => exact hleads
      · cases hgroup
    rw [not_or] at hself
    refine ⟨leader, by rw [hleads, hleader, hname], hmem, ?_, hleads, ⟨?_, fun heq => ?_⟩, hwrote, hserved⟩
    · rw [Bool.not_eq_false, State.isGpucProcess, List.any_eq_true] at hgpuc
      obtain ⟨q, hq, hsame⟩ := hgpuc
      rw [Bool.and_eq_true, decide_eq_true_eq] at hsame
      have heq := h.pids q hq leader hmem (by rw [hsame.1, hleader, hname])
      exact heq ▸ hsame.2
    · rw [hleads, hleader, hname]
      exact hself.1
    · exact hself.2 (by rw [← heq, hleader, hname])

/-- What a SIGKILL leaves of the process that sent it. -/
theorem kills_self (hp : p ∈ s.processes) (body : LockBody) :
    ∃ p' ∈ (s.kills p body).processes, p'.name = p.name ∧ p'.commit = p.commit ∧ p'.place = p.place := by
  unfold State.kills
  split
  · exact ⟨p, hp, rfl, rfl, rfl⟩
  · next pgid =>
    refine ⟨_, List.mem_map_of_mem hp, ?_⟩
    split <;> exact ⟨rfl, rfl, rfl⟩

theorem Sound.kills (h : Sound w s) (body : LockBody) : Sound w (s.kills p body) := by
  unfold State.kills
  split
  · exact h
  · exact h.dooms _

/-- One that has sent its SIGKILL waits for the lock. -/
theorem Sound.insists (h : Sound w s) (hp : p ∈ s.processes) (body : LockBody) (deadline : Seconds)
    (hfrom : p.place.holds = false) (hleft : p.place ≠ .left) :
    Sound w ((s.kills p body).goTo p.name (.waiting none deadline)) := by
  obtain ⟨p', hp', hname, -, hplace⟩ := kills_self hp body
  rw [← hname]
  exact (h.kills body).walks hp' (hplace ▸ hfrom) (hplace ▸ hleft) rfl trivial

theorem sound_goes (h : Sound w s) (hp : p ∈ s.processes) {s' : State} (hgoes : goes w s p = some s') :
    Sound w s' := by
  have hfits := h.fits p hp
  unfold goes at hgoes
  cases hplace : p.place with
  | foreign | serving | left =>
    rw [hplace] at hgoes
    cases hgoes
  | opened =>
    rw [hplace] at hgoes
    dsimp only at hgoes
    split at hgoes
    · next hfree =>
      cases hgoes
      exact h.takes hp hfree (by simp [hplace])
    · cases hgoes
      exact h.walks hp (by rw [hplace]; rfl) (by simp [hplace]) rfl trivial
  | refused =>
    rw [hplace] at hgoes
    cases hgoes
    exact h.walks hp (by rw [hplace]; rfl) (by simp [hplace]) rfl h.body
  | looked incumbent =>
    rw [hplace] at hgoes hfits
    dsimp only at hgoes
    have hwalks : ∀ {place : Place}, place.holds = false → Fits w s p.commit place →
        Sound w (s.goTo p.name place) :=
      h.walks hp (by rw [hplace]; rfl) (by simp [hplace])
    split at hgoes
    · split at hgoes
      · next hother =>
        cases hgoes
        exact hwalks rfl ⟨hfits, hother⟩
      · cases hgoes
        exact hwalks rfl trivial
    · next hstale =>
      cases hgoes
      refine hwalks rfl ⟨fun beat hbeat => ?_, le_refl _, fun q hq since hsince => ?_⟩
      · rw [State.holderIsFresh, hbeat, decide_eq_true_eq, not_lt] at hstale
        exact hstale
      · exact .inl (h.beat q hq since hsince).2
  | asking incumbent =>
    rw [hplace] at hgoes hfits
    dsimp only at hgoes
    split at hgoes
    · cases hgoes
      exact h.walks hp (by rw [hplace]; rfl) (by simp [hplace]) rfl trivial
    · cases hgoes
      exact h.walks hp (by rw [hplace]; rfl) (by simp [hplace]) rfl ⟨hfits.1, hfits.2, rfl⟩
  | waiting asked deadline =>
    rw [hplace] at hgoes hfits
    dsimp only at hgoes
    have hwalks : ∀ {place : Place}, place.holds = false → Fits w s p.commit place →
        Sound w (s.goTo p.name place) :=
      h.walks hp (by rw [hplace]; rfl) (by simp [hplace])
    split at hgoes
    · cases hgoes
      cases asked with
      | none => exact hwalks rfl trivial
      | some asked => exact hwalks rfl hfits
    · next hover =>
      split at hgoes
      · cases hgoes
        exact hwalks rfl ⟨hfits.1, hfits.2.1, hfits.2.2 ▸ not_lt.mp hover⟩
      · cases hgoes
        exact hwalks rfl trivial
  | trying asked deadline =>
    rw [hplace] at hgoes hfits
    dsimp only at hgoes
    split at hgoes
    · next hfree =>
      cases hgoes
      exact h.takes hp hfree (by simp [hplace])
    · cases hgoes
      refine h.walks hp (by rw [hplace]; rfl) (by simp [hplace]) rfl ?_
      cases asked with
      | none => trivial
      | some asked => exact hfits
  | rechecking incumbent asked =>
    rw [hplace] at hgoes hfits
    dsimp only at hgoes
    have hwalks : ∀ {place : Place}, place.holds = false → Fits w s p.commit place →
        Sound w (s.goTo p.name place) :=
      h.walks hp (by rw [hplace]; rfl) (by simp [hplace])
    split at hgoes
    · cases hgoes
      exact hwalks rfl hfits
    · cases hgoes
      exact hwalks rfl trivial
  | insisting incumbent asked =>
    rw [hplace] at hgoes
    cases hgoes
    exact h.insists hp incumbent _ (by rw [hplace]; rfl) (by simp [hplace])
  | evicting seen looked =>
    rw [hplace] at hgoes hfits
    cases hgoes
    exact h.walks hp (by rw [hplace]; rfl) (by simp [hplace]) rfl ⟨h.body, hfits⟩
  | evictingOf holder seen looked =>
    rw [hplace] at hgoes
    cases hgoes
    exact h.insists hp holder _ (by rw [hplace]; rfl) (by simp [hplace])
  | adopting =>
    rw [hplace] at hgoes
    cases hgoes
    exact h.firstBeat hp hplace
  | beaten since =>
    rw [hplace] at hgoes
    cases hgoes
    exact h.truncates hp hplace
  | truncated since =>
    rw [hplace] at hgoes
    cases hgoes
    exact h.writes hp hplace

theorem sound_step {l : Label} {s' : State} (h : Sound w s) (hstep : step w s l = some s') :
    Sound w s' := by
  cases l with
  | passes d =>
    rw [step] at hstep
    split at hstep
    · next hd =>
      cases hstep
      exact h.passes hd
    · cases hstep
  | spawns | spawnsDispatcher =>
    rw [step] at hstep
    split at hstep
    · next hmay =>
      cases hstep
      exact h.starts hmay rfl fun _ => trivial
    · cases hstep
  | dies name =>
    cases hstep
    exact h.dies name
  | goes name =>
    rw [step] at hstep
    split at hstep
    · cases hstep
    · next p hfind =>
      split at hstep
      · cases hstep
      · exact sound_goes h (mem_of_find hfind).1 hstep
  | beats name =>
    rw [step] at hstep
    split at hstep
    · cases hstep
    · split at hstep
      · split at hstep
        · cases hstep
        · cases hstep
          exact h.beats
      · cases hstep
  | releases name =>
    rw [step] at hstep
    split at hstep
    · cases hstep
    · next p hfind =>
      obtain ⟨hp, rfl⟩ := mem_of_find hfind
      split at hstep
      · next since hplace =>
        split at hstep
        · cases hstep
        · cases hstep
          exact h.releases hp hplace
      · cases hstep

theorem sound_start (boot : Boot) : Sound w (start boot) where
  pids _ hp := absurd hp List.not_mem_nil
  known _ hp := absurd hp List.not_mem_nil
  started _ hname := absurd hname List.not_mem_nil
  taken _ hname := by cases hname
  holder _ hp := absurd hp List.not_mem_nil
  beat _ hp := absurd hp List.not_mem_nil
  body := ⟨(fun _ hpid => by cases hpid), fun _ hq => absurd hq List.not_mem_nil⟩
  serving _ hp := absurd hp List.not_mem_nil
  fits _ hp := absurd hp List.not_mem_nil

/-- A step of one process moves it, and whatever else it does, it sends a SIGKILL from two places only. -/
theorem goes_cases {s' : State} (hgoes : goes w s p = some s') :
    (∃ place, s'.processes = (s.goTo p.name place).processes) ∨
      ∃ body place, s' = (s.kills p body).goTo p.name place ∧ p.place.Kills body := by
  unfold goes at hgoes
  cases hplace : p.place with
  | foreign | serving | left =>
    rw [hplace] at hgoes
    cases hgoes
  | insisting incumbent asked =>
    rw [hplace] at hgoes
    cases hgoes
    exact .inr ⟨incumbent, _, rfl, .inl ⟨asked, rfl⟩⟩
  | evictingOf holder seen looked =>
    rw [hplace] at hgoes
    cases hgoes
    exact .inr ⟨holder, _, rfl, .inr ⟨seen, looked, rfl⟩⟩
  | refused | evicting | adopting | beaten | truncated =>
    rw [hplace] at hgoes
    cases hgoes
    exact .inl ⟨_, rfl⟩
  | opened | asking | trying | rechecking =>
    rw [hplace] at hgoes
    dsimp only at hgoes
    split at hgoes <;> cases hgoes <;> exact .inl ⟨_, rfl⟩
  | looked | waiting =>
    rw [hplace] at hgoes
    dsimp only at hgoes
    split at hgoes
    · first
      | cases hgoes
        exact .inl ⟨_, rfl⟩
      | split at hgoes <;> cases hgoes <;> exact .inl ⟨_, rfl⟩
    · first
      | cases hgoes
        exact .inl ⟨_, rfl⟩
      | split at hgoes <;> cases hgoes <;> exact .inl ⟨_, rfl⟩

end Steps

/-! ## The law -/

section Law
variable {w} {s : State}

variable (w) in
/-- It was asked to stand down, and given the whole wait for it. -/
def Insisted (s : State) (p leader : Process) (since : Seconds) : Prop :=
  ∃ incumbent asked, p.place = .insisting incumbent asked ∧ since ≤ asked ∧ asked + w.handoffS ≤ s.now ∧
    isOtherBuild leader.commit p.commit = true

/-- It had beaten, and then not for so long. -/
def Wedged (s : State) (p : Process) (since : Seconds) : Prop :=
  ∃ holder beat looked, p.place = .evictingOf holder (some beat) looked ∧ since ≤ beat ∧
    heartbeatStaleS ≤ looked - beat ∧ looked ≤ s.now

/-- It has beaten for the first time since the heartbeat was looked at. -/
def JustWon (p : Process) (since : Seconds) : Prop :=
  ∃ holder seen looked, p.place = .evictingOf holder seen looked ∧ looked ≤ since

variable (w) in
/-- **Why a process that starts may send a SIGKILL to the group of this one.** -/
structure Justified (s : State) (p leader : Process) : Prop where
  gpuc : leader.gpuc = true
  leads : leader.pgid = leader.name.pid
  notSelf : leader.pgid ≠ p.pgid ∧ leader.name ≠ p.name
  /-- It has taken office: the body that was read is its own. -/
  wrote : p.place.Kills (leader.body s.boot)
  served : (∃ since, leader.place = .serving since) ∨ leader.place = .left
  office : ∀ since, leader.place = .serving since →
    Insisted w s p leader since ∨ Wedged s p since ∨ JustWon p since

variable (w) in
/-- **What the lock is for.** -/
structure Kept (s : State) : Prop where
  exclusive : ∀ p ∈ s.processes, ∀ q ∈ s.processes, p.place.holds = true → q.place.holds = true → p = q
  named : ∀ p ∈ s.processes, ∀ since, p.place = .serving since →
    s.holder = some p.name ∧ s.body = p.body s.boot
  /-- A SIGKILL is sent for a reason. -/
  justified : ∀ p ∈ s.processes, ∀ s', goes w s p = some s' → ∀ q' ∈ s'.processes, q'.doomed = true →
    (∃ q ∈ s.processes, q.name = q'.name ∧ q.doomed = true) ∨
      ∃ leader ∈ s.processes, q'.pgid = leader.pgid ∧ Justified w s p leader
  /-- One that tries the lock while it is free is in office after four steps of its own. -/
  letIn : ∀ p ∈ s.processes, p.doomed = false →
    (p.place = .opened ∨ ∃ asked deadline, p.place = .trying asked deadline) → s.holder = none →
    ∃ s', (machine w).run s (List.replicate 4 (.goes p.name)) = some s' ∧
      s'.holder = some p.name ∧ s'.body = p.body s.boot ∧
      p.goTo (.serving s.now) ∈ s'.processes

theorem Sound.justified (h : Sound w s) {p : Process} (hp : p ∈ s.processes) {body : LockBody} {pgid : Nat}
    (hkills : p.place.Kills body) (hpgid : s.signalablePgid p body = some pgid) :
    ∃ leader ∈ s.processes, leader.pgid = pgid ∧ Justified w s p leader := by
  have hfits := h.fits p hp
  obtain ⟨asked, hplace⟩ | ⟨seen, looked, hplace⟩ := hkills
  · rw [hplace] at hfits
    obtain ⟨hvouched, hother, hgiven⟩ := hfits
    obtain ⟨leader, hleader, hleads⟩ := h.signalable hvouched hpgid
    obtain rfl := hleads.wrote
    refine ⟨leader, hleads.mem, hleader, hleads.gpuc, hleads.leads, hleads.notSelf, .inl ⟨asked, hplace⟩,
      hleads.served.imp_left (Exists.imp fun _ => And.right), fun since hserving => .inl ?_⟩
    obtain ⟨since', hle, hserving'⟩ | hleft := hleads.served
    · rw [hserving] at hserving'
      cases hserving'
      exact ⟨_, asked, hplace, hle, hgiven, hother⟩
    · rw [hserving] at hleft
      cases hleft
  · rw [hplace] at hfits
    obtain ⟨hvouched, hjudged⟩ := hfits
    obtain ⟨leader, hleader, hleads⟩ := h.signalable hvouched hpgid
    obtain rfl := hleads.wrote
    refine ⟨leader, hleads.mem, hleader, hleads.gpuc, hleads.leads, hleads.notSelf, .inr ⟨seen, looked, hplace⟩,
      hleads.served.imp_left (Exists.imp fun _ => And.right), fun since hserving => .inr ?_⟩
    obtain ⟨beat, rfl, hle⟩ | hafter := hjudged.beaten leader hleads.mem since (by rw [hserving]; rfl)
    · exact .inl ⟨_, beat, looked, hplace, hle, hjudged.stale beat rfl, hjudged.passed⟩
    · exact .inr ⟨_, seen, looked, hplace, hafter⟩

/-- A SIGKILL is of one group. -/
theorem mem_kills {p q' : Process} {body : LockBody} (hq' : q' ∈ (s.kills p body).processes) :
    q' ∈ s.processes ∨ s.signalablePgid p body = some q'.pgid := by
  unfold State.kills at hq'
  split at hq'
  · exact .inl hq'
  · next pgid hpgid =>
    obtain ⟨q, hq, rfl⟩ := List.mem_map.mp hq'
    split
    · next hgroup => exact .inr (hgroup ▸ hpgid)
    · exact .inl hq

theorem mem_goTo_self {p : Process} (hp : p ∈ s.processes) (place : Place) :
    p.goTo place ∈ (s.goTo p.name place).processes :=
  List.mem_map.mpr ⟨p, hp, if_pos rfl⟩

/-- A process that is there takes its own step. -/
theorem Sound.step_goes (h : Sound w s) {p : Process} (hp : p ∈ s.processes) (hdoomed : p.doomed = false) :
    (machine w).step s (.goes p.name) = goes w s p := by
  have hfind : s.find? p.name = some p := by
    cases hfind : s.find? p.name with
    | none => exact absurd (List.find?_eq_none.mp hfind p hp) (by simp)
    | some q =>
      obtain ⟨hq, hname⟩ := mem_of_find hfind
      rw [h.eq_of_name hq hp hname]
  change step w s (.goes p.name) = _
  rw [step, hfind]
  exact if_neg (by simp [hdoomed])

theorem Sound.letIn (h : Sound w s) {p : Process} (hp : p ∈ s.processes) (hdoomed : p.doomed = false)
    (htries : p.place = .opened ∨ ∃ asked deadline, p.place = .trying asked deadline)
    (hfree : s.holder = none) :
    ∃ s', (machine w).run s (List.replicate 4 (.goes p.name)) = some s' ∧
      s'.holder = some p.name ∧ s'.body = p.body s.boot ∧
      p.goTo (.serving s.now) ∈ s'.processes := by
  have hleft : p.place ≠ .left := by
    obtain hplace | ⟨asked, deadline, hplace⟩ := htries <;> simp [hplace]
  have hgoes : goes w s p = some (s.takes p.name) := by
    obtain hplace | ⟨asked, deadline, hplace⟩ := htries <;> simp only [goes, hplace, hfree]
  have h₁ := h.takes hp hfree hleft
  have hp₁ : p.goTo .adopting ∈ (s.takes p.name).processes := mem_goTo_self hp _
  have h₂ := h₁.firstBeat hp₁ rfl
  have hp₂ : p.goTo (.beaten s.now) ∈ ((s.takes p.name).firstBeat p.name).processes := mem_goTo_self hp₁ _
  have h₃ := h₂.truncates hp₂ rfl
  have hp₃ : p.goTo (.truncated s.now) ∈
      (((s.takes p.name).firstBeat p.name).truncates p.name s.now).processes := mem_goTo_self hp₂ _
  refine ⟨(((s.takes p.name).firstBeat p.name).truncates p.name s.now).writes (p.goTo (.truncated s.now)) s.now,
    ?_, rfl, rfl, mem_goTo_self hp₃ _⟩
  refine Machine.run_cons.mpr ⟨_, (h.step_goes hp hdoomed).trans hgoes, ?_⟩
  refine Machine.run_cons.mpr ⟨_, h₁.step_goes hp₁ hdoomed, ?_⟩
  refine Machine.run_cons.mpr ⟨_, h₂.step_goes hp₂ hdoomed, ?_⟩
  exact Machine.run_cons.mpr ⟨_, h₃.step_goes hp₃ hdoomed, rfl⟩

theorem Sound.kept (h : Sound w s) : Kept w s where
  exclusive p hp q hq hholds hholds' := by
    have hholder := (h.holder p hp).mp hholds
    have hother := (h.holder q hq).mp hholds'
    exact h.eq_of_name hp hq (Option.some.inj (hholder.symm.trans hother))
  named p hp since hserving :=
    ⟨(h.holder p hp).mp (by rw [hserving]; rfl), h.serving p hp since hserving⟩
  justified p hp s' hgoes q' hq' hdoomed := by
    obtain ⟨place, hs'⟩ | ⟨body, place, rfl, hplace⟩ := goes_cases hgoes
    · rw [hs'] at hq'
      obtain ⟨q, hq, rfl⟩ := List.mem_map.mp hq'
      refine .inl ⟨q, hq, ?_⟩
      split at hdoomed
      · next hname => exact ⟨by rw [if_pos hname]; rfl, hdoomed⟩
      · next hname => exact ⟨by rw [if_neg hname], hdoomed⟩
    · obtain ⟨q₁, hq₁, rfl⟩ := List.mem_map.mp hq'
      have hsame : (if q₁.name = p.name then q₁.goTo place else q₁).name = q₁.name ∧
          (if q₁.name = p.name then q₁.goTo place else q₁).pgid = q₁.pgid ∧
          (if q₁.name = p.name then q₁.goTo place else q₁).doomed = q₁.doomed := by
        split <;> exact ⟨rfl, rfl, rfl⟩
      rw [hsame.1, hsame.2.1]
      rw [hsame.2.2] at hdoomed
      obtain hq | hpgid := mem_kills hq₁
      · exact .inl ⟨q₁, hq, rfl, hdoomed⟩
      · obtain ⟨leader, hmem, hleader, hjustified⟩ := h.justified hp hplace hpgid
        exact .inr ⟨leader, hmem, hleader.symm, hjustified⟩
  letIn _ hp hdoomed htries hfree := h.letIn hp hdoomed htries hfree

/-- One dispatcher is wedged. Two others find its heartbeat stale, and one of them goes on to kill it and
to take office before the other reads who holds the lock. -/
def race : List Label :=
  let wedged : Name := ⟨1, "1"⟩
  let winner : Name := ⟨2, "2"⟩
  let other : Name := ⟨3, "3"⟩
  [.spawnsDispatcher wedged 1 none, .goes wedged, .goes wedged, .goes wedged, .goes wedged, .passes 60,
    .spawnsDispatcher winner 2 none, .goes winner, .goes winner, .goes winner,
    .spawnsDispatcher other 3 none, .goes other, .goes other, .goes other,
    .goes winner, .goes winner, .dies wedged,
    .goes winner, .goes winner, .goes winner, .goes winner, .goes winner,
    .goes other, .goes other]

end Law

end Gpuc.Host.DispatcherLock
