import Mathlib.Algebra.Order.Ring.Rat
import Mathlib.Tactic.IntervalCases
import Mathlib.Tactic.Linarith
import Mathlib.Tactic.NormNum
import Gpuc.Control.Sessions

/-!
# Who gets in, and how fast one can guess

However the threads of a server take their turns: a token is good for those it was given to, for as long
as it lasts and until it is logged out (`Kept.checked`, `Kept.earned`); wrong passwords in a row are no
faster than one in five seconds, less a grace of twenty-two and a half (`Kept.throttled`); and who has a
token is answered without a wait for those who guess (`Kept.prompt`).
-/

set_option autoImplicit false

namespace Gpuc.Control.Sessions

open Gpuc.Basis
open Gpuc.Host (Seconds)

/-! ## What a step does -/

def Place.inLogin : Place → Bool
  | .entered _ | .pausing _ _ => true
  | .idle | .atDoor _ | .asks _ | .inside _ | .answered _ => false

def Place.isInside : Place → Bool
  | .inside _ => true
  | .idle | .atDoor _ | .entered _ | .pausing _ _ | .asks _ | .answered _ => false

/-- It may call, or has just called and waits. -/
def Place.isOutside (place : Place) : Bool := !place.inLogin && !place.isInside

variable {server : Server} {s s' : State}

@[simp] theorem goTo_place (s : State) (t : Nat) (place : Place) (u : Nat) :
    (s.goTo t place).place u = if u = t then place else s.place u := rfl

/-- **What a step comes to.** -/
inductive Stepped (server : Server) (s : State) : State → Prop
  | calls {t : Nat} (call : Call) (hplace : s.place t = .idle ∨ ∃ answer, s.place t = .answered answer) :
    Stepped server s (s.goTo t call.begins)
  | enters {t : Nat} {password : String} (hplace : s.place t = .atDoor password) (hfree : s.login = none) :
    Stepped server s ({ s with login := some t }.goTo t (.entered password))
  | pauses {t : Nat} {password : String} (hplace : s.place t = .entered password) :
    Stepped server s ({ s with failures := s.failuresNow }.goTo t
      (.pausing password (s.now + pause s.failuresNow)))
  | right {t : Nat} {password : String} {wakes : Seconds} (hplace : s.place t = .pausing password wakes)
      (hwakes : wakes ≤ s.now) (hright : server.verify password = true) :
    Stepped server s ({ s with
      login := none, guesses := (s.now, password) :: s.guesses, failures := 0, lastFailure := none }.goTo t
      (.asks (.store s.now)))
  | wrong {t : Nat} {password : String} {wakes : Seconds} (hplace : s.place t = .pausing password wakes)
      (hwakes : wakes ≤ s.now) (hwrong : server.verify password = false) :
    Stepped server s ({ s with
      login := none, guesses := (s.now, password) :: s.guesses, failures := s.failures + 1,
      lastFailure := some s.now }.goTo t (.answered (.token none)))
  | goesIn {t : Nat} {what : Inside} (hplace : s.place t = .asks what) (hfree : s.tokensLock = none) :
    Stepped server s ({ s with tokensLock := some t }.goTo t (.inside what))
  | leaves {t : Nat} {what : Inside} {fresh : String} (hplace : s.place t = .inside what)
      (hfresh : fresh ∉ s.issued.map Prod.fst) :
    Stepped server s ({ s with tokensLock := none }.section server fresh t what)
  | passes {seconds : Seconds} (hseconds : 0 ≤ seconds) : Stepped server s { s with now := s.now + seconds }

theorem goes_stepped {t : Nat} {fresh : String} (hfresh : fresh ∉ s.issued.map Prod.fst)
    (h : goes server fresh s t = some s') : Stepped server s s' := by
  unfold goes at h
  split at h
  · cases h
  · cases h
  · next hplace =>
    obtain ⟨hfree, heq⟩ := Option.ite_none_right_eq_some.mp h
    exact Option.some.inj heq ▸ .enters hplace hfree
  · next hplace => exact Option.some.inj h ▸ .pauses hplace
  · next hplace =>
    obtain ⟨hwakes, heq⟩ := Option.ite_none_left_eq_some.mp h
    have hwakes := le_of_not_gt hwakes
    cases hverify : server.verify _ with
    | true =>
      rw [hverify, if_pos rfl] at heq
      exact Option.some.inj heq ▸ .right hplace hwakes hverify
    | false =>
      rw [hverify, if_neg Bool.false_ne_true] at heq
      exact Option.some.inj heq ▸ .wrong hplace hwakes hverify
  · next hplace =>
    obtain ⟨hfree, heq⟩ := Option.ite_none_right_eq_some.mp h
    exact Option.some.inj heq ▸ .goesIn hplace hfree
  · next hplace => exact Option.some.inj h ▸ .leaves hplace hfresh

theorem stepped {label : Label} (h : (machine server).step s label = some s') : Stepped server s s' := by
  cases label with
  | calls t call =>
    simp only [machine, step] at h
    split at h
    · next hplace => exact Option.some.inj h ▸ .calls call (.inl hplace)
    · next answer hplace => exact Option.some.inj h ▸ .calls call (.inr ⟨answer, hplace⟩)
    all_goals cases h
  | goes t fresh =>
    obtain ⟨hfresh, h⟩ := Option.ite_none_right_eq_some.mp h
    refine goes_stepped ?_ h
    simpa [State.isFresh] using hfresh
  | passes seconds =>
    obtain ⟨hseconds, heq⟩ := Option.ite_none_right_eq_some.mp h
    exact Option.some.inj heq ▸ .passes hseconds

variable (server) in
theorem section_place (s : State) (fresh : String) (t : Nat) (what : Inside) (u : Nat) :
    (s.section server fresh t what).place u =
      if u = t then (s.section server fresh t what).place t else s.place u := by
  cases what <;> simp [State.section, State.expire]

variable (server) in
theorem section_answered (s : State) (fresh : String) (t : Nat) (what : Inside) :
    ∃ answer, (s.section server fresh t what).place t = .answered answer := by
  cases what <;> simp [State.section]

variable (server) in
/-- What the tokens' section leaves as it is. -/
theorem section_keeps (s : State) (fresh : String) (t : Nat) (what : Inside) :
    (s.section server fresh t what).now = s.now ∧ (s.section server fresh t what).login = s.login ∧
      (s.section server fresh t what).tokensLock = s.tokensLock ∧
      (s.section server fresh t what).failures = s.failures ∧
      (s.section server fresh t what).lastFailure = s.lastFailure ∧
      (s.section server fresh t what).guesses = s.guesses := by
  cases what <;> exact ⟨rfl, rfl, rfl, rfl, rfl, rfl⟩

theorem begins_isOutside (call : Call) : call.begins.isOutside = true := by
  cases call with
  | login password => rfl
  | check token =>
    cases token with
    | none => rfl
    | some token => rw [Call.begins]; split <;> rfl
  | logout token =>
    cases token with
    | none => rfl
    | some token => rw [Call.begins]; split <;> rfl

/-! ## The two locks -/

/-- **Who is in a section has its lock.** -/
structure Locked (s : State) : Prop where
  login : ∀ t, s.login = some t ↔ (s.place t).inLogin = true
  tokens : ∀ t, s.tokensLock = some t ↔ (s.place t).isInside = true

/-- A thread takes a free lock or has it, gives it back, or has nothing to do with it. -/
def Moves (holds : Place → Bool) (t : Nat) (before after : Place) (lock lock' : Option Nat) : Prop :=
  (holds after = true ∧ lock' = some t ∧ (lock = none ∨ lock = some t)) ∨
    (holds after = false ∧ holds before = true ∧ lock' = none) ∨
    (holds after = false ∧ holds before = false ∧ lock' = lock)

theorem lock_moves {holds : Place → Bool} {place place' : Nat → Place} {lock lock' : Option Nat} {t : Nat}
    (h : ∀ u, lock = some u ↔ holds (place u) = true) (hothers : ∀ u, u ≠ t → place' u = place u)
    (hmoves : Moves holds t (place t) (place' t) lock lock') :
    ∀ u, lock' = some u ↔ holds (place' u) = true := by
  intro u
  have ht := h t
  have hu := h u
  by_cases heq : u = t
  · subst heq
    obtain ⟨hafter, rfl, _⟩ | ⟨hafter, _, rfl⟩ | ⟨hafter, hbefore, rfl⟩ := hmoves
    · simp [hafter]
    · simp [hafter]
    · simp [hafter, ht, hbefore]
  · rw [hothers u heq, ← hu]
    obtain ⟨_, rfl, rfl | rfl⟩ | ⟨_, hbefore, rfl⟩ | ⟨_, _, rfl⟩ := hmoves
    · simp [Ne.symm heq]
    · simp
    · rw [ht.mpr hbefore]
      simp [Ne.symm heq]
    · rfl

theorem goTo_other (s : State) {t u : Nat} (place : Place) (h : u ≠ t) : (s.goTo t place).place u = s.place u :=
  if_neg h

theorem goTo_self (s : State) (t : Nat) (place : Place) : (s.goTo t place).place t = place := if_pos rfl

theorem locked_step (h : Locked s) (hstep : Stepped server s s') : Locked s' := by
  cases hstep with
  | @calls t call hplace =>
    have hbegins := begins_isOutside call
    simp only [Place.isOutside, Bool.and_eq_true, Bool.not_eq_true'] at hbegins
    have hidle : (s.place t).inLogin = false ∧ (s.place t).isInside = false := by
      obtain hplace | ⟨answer, hplace⟩ := hplace <;> rw [hplace] <;> exact ⟨rfl, rfl⟩
    exact ⟨lock_moves h.login (fun u => goTo_other s _) (.inr (.inr ⟨by simp [hbegins], hidle.1, rfl⟩)),
      lock_moves h.tokens (fun u => goTo_other s _) (.inr (.inr ⟨by simp [hbegins], hidle.2, rfl⟩))⟩
  | @enters t password hplace hfree =>
    exact ⟨lock_moves h.login (fun u => goTo_other s _) (.inl ⟨by simp [Place.inLogin], rfl, .inl hfree⟩),
      lock_moves h.tokens (fun u => goTo_other s _)
        (.inr (.inr ⟨by simp [Place.isInside], by rw [hplace]; rfl, rfl⟩))⟩
  | @pauses t password hplace =>
    have hheld : s.login = some t := (h.login t).mpr (by rw [hplace]; rfl)
    exact ⟨lock_moves h.login (fun u => goTo_other s _) (.inl ⟨by simp [Place.inLogin], hheld, .inr hheld⟩),
      lock_moves h.tokens (fun u => goTo_other s _)
        (.inr (.inr ⟨by simp [Place.isInside], by rw [hplace]; rfl, rfl⟩))⟩
  | @right t password wakes hplace hwakes hright =>
    exact ⟨lock_moves h.login (fun u => goTo_other s _)
        (.inr (.inl ⟨by simp [Place.inLogin], by rw [hplace]; rfl, rfl⟩)),
      lock_moves h.tokens (fun u => goTo_other s _)
        (.inr (.inr ⟨by simp [Place.isInside], by rw [hplace]; rfl, rfl⟩))⟩
  | @wrong t password wakes hplace hwakes hwrong =>
    exact ⟨lock_moves h.login (fun u => goTo_other s _)
        (.inr (.inl ⟨by simp [Place.inLogin], by rw [hplace]; rfl, rfl⟩)),
      lock_moves h.tokens (fun u => goTo_other s _)
        (.inr (.inr ⟨by simp [Place.isInside], by rw [hplace]; rfl, rfl⟩))⟩
  | @goesIn t what hplace hfree =>
    exact ⟨lock_moves h.login (fun u => goTo_other s _)
        (.inr (.inr ⟨by simp [Place.inLogin], by rw [hplace]; rfl, rfl⟩)),
      lock_moves h.tokens (fun u => goTo_other s _) (.inl ⟨by simp [Place.isInside], rfl, .inl hfree⟩)⟩
  | @leaves t what fresh hplace hfresh =>
    obtain ⟨answer, hanswer⟩ := section_answered server { s with tokensLock := none } fresh t what
    have hothers : ∀ u, u ≠ t →
        (({ s with tokensLock := none }).section server fresh t what).place u = s.place u := fun u hu => by
      rw [section_place, if_neg hu]
    obtain ⟨_, hlogin, htokens, _⟩ := section_keeps server { s with tokensLock := none } fresh t what
    exact ⟨lock_moves h.login hothers
        (.inr (.inr ⟨by rw [hanswer]; rfl, by rw [hplace]; rfl, hlogin⟩)),
      lock_moves h.tokens hothers
        (.inr (.inl ⟨by rw [hanswer]; rfl, by rw [hplace]; rfl, htokens⟩))⟩
  | passes hseconds => exact ⟨h.login, h.tokens⟩

theorem Locked.login_eq (h : Locked s) {t u : Nat} (ht : (s.place t).inLogin = true)
    (hu : (s.place u).inLogin = true) : t = u :=
  Option.some.inj (((h.login t).mpr ht).symm.trans ((h.login u).mpr hu))

/-! ## How fast one can guess -/

/-- What is left of the grace after so many failures: what the pauses still to come fall short of five
seconds each. -/
def grace (failures : Nat) : Seconds := ((10 - failures) * (11 - failures) : Nat) / 4

theorem grace_nonneg (failures : Nat) : 0 ≤ grace failures :=
  div_nonneg (Nat.cast_nonneg _) (by norm_num)

theorem grace_le (failures : Nat) (h : failures ≠ 0) : grace failures ≤ 45 / 2 := by
  have hnat : (10 - failures) * (11 - failures) ≤ 9 * 10 := Nat.mul_le_mul (by omega) (by omega)
  have hcast : (((10 - failures) * (11 - failures) : Nat) : ℚ) ≤ ((9 * 10 : Nat) : ℚ) := Nat.cast_le.mpr hnat
  rw [grace]
  norm_num at hcast ⊢
  linarith

/-- A failure costs what its pause is short of five seconds. -/
theorem grace_succ (failures : Nat) : 5 + grace (failures + 1) ≤ grace failures + pause failures := by
  obtain hle | hlt := le_or_gt failures 10
  · interval_cases failures <;> norm_num [grace, pause, failureDelayS, failureDelayMaxS]
  · have hspent : grace (failures + 1) = 0 := by
      rw [grace, show 10 - (failures + 1) = 0 by omega, Nat.zero_mul, Nat.cast_zero, zero_div]
    have hlong : pause failures = 5 := by
      have hcast : (10 : ℚ) ≤ failures := by exact_mod_cast hlt.le
      rw [pause, if_neg (by omega), failureDelayS, failureDelayMaxS, min_eq_right]
      linarith
    have hnonneg := grace_nonneg failures
    rw [hspent, hlong]
    linarith

theorem pause_nonneg (failures : Nat) : 0 ≤ pause failures := by
  rw [pause]
  split
  · exact le_rfl
  · exact le_min (mul_nonneg (by norm_num [failureDelayS]) (Nat.cast_nonneg _)) (by norm_num [failureDelayMaxS])

/-- The last so many guesses, and the one before them, were wrong. -/
def Wrong (server : Server) (guesses : List (Seconds × String)) (count : Nat) : Prop :=
  ∀ guess ∈ guesses.take (count + 1), server.verify guess.2 = false

/-- **As many guesses in so much time**: each takes five seconds, and there is a grace. -/
def Slow (count : Nat) (left took : Seconds) : Prop := 5 * (count : Seconds) + left ≤ took + 45 / 2

/-- **What is known of guesses**: where nobody sleeps before one, of the last ones and what is left of the
grace; where somebody does, the same at the time it wakes. -/
structure Throttled (server : Server) (s : State) : Prop where
  past : ∀ guess ∈ s.guesses, guess.1 ≤ s.now
  failed : (∀ t password wakes, s.place t ≠ .pausing password wakes) → ∀ guess, s.guesses.head? = some guess →
    server.verify guess.2 = false → s.failures ≠ 0 ∧ s.lastFailure = some guess.1
  quiet : ∀ last, s.lastFailure = some last → last ≤ s.now
  awake : (∀ t password wakes, s.place t ≠ .pausing password wakes) → ∀ count newest oldest,
    s.guesses.head? = some newest → s.guesses[count]? = some oldest → Wrong server s.guesses count →
    Slow count (grace s.failures) (newest.1 - oldest.1)
  asleep : ∀ t password wakes, s.place t = .pausing password wakes → ∀ count oldest,
    s.guesses[count]? = some oldest → Wrong server s.guesses count →
    Slow (count + 1) (grace (s.failures + 1)) (wakes - oldest.1)
  slow : ∀ first count newest oldest, s.guesses[first]? = some newest →
    s.guesses[first + count]? = some oldest → Wrong server (s.guesses.drop first) count →
    Slow count 0 (newest.1 - oldest.1)

/-- What leaves the guesses alone keeps what is known of them. -/
theorem Throttled.frame (h : Throttled server s) (hnow : s.now ≤ s'.now) (hguesses : s'.guesses = s.guesses)
    (hfailures : s'.failures = s.failures) (hlast : s'.lastFailure = s.lastFailure)
    (hplace : ∀ t password wakes, s'.place t = .pausing password wakes ↔ s.place t = .pausing password wakes) :
    Throttled server s' where
  past guess hguess := (h.past guess (hguesses ▸ hguess)).trans hnow
  failed hnobody guess hhead hwrong := by
    rw [hfailures, hlast]
    exact h.failed (fun t password wakes hp => hnobody t password wakes ((hplace _ _ _).mpr hp)) guess
      (hguesses ▸ hhead) hwrong
  quiet last hsome := (h.quiet last (hlast ▸ hsome)).trans hnow
  awake hnobody := by
    rw [hguesses, hfailures]
    exact h.awake fun t password wakes hp => hnobody t password wakes ((hplace _ _ _).mpr hp)
  asleep t password wakes hp := by
    rw [hguesses, hfailures]
    exact h.asleep t password wakes ((hplace _ _ _).mp hp)
  slow := by
    rw [hguesses]
    exact h.slow

/-- A pause makes up for what the next guess costs. -/
theorem Slow.next {count failures : Nat} {took : Seconds} (h : Slow count (grace failures) took) :
    Slow (count + 1) (grace (failures + 1)) (took + pause failures) := by
  have hgrace := grace_succ failures
  rw [Slow] at h ⊢
  push_cast
  linarith

/-- So does a quiet minute. -/
theorem Slow.reset {count failures : Nat} {took idle : Seconds} (h : Slow count (grace failures) took)
    (hidle : failureResetS < idle) : Slow (count + 1) (grace 1) (took + idle + pause 0) := by
  have hspent := grace_nonneg failures
  have hwhole := grace_le 1 Nat.one_ne_zero
  rw [Slow] at h ⊢
  rw [pause, if_pos rfl, failureResetS] at *
  push_cast
  linarith

theorem Slow.later {count : Nat} {left took took' : Seconds} (h : Slow count left took) (hle : took ≤ took') :
    Slow count left took' :=
  le_trans h (add_le_add_left hle _)

theorem Wrong.head {guesses : List (Seconds × String)} {count : Nat} {oldest : Seconds × String}
    (h : Wrong server guesses count) (hold : guesses[count]? = some oldest) :
    ∃ newest, guesses.head? = some newest ∧ server.verify newest.2 = false := by
  cases guesses with
  | nil => cases hold
  | cons newest rest =>
    exact ⟨newest, rfl, h newest List.mem_cons_self⟩

/-- The pause of who comes in next, were its password wrong. -/
theorem Throttled.next (h : Throttled server s)
    (hnobody : ∀ t password wakes, s.place t ≠ .pausing password wakes) {count : Nat}
    {oldest : Seconds × String} (hold : s.guesses[count]? = some oldest)
    (hwrong : Wrong server s.guesses count) :
    Slow (count + 1) (grace (s.failuresNow + 1)) (s.now + pause s.failuresNow - oldest.1) := by
  obtain ⟨newest, hnewest, hbad⟩ := hwrong.head hold
  have hslow := h.awake hnobody count newest oldest hnewest hold hwrong
  obtain ⟨_, hlast⟩ := h.failed hnobody newest hnewest hbad
  have hpast := h.quiet newest.1 hlast
  simp only [State.failuresNow, hlast]
  split
  · next hidle => exact (hslow.reset hidle).later (by linarith)
  · exact hslow.next.later (by linarith)

theorem throttled_pauses (h : Throttled server s) (hlocked : Locked s) {t : Nat} {password : String}
    (hplace : s.place t = .entered password) :
    Throttled server ({ s with failures := s.failuresNow }.goTo t
      (.pausing password (s.now + pause s.failuresNow))) := by
  have hnobody : ∀ u password wakes, s.place u ≠ .pausing password wakes := fun u _ _ hp => by
    have heq := hlocked.login_eq (t := t) (u := u) (by rw [hplace]; rfl) (by rw [hp]; rfl)
    rw [← heq, hplace] at hp
    cases hp
  have hsleeps := goTo_self { s with failures := s.failuresNow } t
    (.pausing password (s.now + pause s.failuresNow))
  refine ⟨h.past, fun hno => absurd hsleeps (hno t _ _), h.quiet, fun hno => absurd hsleeps (hno t _ _),
    fun u _ wakes hp count oldest hold hwrong => ?_, h.slow⟩
  by_cases hu : u = t
  · rw [hu, hsleeps] at hp
    rw [← (Place.pausing.inj hp).2]
    exact h.next hnobody hold hwrong
  · exact absurd ((goTo_other _ _ hu).symm.trans hp) (hnobody u _ wakes)

/-- A guess that ends a run of wrong ones, or begins one. -/
theorem throttled_guesses {place : Nat → Place} (h : Throttled server s)
    (hnobody : ∀ t password wakes, place t ≠ .pausing password wakes) {t : Nat} {password : String}
    {wakes : Seconds} (hplace : s.place t = .pausing password wakes) (hwakes : wakes ≤ s.now) {failures : Nat}
    {last : Option Seconds} (hafter : server.verify password = false →
      failures = s.failures + 1 ∧ last = some s.now) (hlast : ∀ time, last = some time → time ≤ s.now)
    (login : Option Nat) :
    Throttled server { s with
      login, place, guesses := (s.now, password) :: s.guesses, failures, lastFailure := last } := by
  have hslow : ∀ count oldest, ((s.now, password) :: s.guesses)[count]? = some oldest →
      Wrong server ((s.now, password) :: s.guesses) count → Slow count (grace failures) (s.now - oldest.1) := by
    intro count oldest hold hwrong
    obtain ⟨hfailures, _⟩ := hafter (hwrong (s.now, password) List.mem_cons_self)
    cases count with
    | zero =>
      rw [← Option.some.inj hold, Slow, hfailures]
      have hgrace := grace_le (s.failures + 1) (Nat.succ_ne_zero _)
      push_cast
      linarith
    | succ count =>
      have hrest : Wrong server s.guesses count := fun guess hguess =>
        hwrong guess (List.mem_cons_of_mem _ hguess)
      rw [hfailures]
      exact (h.asleep t password wakes hplace count oldest hold hrest).later (by linarith)
  refine ⟨fun guess hguess => ?_, fun _ guess hhead hwrong => ?_, hlast,
    fun _ count newest oldest hnewest => ?_, fun u _ _ hp => absurd hp (hnobody u _ _), fun first count newest oldest hnewest hold hwrong => ?_⟩
  · obtain rfl | hguess := List.mem_cons.mp hguess
    · exact le_rfl
    · exact h.past guess hguess
  · rw [← Option.some.inj hhead] at hwrong ⊢
    obtain ⟨hfailures, hlast⟩ := hafter hwrong
    exact ⟨hfailures ▸ Nat.succ_ne_zero _, hlast⟩
  · rw [← Option.some.inj hnewest]
    exact hslow count oldest
  · cases first with
    | zero =>
      rw [Nat.zero_add] at hold
      rw [← Option.some.inj hnewest]
      have hspent := grace_nonneg failures
      exact le_trans (add_le_add_right hspent _) (hslow count oldest hold hwrong)
    | succ first =>
      rw [Nat.succ_add] at hold
      exact h.slow first count newest oldest hnewest hold hwrong

/-- Who neither goes to sleep nor wakes leaves the sleepers as they are. -/
theorem sleepers {place place' : Nat → Place} {t : Nat} (hothers : ∀ u, u ≠ t → place' u = place u)
    (hbefore : (place t).inLogin = false ∨ (∃ password, place t = .entered password))
    (hafter : (place' t).inLogin = false ∨ ∃ password, place' t = .entered password) (u : Nat)
    (password : String) (wakes : Seconds) : place' u = .pausing password wakes ↔ place u = .pausing password wakes := by
  have hawake : ∀ here : Place, (here.inLogin = false ∨ ∃ password, here = .entered password) →
      here ≠ .pausing password wakes := by
    rintro here hout rfl
    obtain hout | ⟨_, hout⟩ := hout <;> cases hout
  by_cases hu : u = t
  · subst hu
    exact iff_of_false (hawake _ hafter) (hawake _ hbefore)
  · rw [hothers u hu]

/-- Nobody sleeps once the one in the login has left it. -/
theorem Locked.nobody (h : Locked s) {t : Nat} (ht : (s.place t).inLogin = true) {after : Place}
    (hafter : after.inLogin = false) (u : Nat) (password : String) (wakes : Seconds) :
    (s.goTo t after).place u ≠ .pausing password wakes := by
  intro hp
  by_cases hu : u = t
  · rw [hu, goTo_self] at hp
    rw [hp] at hafter
    cases hafter
  · rw [goTo_other _ _ hu] at hp
    exact hu (h.login_eq (by rw [hp]; rfl) ht)

theorem throttled_step (h : Throttled server s) (hlocked : Locked s) (hstep : Stepped server s s') :
    Throttled server s' := by
  cases hstep with
  | @calls t call hplace =>
    have hbegins := begins_isOutside call
    simp only [Place.isOutside, Bool.and_eq_true, Bool.not_eq_true'] at hbegins
    have hidle : (s.place t).inLogin = false := by
      obtain hplace | ⟨answer, hplace⟩ := hplace <;> rw [hplace] <;> rfl
    exact h.frame le_rfl rfl rfl rfl
      (sleepers (fun u => goTo_other s _) (.inl hidle) (.inl (by rw [goTo_self]; exact hbegins.1)))
  | @enters t password hplace hfree =>
    exact h.frame le_rfl rfl rfl rfl
      (sleepers (fun u => goTo_other s _) (.inl (by rw [hplace]; rfl)) (.inr ⟨password, goTo_self s t _⟩))
  | pauses hplace => exact throttled_pauses h hlocked hplace
  | @right t password wakes hplace hwakes hright =>
    refine throttled_guesses h (hlocked.nobody (by rw [hplace]; rfl) rfl) hplace hwakes (fun hwrong => ?_)
      (fun time hsome => by cases hsome) none
    rw [hright] at hwrong
    cases hwrong
  | @wrong t password wakes hplace hwakes hwrong =>
    exact throttled_guesses h (hlocked.nobody (by rw [hplace]; rfl) rfl) hplace hwakes (fun _ => ⟨rfl, rfl⟩)
      (fun time hsome => le_of_eq (Option.some.inj hsome).symm) none
  | @goesIn t what hplace hfree =>
    exact h.frame le_rfl rfl rfl rfl
      (sleepers (fun u => goTo_other s _) (.inl (by rw [hplace]; rfl)) (.inl (by rw [goTo_self]; rfl)))
  | @leaves t what fresh hplace hfresh =>
    obtain ⟨answer, hanswer⟩ := section_answered server { s with tokensLock := none } fresh t what
    obtain ⟨hnow, _, _, hfailures, hlast, hguesses⟩ :=
      section_keeps server { s with tokensLock := none } fresh t what
    refine h.frame hnow.ge hguesses hfailures hlast (sleepers (fun u hu => ?_) (.inl (by rw [hplace]; rfl))
      (.inl (by rw [hanswer]; rfl)))
    rw [section_place, if_neg hu]
  | passes hseconds =>
    exact h.frame (le_add_of_nonneg_right hseconds) rfl rfl rfl fun _ _ _ => Iff.rfl

/-! ## Who gets in -/

/-- The thread has had a password that was right then, and its token is not in yet. -/
def Place.stores : Place → Option Seconds
  | .asks (.store since) | .inside (.store since) => some since
  | _ => none

/-- The token the thread was given. -/
def Place.told : Place → Option String
  | .answered (.token token) => token
  | _ => none

/-- Some password that was right was checked by then. -/
def Earned (server : Server) (s : State) (time : Seconds) : Prop :=
  ∃ guess ∈ s.guesses, guess.1 ≤ time ∧ server.verify guess.2 = true

/-- The token is out, of that time, and nobody has logged out of it. -/
def State.Out (s : State) (token : String) (since : Seconds) : Prop :=
  (token, since) ∈ s.issued ∧ token ∉ s.dropped

/-- **The tokens there are**: those that are out, each of them until its time is over, and maybe longer. -/
structure Given (server : Server) (s : State) : Prop where
  held : ∀ token until_, s.tokens.get? token = some until_ →
    ∃ since, s.Out token since ∧ until_ = since + server.ttlS
  kept : ∀ token since, s.Out token since → s.now < since + server.ttlS →
    s.tokens.get? token = some (since + server.ttlS)
  once : (s.issued.map Prod.fst).Nodup
  known : ∀ token ∈ s.dropped, token ∈ s.issued.map Prod.fst
  earned : ∀ entry ∈ s.issued, Earned server s entry.2
  waiting : ∀ t since, (s.place t).stores = some since → Earned server s s.now
  told : ∀ t token, (s.place t).told = some token → token ∈ s.issued.map Prod.fst
  alone : ∀ t u token, (s.place t).told = some token → (s.place u).told = some token → t = u

theorem Earned.mono {time time' : Seconds} (h : Earned server s time)
    (hguesses : ∀ guess ∈ s.guesses, guess ∈ s'.guesses) (hle : time ≤ time') : Earned server s' time' := by
  obtain ⟨guess, hguess, hbefore, hright⟩ := h
  exact ⟨guess, hguesses guess hguess, hbefore.trans hle, hright⟩

/-- What leaves the tokens alone. -/
theorem Given.frame (h : Given server s) (hnow : s.now ≤ s'.now) (htokens : s'.tokens = s.tokens)
    (hissued : s'.issued = s.issued) (hdropped : s'.dropped = s.dropped)
    (hguesses : ∀ guess ∈ s.guesses, guess ∈ s'.guesses)
    (hstores : ∀ t since, (s'.place t).stores = some since → (s.place t).stores = some since ∨
      Earned server s' s'.now)
    (htold : ∀ t token, (s'.place t).told = some token → (s.place t).told = some token) : Given server s' where
  held := by
    simp only [htokens, State.Out, hissued, hdropped]
    exact h.held
  kept := by
    simp only [htokens, State.Out, hissued, hdropped]
    exact fun token since hout hlive => h.kept token since hout (hnow.trans_lt hlive)
  once := hissued ▸ h.once
  known := by
    rw [hissued, hdropped]
    exact h.known
  earned entry hentry := (h.earned entry (hissued ▸ hentry)).mono hguesses le_rfl
  waiting t since hsome :=
    (hstores t since hsome).elim (fun hold => (h.waiting t since hold).mono hguesses hnow) id
  told t token hsome := hissued ▸ h.told t token (htold t token hsome)
  alone t u token ht hu := h.alone t u token (htold t token ht) (htold u token hu)

/-- What a thread that moves has of it, it had, or it has nothing. -/
theorem goTo_data {β : Type} {f : Place → Option β} {t : Nat} {after : Place}
    (hafter : f after = none ∨ f after = f (s.place t)) (u : Nat) (x : β)
    (h : f ((s.goTo t after).place u) = some x) : f (s.place u) = some x := by
  by_cases hu : u = t
  · subst hu
    rw [goTo_self] at h
    obtain hnone | hsame := hafter
    · rw [hnone] at h
      cases h
    · exact hsame ▸ h
  · rwa [goTo_other _ _ hu] at h

theorem get?_expire (s : State) (token : String) :
    s.expire.tokens.get? token = (s.tokens.get? token).filter fun until_ => decide (s.now < until_) := by
  rw [State.expire, Dict.get?_filter]
  congr 1
  funext until_
  exact decide_eq_decide.mpr not_le

theorem given_expire (h : Given server s) : Given server s.expire where
  held token until_ hsome := by
    rw [get?_expire, Option.filter_eq_some_iff] at hsome
    exact h.held token until_ hsome.1
  kept token since hout hlive := by
    rw [get?_expire, h.kept token since hout hlive]
    exact Option.filter_eq_some_iff.mpr ⟨rfl, decide_eq_true hlive⟩
  once := h.once
  known := h.known
  earned := h.earned
  waiting := h.waiting
  told := h.told
  alone := h.alone

/-- **A token that is new.** -/
theorem given_store (h : Given server s) {t : Nat} (hearned : Earned server s s.now) {fresh : String}
    (hfresh : fresh ∉ s.issued.map Prod.fst) :
    Given server ({ s with
      tokens := s.tokens.set fresh (s.now + server.ttlS)
      issued := (fresh, s.now) :: s.issued }.goTo t (.answered (.token (some fresh)))) := by
  have hplace : ∀ u token, ((s.goTo t (.answered (.token (some fresh)))).place u).told = some token →
      (u = t ∧ token = fresh) ∨ (u ≠ t ∧ (s.place u).told = some token) := fun u token hu => by
    by_cases heq : u = t
    · rw [heq, goTo_self] at hu
      exact .inl ⟨heq, (Option.some.inj hu).symm⟩
    · rw [goTo_other _ _ heq] at hu
      exact .inr ⟨heq, hu⟩
  have hnew : ∀ u token, (s.place u).told = some token → token ≠ fresh := fun u token hu heq =>
    hfresh (heq ▸ h.told u token hu)
  refine
    { held := fun token until_ hsome => ?_
      kept := fun token since hout hlive => ?_
      once := List.nodup_cons.mpr ⟨hfresh, h.once⟩
      known := fun token hdropped => List.mem_cons_of_mem _ (h.known token hdropped)
      earned := fun entry hentry => ?_
      waiting := fun u since hsome => hearned
      told := fun u token hu => ?_
      alone := fun u v token hu hv => ?_ }
  · replace hsome : (s.tokens.set fresh (s.now + server.ttlS)).get? token = some until_ := hsome
    rw [Dict.get?_set] at hsome
    split at hsome
    · next heq =>
      subst heq
      exact ⟨s.now, ⟨List.mem_cons_self, fun hdropped => hfresh (h.known _ hdropped)⟩,
        (Option.some.inj hsome).symm⟩
    · obtain ⟨since, ⟨hissued, hdropped⟩, huntil⟩ := h.held token until_ hsome
      exact ⟨since, ⟨List.mem_cons_of_mem _ hissued, hdropped⟩, huntil⟩
  · show (s.tokens.set fresh (s.now + server.ttlS)).get? token = _
    rw [Dict.get?_set]
    obtain ⟨hissued, hdropped⟩ := hout
    obtain heq | hissued := List.mem_cons.mp hissued
    · obtain ⟨rfl, rfl⟩ := Prod.mk.inj heq
      rw [if_pos rfl]
    · rw [if_neg fun heq : token = fresh => hfresh (heq ▸ List.mem_map_of_mem hissued)]
      exact h.kept token since ⟨hissued, hdropped⟩ hlive
  · obtain rfl | hentry := List.mem_cons.mp hentry
    · exact hearned
    · exact h.earned entry hentry
  · obtain ⟨_, rfl⟩ | ⟨_, hold⟩ := hplace u token hu
    · exact List.mem_cons_self
    · exact List.mem_cons_of_mem _ (h.told u token hold)
  · obtain ⟨hut, heq⟩ | ⟨_, hold⟩ := hplace u token hu <;> obtain ⟨hvt, heq'⟩ | ⟨_, hold'⟩ := hplace v token hv
    · exact hut.trans hvt.symm
    · exact absurd heq (hnew v token hold')
    · exact absurd heq' (hnew u token hold)
    · exact h.alone u v token hold hold'

/-- **A token taken back.** -/
theorem given_logout (h : Given server s) (token : String) :
    Given server { s with
      tokens := s.tokens.erase token
      dropped := if (s.tokens.get? token).isSome then token :: s.dropped else s.dropped } where
  held other until_ hsome := by
    rw [Dict.get?_erase] at hsome
    split at hsome
    · cases hsome
    · next hne =>
      obtain ⟨since, ⟨hissued, hdropped⟩, huntil⟩ := h.held other until_ hsome
      refine ⟨since, ⟨hissued, fun hother => ?_⟩, huntil⟩
      split at hother
      · exact (List.mem_cons.mp hother).elim hne hdropped
      · exact hdropped hother
  kept other since hout hlive := by
    obtain ⟨hissued, hdropped⟩ := hout
    have hstays : other ∉ s.dropped := fun hother => hdropped (by
      show other ∈ ite _ _ _
      split
      · exact List.mem_cons_of_mem _ hother
      · exact hother)
    have hsome := h.kept other since ⟨hissued, hstays⟩ hlive
    rw [Dict.get?_erase, if_neg, hsome]
    -- what is taken out is written down as taken back
    rintro rfl
    refine hdropped ?_
    show other ∈ ite _ _ _
    rw [hsome, if_pos (Option.isSome_some)]
    exact List.mem_cons_self
  once := h.once
  known other hother := by
    replace hother : other ∈ if (s.tokens.get? token).isSome then token :: s.dropped else s.dropped := hother
    split at hother
    · next hsome =>
      obtain rfl | hother := List.mem_cons.mp hother
      · obtain ⟨until_, hget⟩ := Option.isSome_iff_exists.mp hsome
        obtain ⟨since, ⟨hissued, _⟩, _⟩ := h.held other until_ hget
        exact List.mem_map_of_mem hissued
      · exact h.known other hother
    · exact h.known other hother
  earned := h.earned
  waiting := h.waiting
  told := h.told
  alone := h.alone

theorem begins_stores (call : Call) : call.begins.stores = none ∧ call.begins.told = none := by
  cases call with
  | login password => exact ⟨rfl, rfl⟩
  | check token =>
    cases token with
    | none => exact ⟨rfl, rfl⟩
    | some token => rw [Call.begins]; split <;> exact ⟨rfl, rfl⟩
  | logout token =>
    cases token with
    | none => exact ⟨rfl, rfl⟩
    | some token => rw [Call.begins]; split <;> exact ⟨rfl, rfl⟩

/-- A thread that moves, and neither waits with a new token after that nor is given one. -/
theorem Given.moves (h : Given server s) {t : Nat} {after : Place}
    (hstores : after.stores = none ∨ after.stores = (s.place t).stores) (htold : after.told = none) :
    Given server (s.goTo t after) :=
  h.frame le_rfl rfl rfl rfl (fun _ hguess => hguess) (fun u since hu => .inl (goTo_data hstores u since hu))
    (goTo_data (.inl htold))

theorem given_step (h : Given server s) (hstep : Stepped server s s') : Given server s' := by
  cases hstep with
  | @calls t call hplace => exact h.moves (.inl (begins_stores call).1) (begins_stores call).2
  | @enters t password hplace hfree =>
    have hlocked : Given server { s with login := some t } := { h with }
    exact hlocked.moves (.inl rfl) rfl
  | @pauses t password hplace =>
    have hcounted : Given server { s with failures := s.failuresNow } := { h with }
    exact hcounted.moves (.inl rfl) rfl
  | @right t password wakes hplace hwakes hright =>
    refine h.frame le_rfl rfl rfl rfl (fun _ hguess => List.mem_cons_of_mem _ hguess)
      (fun u since hu => .inr ⟨(s.now, password), List.mem_cons_self, le_rfl, hright⟩) (goTo_data (.inl rfl))
  | @wrong t password wakes hplace hwakes hwrong =>
    exact h.frame le_rfl rfl rfl rfl (fun _ hguess => List.mem_cons_of_mem _ hguess)
      (fun u since hu => .inl (goTo_data (.inl rfl) u since hu)) (goTo_data (.inl rfl))
  | @goesIn t what hplace hfree =>
    have hlocked : Given server { s with tokensLock := some t } := { h with }
    exact hlocked.moves (.inr (by rw [hplace]; cases what <;> rfl)) rfl
  | @leaves t what fresh hplace hfresh =>
    have hfree : Given server { s with tokensLock := none } := { h with }
    cases what with
    | store since =>
      exact given_store (given_expire hfree) (h.waiting t since (by rw [hplace]; rfl)) hfresh
    | check token => exact (given_expire hfree).moves (.inl rfl) rfl
    | logout token => exact (given_logout hfree token).moves (.inl rfl) rfl
  | passes hseconds =>
    exact h.frame (le_add_of_nonneg_right hseconds) rfl rfl rfl (fun _ hguess => hguess)
      (fun _ _ hold => .inl hold) fun _ _ hold => hold

/-- **A token that is good**: it is out, and its time is not over. -/
def State.Good (s : State) (server : Server) (token : String) : Prop :=
  ∃ since, s.Out token since ∧ s.now < since + server.ttlS

/-- What is looked up is what is good. -/
theorem Given.isSome_iff (h : Given server s) (token : String) :
    (s.expire.tokens.get? token).isSome = true ↔ s.Good server token := by
  rw [get?_expire, Option.isSome_iff_exists]
  constructor
  · rintro ⟨until_, hsome⟩
    obtain ⟨hget, hlive⟩ := Option.filter_eq_some_iff.mp hsome
    obtain ⟨since, hout, huntil⟩ := h.held token until_ hget
    exact ⟨since, hout, huntil ▸ of_decide_eq_true hlive⟩
  · rintro ⟨since, hout, hlive⟩
    exact ⟨_, Option.filter_eq_some_iff.mpr ⟨h.kept token since hout hlive, decide_eq_true hlive⟩⟩

/-- Time passes, what was taken back stays so, and a token that is given out is new. -/
theorem stepped_grows (hstep : Stepped server s s') :
    s.now ≤ s'.now ∧ (∀ token ∈ s.dropped, token ∈ s'.dropped) ∧
    ∀ entry ∈ s'.issued, entry ∈ s.issued ∨ entry.1 ∉ s.issued.map Prod.fst := by
  cases hstep with
  | @leaves t what fresh hplace hfresh =>
    cases what with
    | store since =>
      refine ⟨le_rfl, fun _ h => h, fun entry hentry => ?_⟩
      obtain rfl | hentry := List.mem_cons.mp hentry
      · exact .inr hfresh
      · exact .inl hentry
    | check token => exact ⟨le_rfl, fun _ h => h, fun _ h => .inl h⟩
    | logout token =>
      refine ⟨le_rfl, fun other h => ?_, fun _ h => .inl h⟩
      show other ∈ ite _ _ _
      split
      · exact List.mem_cons_of_mem _ h
      · exact h
  | passes hseconds => exact ⟨le_add_of_nonneg_right hseconds, fun _ h => h, fun _ h => .inl h⟩
  | _ => exact ⟨le_rfl, fun _ h => h, fun _ h => .inl h⟩

/-- Nothing is forgotten. -/
theorem stepped_issued (hstep : Stepped server s s') : ∀ entry ∈ s.issued, entry ∈ s'.issued := by
  cases hstep with
  | @leaves t what fresh hplace hfresh =>
    cases what with
    | store since => exact fun _ h => List.mem_cons_of_mem _ h
    | check token => exact fun _ h => h
    | logout token => exact fun _ h => h
  | _ => exact fun _ h => h

/-- **A token that was good once**, and is not any more. -/
def State.Over (s : State) (server : Server) (token : String) : Prop :=
  token ∈ s.issued.map Prod.fst ∧ ¬s.Good server token

theorem over_step (hstep : Stepped server s s') {token : String} (h : s.Over server token) :
    s'.Over server token := by
  obtain ⟨hnow, hdropped, hnew⟩ := stepped_grows hstep
  obtain ⟨hknown, hover⟩ := h
  obtain ⟨entry, hentry, rfl⟩ := List.mem_map.mp hknown
  refine ⟨List.mem_map_of_mem (stepped_issued hstep entry hentry), ?_⟩
  rintro ⟨since, ⟨hout, hkept⟩, hlive⟩
  obtain hold | hfresh := hnew _ hout
  · exact hover ⟨since, ⟨hold, fun hmem => hkept (hdropped _ hmem)⟩, hnow.trans_lt hlive⟩
  · exact hfresh hknown

/-- Logging out of a token is the end of it. -/
theorem Given.logout_over (h : Given server s) {token : String} (hknown : token ∈ s.issued.map Prod.fst)
    (t : Nat) (fresh : String) : (s.section server fresh t (.logout token)).Over server token := by
  refine ⟨hknown, ?_⟩
  rintro ⟨since, ⟨hissued, hdropped⟩, hlive⟩
  refine hdropped ?_
  show token ∈ ite _ _ _
  by_cases hout : token ∈ s.dropped
  · split
    · exact List.mem_cons_of_mem _ hout
    · exact hout
  · rw [h.kept token since ⟨hissued, hout⟩ hlive]
    exact List.mem_cons_self

/-! ## The whole server -/

/-- **What is known in every state.** -/
structure Known (server : Server) (s : State) : Prop where
  locked : Locked s
  throttled : Throttled server s
  given : Given server s

theorem known_step (h : Known server s) {label : Label} (hstep : (machine server).step s label = some s') :
    Known server s' :=
  ⟨locked_step h.locked (stepped hstep), throttled_step h.throttled h.locked (stepped hstep),
    given_step h.given (stepped hstep)⟩

theorem known_init : Known server {} where
  locked := ⟨fun _ => iff_of_false (fun h => by cases h) (fun h => by cases h),
    fun _ => iff_of_false (fun h => by cases h) (fun h => by cases h)⟩
  throttled :=
    { past := fun _ h => absurd h List.not_mem_nil
      failed := fun _ _ h => by cases h
      quiet := fun _ h => by cases h
      awake := fun _ _ _ _ h => by cases h
      asleep := fun _ _ _ h => by cases h
      slow := fun _ _ _ _ h => by cases h }
  given :=
    { held := fun _ _ h => by cases h
      kept := fun _ _ h => absurd h.1 List.not_mem_nil
      once := List.nodup_nil
      known := fun _ h => absurd h List.not_mem_nil
      earned := fun _ h => absurd h List.not_mem_nil
      waiting := fun _ _ h => by cases h
      told := fun _ _ h => by cases h
      alone := fun _ _ _ h => by cases h }

theorem isFresh_iff {fresh : String} : s.isFresh fresh = true ↔ fresh ∉ s.issued.map Prod.fst := by
  simp [State.isFresh]

theorem goes_step {t : Nat} {fresh : String} (hfresh : s.isFresh fresh = true) :
    (machine server).step s (.goes t fresh) = goes server fresh s t :=
  if_pos hfresh

variable (server) in
/-- Where the tokens' lock is free, two steps of its own answer a thread that wants it. -/
theorem free_prompt {t : Nat} {what : Inside} {fresh : String} (hplace : s.place t = .asks what)
    (hfree : s.tokensLock = none) (hfresh : s.isFresh fresh = true) :
    ∃ s' answer, (machine server).run s [.goes t fresh, .goes t fresh] = some s' ∧
      s'.place t = .answered answer := by
  obtain ⟨answer, hanswer⟩ := section_answered server
    { { s with tokensLock := some t }.goTo t (.inside what) with tokensLock := none } fresh t what
  have henters : goes server fresh s t = some ({ s with tokensLock := some t }.goTo t (.inside what)) := by
    rw [goes, hplace]
    exact if_pos hfree
  refine ⟨_, answer,
    Machine.run_cons.mpr ⟨_, (goes_step hfresh).trans henters, Machine.run_cons.mpr ⟨_, ?_, rfl⟩⟩, hanswer⟩
  rw [goes_step (by exact hfresh), goes, goTo_self]

variable (server) in
/-- The one that has the lock is done after one. -/
theorem held_prompt (h : Locked s) {t holder : Nat} {what : Inside} {fresh : String}
    (hplace : s.place t = .asks what) (hheld : s.tokensLock = some holder) (hfresh : s.isFresh fresh = true) :
    ∃ s', (machine server).step s (.goes holder fresh) = some s' ∧ s'.place t = .asks what ∧
      s'.tokensLock = none ∧
      ∀ entry ∈ s'.issued, entry ∈ s.issued ∨ entry.1 = fresh := by
  have hinside := (h.tokens holder).mp hheld
  have hne : t ≠ holder := by
    rintro rfl
    rw [hplace] at hinside
    cases hinside
  cases hthere : s.place holder with
  | inside doing =>
    refine ⟨_, (goes_step hfresh).trans (by rw [goes, hthere]), ?_,
      (section_keeps server { s with tokensLock := none } fresh holder doing).2.2.1, ?_⟩
    · rw [section_place, if_neg hne, hplace]
    · cases doing with
      | store since =>
        intro entry hentry
        exact (List.mem_cons.mp hentry).symm.imp_right (congrArg Prod.fst)
      | check token => exact fun _ hentry => .inl hentry
      | logout token => exact fun _ hentry => .inl hentry
  | _ =>
    rw [hthere] at hinside
    cases hinside

/-- **What holds of the sessions**, whoever calls what. -/
structure Kept (server : Server) (s : State) : Prop where
  /-- One password is checked at a time, and one thread is at the tokens. -/
  exclusive : ∀ t u, ((s.place t).inLogin = true → (s.place u).inLogin = true → t = u) ∧
    ((s.place t).isInside = true → (s.place u).isInside = true → t = u)
  /-- A token that is good is let in, and nothing else. -/
  checked : ∀ t token fresh s', s.place t = .inside (.check token) →
    (machine server).step s (.goes t fresh) = some s' →
    ∃ valid, s'.place t = .answered (.checked valid) ∧ (valid = true ↔ s.Good server token)
  /-- Whoever has one had the password, and nobody else was given the same. -/
  earned : (∀ entry ∈ s.issued, Earned server s entry.2) ∧
    (∀ t token, (s.place t).told = some token → token ∈ s.issued.map Prod.fst) ∧
    ∀ t u token, (s.place t).told = some token → (s.place u).told = some token → t = u
  /-- One that somebody logged out of, or that is too old, is never good again. -/
  ended : (∀ t token fresh s', s.place t = .inside (.logout token) → token ∈ s.issued.map Prod.fst →
      (machine server).step s (.goes t fresh) = some s' → s'.Over server token) ∧
    ∀ token, s.Over server token → ∀ later s', (machine server).run s later = some s' → s'.Over server token
  /-- Wrong passwords in a row take five seconds each, less the grace. -/
  throttled : ∀ first count newest oldest, s.guesses[first]? = some newest →
    s.guesses[first + count]? = some oldest → Wrong server (s.guesses.drop first) count →
    5 * (count : Seconds) ≤ newest.1 - oldest.1 + 45 / 2
  /-- Who wants the tokens' lock waits for nobody but the one that has it, and no time need pass. -/
  prompt : ∀ t what first second, s.place t = .asks what → first ≠ second → s.isFresh first = true →
    s.isFresh second = true → ∃ labels, labels.length ≤ 3 ∧
      (∀ label ∈ labels, ∃ u fresh, label = .goes u fresh ∧ (u = t ∨ s.tokensLock = some u)) ∧
      ∃ s' answer, (machine server).run s labels = some s' ∧ s'.place t = .answered answer

theorem Known.prompt (h : Known server s) {t : Nat} {what : Inside} {first second : String}
    (hplace : s.place t = .asks what) (hne : first ≠ second) (hfirst : s.isFresh first = true)
    (hsecond : s.isFresh second = true) :
    ∃ labels, labels.length ≤ 3 ∧
      (∀ label ∈ labels, ∃ u fresh, label = .goes u fresh ∧ (u = t ∨ s.tokensLock = some u)) ∧
      ∃ s' answer, (machine server).run s labels = some s' ∧ s'.place t = .answered answer := by
  cases hlock : s.tokensLock with
  | none =>
    refine ⟨[.goes t first, .goes t first], Nat.le_succ 2, fun label hlabel => ⟨t, first, ?_, .inl rfl⟩,
      free_prompt server hplace hlock hfirst⟩
    simpa using hlabel
  | some holder =>
    obtain ⟨s', hstep, hasks, hfree, hissued⟩ := held_prompt server h.locked hplace hlock hfirst
    have hfresh : s'.isFresh second = true := by
      rw [isFresh_iff] at hsecond ⊢
      rintro hmem
      obtain ⟨entry, hentry, rfl⟩ := List.mem_map.mp hmem
      exact (hissued entry hentry).elim (fun hold => hsecond (List.mem_map_of_mem hold)) fun heq => hne heq.symm
    obtain ⟨s'', answer, hrun, hanswer⟩ := free_prompt server hasks hfree hfresh
    refine ⟨[.goes holder first, .goes t second, .goes t second], le_rfl, fun label hlabel => ?_, s'', answer,
      Machine.run_cons.mpr ⟨s', hstep, hrun⟩, hanswer⟩
    obtain rfl | rfl | rfl : label = .goes holder first ∨ label = .goes t second ∨ label = .goes t second := by
      simpa using hlabel
    · exact ⟨holder, first, rfl, .inr rfl⟩
    · exact ⟨t, second, rfl, .inl rfl⟩
    · exact ⟨t, second, rfl, .inl rfl⟩

theorem Known.kept (h : Known server s) : Kept server s where
  exclusive t u := ⟨h.locked.login_eq, fun ht hu =>
    Option.some.inj (((h.locked.tokens t).mpr ht).symm.trans ((h.locked.tokens u).mpr hu))⟩
  checked t token fresh s' hplace hstep := by
    obtain ⟨_, hstep⟩ := Option.ite_none_right_eq_some.mp hstep
    rw [goes, hplace] at hstep
    obtain rfl := Option.some.inj hstep
    exact ⟨_, goTo_self _ t _, h.given.isSome_iff token⟩
  earned := ⟨h.given.earned, h.given.told, h.given.alone⟩
  ended := by
    refine ⟨fun t token fresh s' hplace hknown hstep => ?_, fun token hover later s' hrun => ?_⟩
    · obtain ⟨_, hstep⟩ := Option.ite_none_right_eq_some.mp hstep
      rw [goes, hplace] at hstep
      obtain rfl := Option.some.inj hstep
      have hfree : Given server { s with tokensLock := none } := { h.given with }
      exact hfree.logout_over hknown t fresh
    · exact Machine.run_invariant (I := fun s => s.Over server token)
        (fun _ _ _ hover hstep => over_step (stepped hstep) hover) hover hrun
  throttled first count newest oldest hnewest hold hwrong := by
    have hslow := h.throttled.slow first count newest oldest hnewest hold hwrong
    rwa [Slow, add_zero] at hslow
  prompt t what first second := h.prompt

/-- **Who gets in, and how fast one can guess**, whoever calls what and however the threads take turns. -/
theorem sessions_kept {server : Server} {labels : List Label} {last : State}
    (hrun : (machine server).run {} labels = some last) : Kept server last :=
  (Machine.run_invariant (I := Known server) (fun _ _ _ h hstep => known_step h hstep) known_init hrun).kept

/-- Somebody guesses twice while the owner waits, logs in, and is let in. -/
def guessed : List Label :=
  [.calls 0 (.login "letmein"), .goes 0 "a", .goes 0 "a", .goes 0 "a",
    .calls 0 (.login "hunter2"), .goes 0 "a", .goes 0 "a", .calls 1 (.login "right"), .passes (1 / 2),
    .goes 0 "a", .goes 1 "a", .goes 1 "a", .passes 1, .goes 1 "a", .goes 1 "a", .goes 1 "a",
    .calls 1 (.check (some "a")), .goes 1 "b", .goes 1 "b"]

theorem sessions_kept_guessed :
    ∃ last, (machine ⟨(· == "right"), sessionTtlS⟩).run {} guessed = some last ∧
      last.place 1 = .answered (.checked true) ∧ Kept ⟨(· == "right"), sessionTtlS⟩ last := by
  have hlast : ((machine ⟨(· == "right"), sessionTtlS⟩).run {} guessed).any (fun last =>
      last.place 1 = .answered (.checked true)) = true := by decide +kernel
  rw [Option.any_eq_true] at hlast
  obtain ⟨last, hrun, hchecked⟩ := hlast
  exact ⟨last, hrun, of_decide_eq_true hchecked, sessions_kept hrun⟩

end Gpuc.Control.Sessions
