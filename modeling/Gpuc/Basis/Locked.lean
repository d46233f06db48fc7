import Mathlib.Logic.Function.Basic
import Gpuc.Basis.Run

/-!
# Sections under a lock

Any number of processes change one value by sections: a section takes the lock, reads the value, writes
what replaces it beside it, puts that in its place in one step, and lets go. Between any two of these
steps every other process may take its own, a step may fail, and a process may be killed, upon which the
system takes its lock from it. What a section writes is a function of what it read, or it writes nothing.

The law (`serial_run`): the value is at any time what the sections that have taken effect make of it one
after the other, each of them having read what the one before it left. One that was killed or failed has
taken effect as a whole or not at all, what a section answers it answers from the value at its place in
that order (`answers_sublist`), and one that waits is let in once the holder has gone on to its end
(`lets_in`).
-/

set_option autoImplicit false

namespace Gpuc.Basis.Locked

variable {σ α : Type}

/-- Where a process stands. -/
inductive Place (σ α : Type) where
  | idle
  | waiting (op : α)
  /-- It has the lock, and has read nothing yet. -/
  | holding (op : α)
  /-- It has read, and what is to replace that is not written, or not in full. -/
  | writing (op : α) (found next : σ)
  | written (op : α) (found next : σ)
  /-- It is done: with what it found, or with nothing where it failed. -/
  | leaving (op : α) (found : Option σ)

def Place.holds : Place σ α → Bool
  | .idle | .waiting _ => false
  | .holding _ | .writing _ _ _ | .written _ _ _ | .leaving _ _ => true

/-- **The value, the lock and the processes.** -/
structure Store (σ α : Type) where
  content : σ
  holder : Option Nat := none
  place : Nat → Place σ α := fun _ => .idle

inductive Label (α : Type) where
  | begins (pid : Nat) (op : α)
  | locks (pid : Nat)
  | reads (pid : Nat)
  | writes (pid : Nat)
  /-- What was written is put in the value's place. -/
  | renames (pid : Nat)
  | fails (pid : Nat)
  | leaves (pid : Nat)
  | killed (pid : Nat)

/-- The process stands there now. -/
def Store.goes (s : Store σ α) (pid : Nat) (place : Place σ α) : Store σ α :=
  { s with place := Function.update s.place pid place }

section Step
variable (write : α → σ → Option σ)

/-- **A step of one process.** -/
def step (s : Store σ α) : Label α → Option (Store σ α)
  | .begins pid op =>
    match s.place pid with
    | .idle => some (s.goes pid (.waiting op))
    | _ => none
  | .locks pid =>
    match s.place pid, s.holder with
    | .waiting op, none => some { s.goes pid (.holding op) with holder := some pid }
    | _, _ => none
  | .reads pid =>
    match s.place pid with
    | .holding op =>
      match write op s.content with
      | none => some (s.goes pid (.leaving op (some s.content)))
      | some next => some (s.goes pid (.writing op s.content next))
    | _ => none
  | .writes pid =>
    match s.place pid with
    | .writing op found next => some (s.goes pid (.written op found next))
    | _ => none
  | .renames pid =>
    match s.place pid with
    | .written op found next => some { s.goes pid (.leaving op (some found)) with content := next }
    | _ => none
  | .fails pid =>
    match s.place pid with
    | .holding op | .writing op _ _ | .written op _ _ => some (s.goes pid (.leaving op none))
    | _ => none
  | .leaves pid =>
    match s.place pid with
    | .leaving _ _ => some { s.goes pid .idle with holder := none }
    | _ => none
  | .killed pid =>
    some { s.goes pid .idle with holder := if s.holder = some pid then none else s.holder }

/-- Steps in any order. -/
def machine : Machine (Store σ α) (Label α) where
  step := step write

/-- A section that took effect: whose, which, and what it found. -/
structure Entry (σ α : Type) where
  pid : Nat
  op : α
  found : σ

/-- **The section that takes effect in this step**, if one does: as what it wrote is put in place, or as
it reads what it leaves as it is. -/
def commit : Store σ α × Label α → Option (Entry σ α)
  | (s, .reads pid) =>
    match s.place pid with
    | .holding op => if (write op s.content).isNone then some ⟨pid, op, s.content⟩ else none
    | _ => none
  | (s, .renames pid) =>
    match s.place pid with
    | .written op found _ => some ⟨pid, op, found⟩
    | _ => none
  | _ => none

/-- The section that ends in this step without having failed. -/
def answer : Store σ α × Label α → Option (Entry σ α)
  | (s, .leaves pid) =>
    match s.place pid with
    | .leaving op (some found) => some ⟨pid, op, found⟩
    | _ => none
  | _ => none

/-- **Sections one after the other**, each finding what the one before it left. -/
inductive Serial : σ → List (Entry σ α) → σ → Prop
  | nil (content : σ) : Serial content [] content
  | cons {content last : σ} {pid : Nat} {op : α} {rest : List (Entry σ α)}
      (h : Serial ((write op content).getD content) rest last) :
      Serial content (⟨pid, op, content⟩ :: rest) last

/-- What holds between any two steps: the lock is the holder's, and what it writes is what its section
makes of the value as it is. -/
structure Sound (s : Store σ α) : Prop where
  holder : ∀ pid, (s.place pid).holds = true ↔ s.holder = some pid
  writing : ∀ pid op found next, s.place pid = .writing op found next →
    found = s.content ∧ write op found = some next
  written : ∀ pid op found next, s.place pid = .written op found next →
    found = s.content ∧ write op found = some next

end Step

/-! ## One step -/

section Goes
variable {s : Store σ α} {pid other : Nat} {place : Place σ α}

@[simp] theorem goes_content : (s.goes pid place).content = s.content := rfl

@[simp] theorem goes_holder : (s.goes pid place).holder = s.holder := rfl

@[simp] theorem goes_self : (s.goes pid place).place pid = place := Function.update_self ..

theorem goes_ne (h : other ≠ pid) : (s.goes pid place).place other = s.place other :=
  Function.update_of_ne h ..

end Goes

section Sound
variable {write : α → σ → Option σ} {s s' : Store σ α} {pid : Nat}

theorem sound_start (content : σ) : Sound write ({ content := content } : Store σ α) where
  holder := by simp [Place.holds]
  writing := fun _ _ _ _ h => by cases h
  written := fun _ _ _ _ h => by cases h

/-- Only the holder is between taking the lock and letting go. -/
theorem Sound.eq_of_holds (h : Sound write s) {other : Nat} (hpid : (s.place pid).holds = true)
    (hother : (s.place other).holds = true) : other = pid :=
  Option.some.inj (((h.holder other).mp hother).symm.trans ((h.holder pid).mp hpid))

/-- A process moves within its section, or outside of one, the value as it is. -/
theorem Sound.goes (h : Sound write s) {place : Place σ α} (hholds : place.holds = (s.place pid).holds)
    (hnext : ∀ op found next, place = .writing op found next ∨ place = .written op found next →
      found = s.content ∧ write op found = some next) : Sound write (s.goes pid place) where
  holder other := by
    by_cases heq : other = pid
    · rw [heq, goes_self, hholds, h.holder, goes_holder]
    · rw [goes_ne heq, h.holder, goes_holder]
  writing other op found next hplace := by
    by_cases heq : other = pid
    · rw [heq, goes_self] at hplace
      exact hnext op found next (.inl hplace)
    · rw [goes_ne heq] at hplace
      exact h.writing other op found next hplace
  written other op found next hplace := by
    by_cases heq : other = pid
    · rw [heq, goes_self] at hplace
      exact hnext op found next (.inr hplace)
    · rw [goes_ne heq] at hplace
      exact h.written other op found next hplace

/-- A process goes, and the lock with it. -/
theorem Sound.lets_go (h : Sound write s) (pid : Nat) :
    Sound write { s.goes pid .idle with holder := if s.holder = some pid then none else s.holder } where
  holder other := by
    by_cases heq : other = pid
    · rw [heq, goes_self]
      split
      · simp [Place.holds]
      · next hne => simp [Place.holds, hne]
    · rw [goes_ne heq, h.holder]
      split
      · next hpid => simp [hpid, Ne.symm heq]
      · rfl
  writing other op found next hplace := by
    by_cases heq : other = pid
    · rw [heq, goes_self] at hplace
      cases hplace
    · rw [goes_ne heq] at hplace
      exact h.writing other op found next hplace
  written other op found next hplace := by
    by_cases heq : other = pid
    · rw [heq, goes_self] at hplace
      cases hplace
    · rw [goes_ne heq] at hplace
      exact h.written other op found next hplace

/-- A process takes the lock, where nobody has it. -/
theorem Sound.takes (h : Sound write s) (hfree : s.holder = none) (op : α) :
    Sound write { s.goes pid (.holding op) with holder := some pid } where
  holder other := by
    by_cases heq : other = pid
    · rw [heq, goes_self]
      simp [Place.holds]
    · rw [goes_ne heq, h.holder, hfree]
      simp [Ne.symm heq]
  writing other op' found next hplace := by
    by_cases heq : other = pid
    · rw [heq, goes_self] at hplace
      cases hplace
    · rw [goes_ne heq] at hplace
      exact h.writing other op' found next hplace
  written other op' found next hplace := by
    by_cases heq : other = pid
    · rw [heq, goes_self] at hplace
      cases hplace
    · rw [goes_ne heq] at hplace
      exact h.written other op' found next hplace

/-- The holder puts in place what it wrote: no other process has read what that replaces. -/
theorem Sound.replaces (h : Sound write s) (hholds : (s.place pid).holds = true) (op : α)
    (found : Option σ) (next : σ) :
    Sound write { s.goes pid (.leaving op found) with content := next } where
  holder other := by
    by_cases heq : other = pid
    · rw [heq, goes_self, goes_holder, (h.holder pid).mp hholds]
      simp [Place.holds]
    · rw [goes_ne heq]
      exact h.holder other
  writing other op' found' next' hplace := by
    by_cases heq : other = pid
    · rw [heq, goes_self] at hplace
      cases hplace
    · rw [goes_ne heq] at hplace
      exact absurd (h.eq_of_holds hholds (by rw [hplace]; rfl)) heq
  written other op' found' next' hplace := by
    by_cases heq : other = pid
    · rw [heq, goes_self] at hplace
      cases hplace
    · rw [goes_ne heq] at hplace
      exact absurd (h.eq_of_holds hholds (by rw [hplace]; rfl)) heq

/-- **Every step keeps it.** -/
theorem sound_step {l : Label α} (h : Sound write s) (hstep : step write s l = some s') :
    Sound write s' := by
  cases l with
  | begins pid op =>
    simp only [step] at hstep
    split at hstep
    · next hidle =>
      obtain rfl := Option.some.inj hstep
      exact h.goes (by rw [hidle]; rfl) (by simp)
    · cases hstep
  | locks pid =>
    simp only [step] at hstep
    split at hstep
    · next hwaiting hfree =>
      obtain rfl := Option.some.inj hstep
      exact h.takes hfree _
    · cases hstep
  | reads pid =>
    simp only [step] at hstep
    split at hstep
    · next hholding =>
      split at hstep
      · obtain rfl := Option.some.inj hstep
        exact h.goes (by rw [hholding]; rfl) (by simp)
      · next hnext =>
        obtain rfl := Option.some.inj hstep
        refine h.goes (by rw [hholding]; rfl) fun _ _ _ hplace => ?_
        rcases hplace with hplace | hplace
        · cases hplace
          exact ⟨rfl, hnext⟩
        · cases hplace
    · cases hstep
  | writes pid =>
    simp only [step] at hstep
    split at hstep
    · next hwriting =>
      obtain rfl := Option.some.inj hstep
      refine h.goes (by rw [hwriting]; rfl) fun _ _ _ hplace => ?_
      rcases hplace with hplace | hplace
      · cases hplace
      · cases hplace
        exact h.writing pid _ _ _ hwriting
    · cases hstep
  | renames pid =>
    simp only [step] at hstep
    split at hstep
    · next hwritten =>
      obtain rfl := Option.some.inj hstep
      exact h.replaces (by rw [hwritten]; rfl) _ _ _
    · cases hstep
  | fails pid =>
    simp only [step] at hstep
    split at hstep
    case h_4 => cases hstep
    all_goals
      next hplace =>
        obtain rfl := Option.some.inj hstep
        exact h.goes (by rw [hplace]; rfl) (by simp)
  | leaves pid =>
    simp only [step] at hstep
    split at hstep
    · next hleaving =>
      obtain rfl := Option.some.inj hstep
      have hpid := (h.holder pid).mp (by rw [hleaving]; rfl)
      have hlets := h.lets_go pid
      rwa [if_pos hpid] at hlets
    · cases hstep
  | killed pid =>
    obtain rfl := Option.some.inj hstep
    exact h.lets_go pid

/-- **What one step makes of the value**: what the section that takes effect in it does, or nothing. -/
theorem content_step {l : Label α} (h : Sound write s) (hstep : step write s l = some s') :
    (commit write (s, l) = none ∧ s'.content = s.content) ∨
      ∃ pid op, commit write (s, l) = some ⟨pid, op, s.content⟩ ∧
        s'.content = (write op s.content).getD s.content := by
  cases l with
  | reads pid =>
    simp only [step] at hstep
    split at hstep
    · next op hholding =>
      split at hstep
      · next hnone =>
        obtain rfl := Option.some.inj hstep
        refine .inr ⟨pid, op, ?_, ?_⟩
        · simp only [commit, hholding, hnone, Option.isNone_none, if_true]
        · rw [hnone]
          rfl
      · next hnext =>
        obtain rfl := Option.some.inj hstep
        refine .inl ⟨?_, rfl⟩
        simp only [commit, hholding, hnext, Option.isNone_some, Bool.false_eq_true, if_false]
    · cases hstep
  | renames pid =>
    simp only [step] at hstep
    split at hstep
    · next op found next hwritten =>
      obtain rfl := Option.some.inj hstep
      obtain ⟨rfl, hnext⟩ := h.written pid op _ _ hwritten
      refine .inr ⟨pid, op, ?_, ?_⟩
      · simp only [commit, hwritten]
      · rw [hnext]
        rfl
    · cases hstep
  | begins | locks | writes | fails | leaves =>
    refine .inl ⟨rfl, ?_⟩
    simp only [step] at hstep
    split at hstep
    all_goals first
      | (obtain rfl := Option.some.inj hstep; rfl)
      | cases hstep
  | killed pid =>
    obtain rfl := Option.some.inj hstep
    exact .inl ⟨rfl, rfl⟩

end Sound

/-! ## A run -/

section Run
variable {write : α → σ → Option σ} {s last : Store σ α} {ls : List (Label α)}

/-- The sections that take effect in a run, in that order. -/
def commits (write : α → σ → Option σ) (s : Store σ α) (ls : List (Label α)) : List (Entry σ α) :=
  ((machine write).trace s ls).filterMap (commit write)

/-- The sections that end in a run without having failed. -/
def answers (write : α → σ → Option σ) (s : Store σ α) (ls : List (Label α)) : List (Entry σ α) :=
  ((machine write).trace s ls).filterMap answer

/-- **The sections of a run take effect one after the other.** -/
theorem serial_run (h : Sound write s) (hrun : (machine write).run s ls = some last) :
    Serial write s.content (commits write s ls) last.content := by
  induction ls generalizing s with
  | nil =>
    obtain rfl := Option.some.inj hrun
    exact .nil s.content
  | cons l ls ih =>
    obtain ⟨next, hstep, hrest⟩ := Machine.run_cons.mp hrun
    have hserial := ih (sound_step h hstep) hrest
    rw [commits, Machine.trace, hstep]
    rcases content_step h hstep with ⟨hnone, hcontent⟩ | ⟨pid, op, hsome, hcontent⟩
    · rw [List.filterMap_cons_none hnone, ← hcontent]
      exact hserial
    · rw [List.filterMap_cons_some hsome]
      rw [hcontent] at hserial
      exact .cons hserial

/-- What a process there has done and not yet answered. -/
def Place.pending (pid : Nat) : Place σ α → List (Entry σ α)
  | .leaving op (some found) => [⟨pid, op, found⟩]
  | _ => []

/-- What the holder has done and not yet answered. -/
def Store.pending (s : Store σ α) : List (Entry σ α) :=
  match s.holder with
  | none => []
  | some pid => (s.place pid).pending pid

theorem pending_of_holder (pid : Nat) (h : s.holder = some pid) :
    s.pending = (s.place pid).pending pid := by
  rw [Store.pending, h]

theorem pending_goes_self {pid : Nat} (place : Place σ α) (h : s.holder = some pid) :
    (s.goes pid place).pending = place.pending pid := by
  rw [pending_of_holder pid (s := s.goes pid place) h, goes_self]

/-- A step of a process without the lock leaves what the holder has to answer. -/
theorem pending_goes {pid : Nat} (place : Place σ α) (hnot : s.holder ≠ some pid) :
    (s.goes pid place).pending = s.pending := by
  unfold Store.pending
  rw [goes_holder]
  cases hholder : s.holder with
  | none => rfl
  | some other =>
    have hne : other ≠ pid := fun heq => hnot (by rw [hholder, heq])
    simp only [goes_ne hne]

/-- **What is answered has taken effect**, once, and what takes effect is still to be answered. -/
theorem pending_step {l : Label α} {next : Store σ α} (h : Sound write s)
    (hstep : step write s l = some next) :
    ((answer (s, l)).toList ++ next.pending).Sublist (s.pending ++ (commit write (s, l)).toList) := by
  have hholds : ∀ {pid place}, s.place pid = place → place.holds = true → s.holder = some pid :=
    fun {pid place} hplace hplaceHolds => (h.holder pid).mp (hplace ▸ hplaceHolds)
  cases l with
  | begins pid op =>
    simp only [step] at hstep
    split at hstep
    · next hidle =>
      obtain rfl := Option.some.inj hstep
      have hnot : s.holder ≠ some pid := by
        rw [ne_eq, ← h.holder, hidle]
        exact Bool.false_ne_true
      rw [pending_goes _ hnot]
      exact List.sublist_append_left _ _
    · cases hstep
  | locks pid =>
    simp only [step] at hstep
    split at hstep
    · obtain rfl := Option.some.inj hstep
      rw [pending_of_holder pid rfl, goes_self]
      exact List.nil_sublist _
    · cases hstep
  | reads pid =>
    simp only [step] at hstep
    split at hstep
    · next op hholding =>
      have hholder := hholds hholding rfl
      split at hstep
      · next hnone =>
        obtain rfl := Option.some.inj hstep
        rw [pending_goes_self _ hholder]
        simp only [answer, commit, hholding, hnone, Option.isNone_none, if_true]
        exact List.sublist_append_right _ _
      · obtain rfl := Option.some.inj hstep
        rw [pending_goes_self _ hholder]
        exact List.nil_sublist _
    · cases hstep
  | writes pid =>
    simp only [step] at hstep
    split at hstep
    · next hwriting =>
      obtain rfl := Option.some.inj hstep
      rw [pending_goes_self _ (hholds hwriting rfl)]
      exact List.nil_sublist _
    · cases hstep
  | renames pid =>
    simp only [step] at hstep
    split at hstep
    · next op found _ hwritten =>
      obtain rfl := Option.some.inj hstep
      have hpending := pending_goes_self (.leaving op (some found)) (hholds hwritten rfl)
      simp only [answer, commit, hwritten]
      exact hpending ▸ List.sublist_append_right _ _
    · cases hstep
  | fails pid =>
    simp only [step] at hstep
    split at hstep
    case h_4 => cases hstep
    all_goals
      next hplace =>
        obtain rfl := Option.some.inj hstep
        rw [pending_goes_self _ (hholds hplace rfl)]
        exact List.nil_sublist _
  | leaves pid =>
    simp only [step] at hstep
    split at hstep
    · next op found hleaving =>
      obtain rfl := Option.some.inj hstep
      rw [pending_of_holder pid (hholds hleaving rfl), hleaving]
      cases found with
      | none =>
        simp only [answer, hleaving]
        exact List.nil_sublist _
      | some found =>
        simp only [answer, hleaving]
        exact List.sublist_append_left _ _
    · cases hstep
  | killed pid =>
    obtain rfl := Option.some.inj hstep
    by_cases hholder : s.holder = some pid
    · simp only [if_pos hholder]
      exact List.nil_sublist _
    · have hsame := pending_goes .idle hholder
      simp only [if_neg hholder]
      refine List.Sublist.trans ?_ (List.sublist_append_left _ _)
      exact hsame ▸ List.Sublist.refl _

/-- What is answered has taken effect, or had before the run. -/
theorem answers_sublist_pending (h : Sound write s) (hrun : (machine write).run s ls = some last) :
    (answers write s ls).Sublist (s.pending ++ commits write s ls) := by
  induction ls generalizing s with
  | nil => exact List.nil_sublist _
  | cons l ls ih =>
    obtain ⟨next, hstep, hrest⟩ := Machine.run_cons.mp hrun
    have hfirst := pending_step h hstep
    have hlater := ih (sound_step h hstep) hrest
    have hanswers : answers write s (l :: ls) = (answer (s, l)).toList ++ answers write next ls := by
      rw [answers, Machine.trace, hstep, List.filterMap_cons]
      cases answer (s, l) <;> rfl
    have hcommits : commits write s (l :: ls)
        = (commit write (s, l)).toList ++ commits write next ls := by
      rw [commits, Machine.trace, hstep, List.filterMap_cons]
      cases commit write (s, l) <;> rfl
    rw [hanswers, hcommits, ← List.append_assoc]
    calc (answer (s, l)).toList ++ answers write next ls
        |>.Sublist ((answer (s, l)).toList ++ (next.pending ++ commits write next ls)) :=
          hlater.append_left _
      _ |>.Sublist _ := by
          rw [← List.append_assoc]
          exact hfirst.append_right _

/-- **A section answers from the value at its place in the order**: those that end without having failed
are some of those that take effect, with what they found. -/
theorem answers_sublist {content : σ}
    (hrun : (machine write).run { content := content } ls = some last) :
    (answers write { content := content } ls).Sublist (commits write { content := content } ls) :=
  answers_sublist_pending (sound_start content) hrun

end Run

/-! ## Getting out, and in -/

section Exits
variable {write : α → σ → Option σ} {s : Store σ α} {pid other : Nat}

/-- Whose step this is, if it is one of a holder that goes on. -/
def Label.goesOn : Label α → Option Nat
  | .reads pid | .writes pid | .renames pid | .leaves pid => some pid
  | .begins _ _ | .locks _ | .fails _ | .killed _ => none

/-- The holder lets go within so many steps of its own, and no other process is moved by them. -/
def Exits (write : α → σ → Option σ) (s : Store σ α) (pid n : Nat) : Prop :=
  ∃ ls : List (Label α), ls.length ≤ n ∧ (∀ l ∈ ls, l.goesOn = some pid) ∧
    ∃ next, (machine write).run s ls = some next ∧ next.holder = none ∧
      ∀ other, other ≠ pid → next.place other = s.place other

theorem Exits.mono {n m : Nat} (h : Exits write s pid n) (hle : n ≤ m) : Exits write s pid m := by
  obtain ⟨ls, hlength, hrest⟩ := h
  exact ⟨ls, Nat.le_trans hlength hle, hrest⟩

theorem exits_of_step (n : Nat) (l : Label α) (next : Store σ α) (hl : l.goesOn = some pid)
    (hstep : step write s l = some next) (hplace : ∀ other, other ≠ pid → next.place other = s.place other)
    (hexits : Exits write next pid n) : Exits write s pid (n + 1) := by
  obtain ⟨ls, hlength, hown, last, hrun, hfree, hothers⟩ := hexits
  refine ⟨l :: ls, Nat.succ_le_succ hlength, List.forall_mem_cons.mpr ⟨hl, hown⟩, last,
    Machine.run_cons.mpr ⟨next, hstep, hrun⟩, hfree, fun other hne => ?_⟩
  rw [hothers other hne, hplace other hne]

theorem exits_leaving {op : α} {found : Option σ} (h : s.place pid = .leaving op found) :
    Exits write s pid 1 := by
  refine exits_of_step 0 (.leaves pid) { s.goes pid .idle with holder := none }
    rfl ?_ (fun other => goes_ne) ⟨[], Nat.le_refl 0, by simp, _, rfl, rfl, fun _ _ => rfl⟩
  simp only [step, h]

theorem exits_written {op : α} {found next : σ} (h : s.place pid = .written op found next) :
    Exits write s pid 2 := by
  refine exits_of_step 1 (.renames pid) { s.goes pid (.leaving op (some found)) with
    content := next } rfl ?_ (fun other => goes_ne) (exits_leaving goes_self)
  simp only [step, h]

theorem exits_writing {op : α} {found next : σ} (h : s.place pid = .writing op found next) :
    Exits write s pid 3 := by
  refine exits_of_step 2 (.writes pid) (s.goes pid (.written op found next)) rfl
    ?_ (fun other => goes_ne) (exits_written goes_self)
  simp only [step, h]

theorem exits_holding {op : α} (h : s.place pid = .holding op) : Exits write s pid 4 := by
  cases hnext : write op s.content with
  | none =>
    have hexits : Exits write s pid 2 := by
      refine exits_of_step _ (.reads pid) (s.goes pid (.leaving op (some s.content))) rfl
        ?_ (fun other => goes_ne) (exits_leaving goes_self)
      simp only [step, h, hnext]
    exact hexits.mono (by omega)
  | some next =>
    refine exits_of_step _ (.reads pid) (s.goes pid (.writing op s.content next)) rfl
      ?_ (fun other => goes_ne) (exits_writing goes_self)
    simp only [step, h, hnext]

/-- **One that waits is let in**: after four steps of the holder's own at most, nobody has the lock. -/
theorem lets_in {op : α} (h : Sound write s) (hwaiting : s.place pid = .waiting op) :
    ∃ ls : List (Label α), ls.length ≤ 4 ∧ (∀ l ∈ ls, l.goesOn = s.holder) ∧
      ∃ next, (machine write).run s ls = some next ∧ (step write next (.locks pid)).isSome = true := by
  have hin : ∀ next : Store σ α, next.holder = none → next.place pid = .waiting op →
      (step write next (.locks pid)).isSome = true := by
    intro next hfree hplace
    simp only [step, hplace, hfree, Option.isSome_some]
  cases hholder : s.holder with
  | none => exact ⟨[], by simp, by simp, s, rfl, hin s hholder hwaiting⟩
  | some other =>
    have hholds := (h.holder other).mpr hholder
    have hne : pid ≠ other := by
      rintro rfl
      rw [hwaiting] at hholds
      cases hholds
    have hexits : Exits write s other 4 := by
      cases hplace : s.place other with
      | idle | waiting =>
        rw [hplace] at hholds
        cases hholds
      | holding => exact exits_holding hplace
      | writing => exact (exits_writing hplace).mono (by omega)
      | written => exact (exits_written hplace).mono (by omega)
      | leaving => exact (exits_leaving hplace).mono (by omega)
    obtain ⟨ls, hlength, hown, next, hrun, hfree, hothers⟩ := hexits
    exact ⟨ls, hlength, hown, next, hrun, hin next hfree (by rw [hothers pid hne, hwaiting])⟩

end Exits

end Gpuc.Basis.Locked
