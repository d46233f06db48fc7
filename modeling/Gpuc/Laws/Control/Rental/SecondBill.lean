import Gpuc.Laws.Control.Rental.Attempt

/-!
# No second bill

Before an attempt buys another pod, what the last create made is to be gone. A create is `Creation.Settled` by
what follows it when it was refused, when a listing was answered without a live pod under its name, or
when the provider has confirmed that what it made is gone.

The law (`no_second_bill`): every create of a run finds those before it settled, unless an offer of the
run slips past its pod (`SlipsPast`), which is to leave with a failure that the attempt goes on from
while the end of the pod is not confirmed. The one that needs no more than a provider that does not
answer is a pod that fails to come up and is not ended: `_abandon` answers `False`, and the rule for the
failure does not look at it (`buys_past_failed_terminate`).

The provider is taken at its word: a pod that is listed under a create's name is the one it made.
-/

set_option autoImplicit false

namespace Gpuc.Control

open Gpuc.Basis Gpuc.Basis.Act

variable {σ Offer Transport Entry : Type}

/-- What follows a create leaves no pod of it to bill for. -/
inductive Creation.Settled (w : World σ Offer Transport Entry) (name : String) (creation : Creation)
    (after : List Event) : Prop
  | refused (h : creation.answer = .error .createRefused)
  | absent {e : Exn} {pods : List Pod} (hfailed : creation.answer = .error e)
      (hlisted : .listed pods ∈ after) (hnone : w.liveUnder name pods = [])
  | gone (h : ∀ podId, creation.made = some podId → .confirmed podId ∈ after)

/-- Every create of the log is settled by what follows it. -/
def Clear (w : World σ Offer Transport Entry) (log : List Event) : Prop :=
  ∀ before name creation after, log = before ++ .created name creation :: after →
    Creation.Settled w name creation after

/-- **No second bill**: every create finds those before it settled. -/
def NoSecondBill (w : World σ Offer Transport Entry) (log : List Event) : Prop :=
  ∀ before name creation after, log = before ++ .created name creation :: after → Clear w before

/-- A pod that is listed under a create's name is the one it made. -/
def NamesOwn (log : List Event) : Prop :=
  ∀ before name creation after, log = before ++ .created name creation :: after →
    ∀ pods, .listed pods ∈ after → ∀ pod ∈ pods, pod.name = name → creation.made = some pod.id

/-- What an offer leaves with, when bringing its pod up raised and giving it up then went so. -/
def leavesWith (e : Exn) : Outcome Exn Bool → Exn
  | .raised e' => e'
  | .returned _ | .going => e

/-- **An offer slips past its pod**: from where its create was answered, it leaves with a failure that
the attempt goes on from, and the end of the pod is not confirmed. -/
inductive SlipsPast (w : World σ Offer Transport Entry) (fuel : Nat) (deadline : ℚ) (name : String)
    (creation : Creation) (s : Logged σ Event) : Prop
  /-- The report of the new pod raised. -/
  | unannounced {pod : Pod} {e : Exn} {s₁ : Logged σ Event} (hmade : creation.answer = .ok pod)
      (hreport : announce w s = (.raised e, s₁)) (he : e.goesOn)
  /-- The pod did not come up, and its end was not confirmed. -/
  | unended {pod : Pod} {e : Exn} {s₁ s₂ : Logged σ Event} {outcome : Outcome Exn Bool}
      (hmade : creation.answer = .ok pod) (hreport : announce w s = (.returned (), s₁))
      (hfailed : bringUp w fuel name pod deadline s₁ = (.raised e, s₂))
      (hunended : Unended w pod.id s₂ outcome) (he : (leavesWith e outcome).goesOn)
  /-- The search for a pod made anyway raised before it had settled anything. -/
  | unswept {e e' : Exn} {s₁ : Logged σ Event} {events : List Event}
      (hfailed : creation.answer = .error e) (hsweep : sweepFailedCreate w name s = (.raised e', s₁))
      (hlog : s₁.log = s.log ++ events) (hunsettled : ¬ Creation.Settled w name creation events)
      (he : e'.goesOn ∨ e' = .interrupt ∧ ∃ e'' s₂, progress w s₁ = (.raised e'', s₂) ∧ e''.goesOn)

/-- A create of the run that starts with this world: its name, its answer, and where it left the
attempt. -/
def Buys (w : World σ Offer Transport Entry) (fuel : Nat) (world : σ) (deadline : ℚ) (name : String)
    (creation : Creation) (s : Logged σ Event) : Prop :=
  ∃ offers s₀ offer s₁, openAttempt w { world, log := [] } = (.returned (offers, deadline), s₀) ∧
    Tried w fuel deadline offers s₀ offer s₁ ∧ Bought w offer s₁ name creation s

section Law
variable {w : World σ Offer Transport Entry} {fuel : Nat} {deadline : ℚ}

theorem quiet_announce : Quiet (announce w) :=
  (quiet_call _).bind fun _ => quiet_progress

theorem ends_announce : Ends (announce w) :=
  (ends_call _).bind fun _ => ends_progress

theorem mem_liveUnder {name : String} {pods : List Pod} {pod : Pod} :
    pod ∈ w.liveUnder name pods ↔ pod ∈ pods ∧ pod.name = name ∧ ¬ w.isGone (some pod) := by
  simp [World.liveUnder]

theorem Creation.Settled.append {name : String} {creation : Creation} {after events : List Event}
    (h : Creation.Settled w name creation after) : Creation.Settled w name creation (after ++ events) := by
  cases h with
  | refused h => exact .refused h
  | absent hfailed hlisted hnone => exact .absent hfailed (List.mem_append_left _ hlisted) hnone
  | gone h => exact .gone fun podId hmade => List.mem_append_left _ (h podId hmade)

/-- Where a create stands in a log that ends with events among which there is none. -/
theorem created_of_noCreate {log events before after : List Event} {name : String}
    {creation : Creation} (hevents : NoCreate events)
    (h : log ++ events = before ++ .created name creation :: after) :
    ∃ after', log = before ++ .created name creation :: after' ∧ after = after' ++ events := by
  rcases List.append_eq_append_iff.mp h with ⟨tail, rfl, htail⟩ | ⟨tail, rfl, htail⟩
  · exact absurd (by simp [htail]) (hevents name creation)
  · cases tail with
    | nil =>
      rw [List.nil_append] at htail
      exact absurd (by simp [← htail]) (hevents name creation)
    | cons event tail =>
      cases htail
      exact ⟨tail, rfl, rfl⟩

theorem Clear.append {log events : List Event} (h : Clear w log) (hevents : NoCreate events) :
    Clear w (log ++ events) := by
  intro before name creation after heq
  obtain ⟨after', hlog, rfl⟩ := created_of_noCreate hevents heq
  exact (h before name creation after' hlog).append

theorem NoSecondBill.append {log events : List Event} (h : NoSecondBill w log)
    (hevents : NoCreate events) : NoSecondBill w (log ++ events) := by
  intro before name creation after heq
  obtain ⟨after', hlog, -⟩ := created_of_noCreate hevents heq
  exact h before name creation after' hlog

/-- Where a create stands in a log that goes on with one. -/
theorem created_snoc {log before after : List Event} {name name' : String}
    {creation creation' : Creation}
    (h : log ++ [.created name' creation'] = before ++ .created name creation :: after) :
    before = log ∧ name = name' ∧ creation = creation' ∧ after = [] ∨
      ∃ after', log = before ++ .created name creation :: after' ∧
        after = after' ++ [.created name' creation'] := by
  rcases List.eq_nil_or_concat after with rfl | ⟨after, last, rfl⟩
  · obtain ⟨rfl, hlast⟩ := List.append_inj' h rfl
    cases hlast
    exact .inl ⟨rfl, rfl, rfl, rfl⟩
  · rw [List.concat_eq_append] at h ⊢
    rw [← List.cons_append, ← List.append_assoc] at h
    obtain ⟨rfl, hlast⟩ := List.append_inj' h rfl
    cases hlast
    exact .inr ⟨after, rfl, rfl⟩

theorem NoSecondBill.create {log : List Event} {name : String} {creation : Creation}
    (h : NoSecondBill w log) (hclear : Clear w log) :
    NoSecondBill w (log ++ [.created name creation]) := by
  intro before name' creation' after heq
  rcases created_snoc heq with ⟨rfl, -⟩ | ⟨after', hlog, -⟩
  · exact hclear
  · exact h before name' creation' after' hlog

theorem Clear.create {log : List Event} {name : String} {creation : Creation} {events : List Event}
    (h : Clear w log) (hevents : NoCreate events) (hsettled : Creation.Settled w name creation events) :
    Clear w (log ++ .created name creation :: events) := by
  intro before name' creation' after heq
  rw [← List.singleton_append, ← List.append_assoc] at heq
  obtain ⟨after', hlog, rfl⟩ := created_of_noCreate hevents heq
  rcases created_snoc hlog with ⟨-, rfl, rfl, rfl⟩ | ⟨after'', hlog', rfl⟩
  · exact hsettled
  · exact ((h before name' creation' after'' hlog').append).append

theorem NamesOwn.left {log events : List Event} (h : NamesOwn (log ++ events)) : NamesOwn log := by
  intro before name creation after heq pods hpods
  refine h before name creation (after ++ events) ?_ pods (List.mem_append_left _ hpods)
  rw [heq, List.append_assoc, List.cons_append]

/-- **What a pod there is leaves the attempt with**: an entry, or no pod to bill for, or a failure that
ends the attempt; or it slips past. -/
theorem podMade_emits {name : String} {creation : Creation} {pod : Pod} {s : Logged σ Event}
    (hmade : creation.answer = .ok pod) (hslip : ¬ SlipsPast w fuel deadline name creation s) :
    Emits (podMade w fuel name pod deadline) s fun outcome events =>
      NoCreate events ∧ ∀ e, outcome = .raised e → e.goesOn → Creation.Settled w name creation events := by
  have hgone : Creation.Settled w name creation [.confirmed pod.id] := by
    refine .gone fun podId h => ?_
    unfold Creation.made at h
    rw [hmade] at h
    cases h
    exact List.mem_singleton.mpr rfl
  refine quiet_announce.emits_nil.bind_cases ?_ ?_ fun _ h => absurd h (ends_announce s)
  swap
  · rintro e s₁ _ hreport rfl
    refine ⟨noCreate_nil, fun e' heq he => ?_⟩
    cases heq
    exact absurd (.unannounced hmade hreport he) hslip
  rintro _ s₁ _ hreport rfl
  refine (quiet_bringUp fuel name pod deadline).emits_nil.bind_attempt ?_ ?_ ?_
  · rintro entry s₂ _ - rfl
    exact Emits.pure ⟨noCreate_nil, nofun⟩
  swap
  · rintro _ - rfl
    exact ⟨noCreate_nil, nofun⟩
  rintro e s₂ _ hfailed rfl
  refine (abandonOrBill_emits name pod.id s₂).bind_cases ?_ ?_ ?_
  · rintro _ s₃ events - hgiven
    refine Emits.raise ?_
    simp only [List.nil_append, List.append_nil]
    refine ⟨hgiven.noCreate, fun e' heq he => ?_⟩
    cases heq
    cases hgiven with
    | gone => exact hgone
    | billed hunended => exact absurd (.unended hmade hreport hfailed hunended he) hslip
  · rintro e' s₃ events - hgiven
    simp only [List.nil_append]
    refine ⟨hgiven.noCreate, fun e'' heq he => ?_⟩
    cases heq
    cases hgiven with
    | goneRaised => exact hgone
    | unended hunended => exact absurd (.unended hmade hreport hfailed hunended he) hslip
  · rintro events - hgiven
    cases hgiven

/-- **What a create that failed leaves the attempt with.** -/
theorem createFailed_emits {name : String} {creation : Creation} {e : Exn} {s : Logged σ Event}
    (hname : w.namePrefix.toList.isPrefixOf name.toList)
    (hfailed : creation.answer = .error e) (hslip : ¬ SlipsPast w fuel deadline name creation s) :
    Emits (createFailed w name e : Prog σ Entry) s fun outcome events =>
      NoCreate events ∧ ∀ e', outcome = .raised e' → e'.goesOn →
        NamesOwn (.created name creation :: events) → Creation.Settled w name creation events := by
  unfold createFailed
  split
  · next hrefused =>
    subst hrefused
    exact Emits.raise ⟨noCreate_nil, fun _ _ _ _ => .refused hfailed⟩
  next hrefused =>
  refine (sweepFailedCreate_emits hname s).logged.bind_attempt ?_ ?_ ?_
  · rintro settled s₁ events - ⟨⟨hcreate, htrue, -⟩, -⟩
    dsimp only
    split
    · refine Emits.raise ?_
      rw [List.append_nil]
      refine ⟨hcreate, fun e' heq he => ?_⟩
      cases heq
      cases he
    · next hsettled =>
      refine Emits.raise ?_
      rw [List.append_nil]
      refine ⟨hcreate, fun e' heq he hown => ?_⟩
      cases heq
      have hexception : e.isException := by
        cases e <;> first | rfl | cases he
      simp only [hexception, Bool.and_true, Bool.not_eq_true', Bool.not_eq_false] at hsettled
      subst hsettled
      obtain ⟨hanswered, hall⟩ := htrue rfl
      obtain ⟨pods, hpods⟩ := hanswered.resolve_left (by simp)
      cases hlive : w.liveUnder name pods with
      | nil => exact .absent hfailed hpods hlive
      | cons pod rest =>
        have hpod : pod ∈ w.liveUnder name pods := by simp [hlive]
        have hconfirmed := hall pods hpods pod hpod
        obtain ⟨hmem, hnamed⟩ := mem_liveUnder.mp hpod
        have hmade := hown [] name creation events rfl pods hpods pod hmem hnamed.1
        refine .gone fun podId h => ?_
        rw [hmade] at h
        cases h
        exact hconfirmed
  · rintro e' s₁ events hsweep ⟨⟨hcreate, -, -⟩, hlog⟩
    rw [hsweep] at hlog
    dsimp only at hlog ⊢
    split
    · next hinterrupt =>
      refine progress_bind_emits (fun s₂ _ => ?_) fun e'' s₂ hreport => ?_
      · refine Emits.bind (Emits.emit (Emits.raise ?_))
        simp only [List.append_nil]
        refine ⟨noCreate_append.mpr ⟨hcreate, noCreate_billed _⟩, fun e'' heq he => ?_⟩
        cases heq
        subst hinterrupt
        cases he
      · rw [List.append_nil]
        refine ⟨hcreate, fun e''' heq he _ => ?_⟩
        cases heq
        by_contra hunsettled
        exact hslip (.unswept hfailed hsweep hlog hunsettled (.inr ⟨hinterrupt, _, _, hreport, he⟩))
    · refine Emits.raise ?_
      rw [List.append_nil]
      refine ⟨hcreate, fun e'' heq he _ => ?_⟩
      cases heq
      by_contra hunsettled
      exact hslip (.unswept hfailed hsweep hlog hunsettled (.inl he))
  · rintro events - ⟨⟨hcreate, -, -⟩, -⟩
    exact ⟨hcreate, nofun⟩

theorem NamesOwn.right {log events : List Event} (h : NamesOwn (log ++ events)) : NamesOwn events := by
  intro before name creation after heq
  refine h (log ++ before) name creation after ?_
  rw [heq, List.append_assoc]

theorem afterCreate_emits {name : String} {creation : Creation} {s : Logged σ Event}
    (hname : w.namePrefix.toList.isPrefixOf name.toList)
    (hslip : ¬ SlipsPast w fuel deadline name creation s) :
    Emits (afterCreate w fuel name creation deadline) s fun outcome events =>
      NoCreate events ∧ ∀ e, outcome = .raised e → e.goesOn →
        NamesOwn (.created name creation :: events) → Creation.Settled w name creation events := by
  unfold afterCreate
  split
  · next e hfailed => exact createFailed_emits hname hfailed hslip
  · next pod hmade =>
    refine (podMade_emits hmade hslip).imp ?_
    rintro outcome events ⟨hcreate, hsettled⟩
    exact ⟨hcreate, fun e heq he _ => hsettled e heq he⟩

theorem quiet_openAttempt : Quiet (openAttempt w) := by
  refine (quiet_call _).bind fun _ => (quiet_call _).bind fun _ => (quiet_call _).bind fun _ => ?_
  refine quiet_progress.bind fun _ => (quiet_call _).bind fun offers => (quiet_raise _).ite ?_
  exact (quiet_call _).bind fun _ => quiet_progress.bind fun _ => quiet_pure _

theorem noSecondBill_nil : NoSecondBill w [] := by
  intro before name creation after h
  simp at h

theorem clear_nil : Clear w [] := by
  intro before name creation after h
  simp at h

end Law

/-! ## Pods that vanish as they boot -/

/-- Two offers, whose pods vanish as they boot, and a provider that answers each terminate so. -/
def vanishing (terminate : Except Exn Unit) : World Nat Nat Unit Unit where
  providerName := "runpod"
  namePrefix := "gpuc-"
  brokenHost _ := false
  offers n := (.ok [0, 1], n)
  create _ name n := ({ answer := .ok { id := name, name } }, n)
  get _ n := (.ok none, n)
  logs _ n := (.ok "", n)
  terminate _ n := (terminate, n)
  list n := (.ok [], n)
  ensureSshKey n := (.ok (), n)
  now n := (.ok 0, n)
  sleep _ n := (.ok (), n)
  report n := (.ok (), n)
  hint := "job"
  token n := (.ok (toString n), n + 1)
  publicKeyPath n := (.ok (), n)
  forgetHost _ _ n := (.ok (), n)
  register _ n := (.ok (), n)
  transportFactory _ n := (.ok (), n)
  run _ n := (.ok ⟨0, ""⟩, n)
  probe _ _ n := (.ok ⟨[], none, none⟩, n)
  connect _ _ n := (.ok (), n)
  bootstrap _ _ n := (.ok (), n)

/-- The pod that is made under a name, and nothing else of it. -/
def bare (name : String) : Creation := { answer := .ok { id := name, name } }

end Gpuc.Control
