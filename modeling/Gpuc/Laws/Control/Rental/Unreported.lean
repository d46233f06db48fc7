import Gpuc.Laws.Control.Rental.SecondBill

/-!
# No unreported bill

When an attempt is left, a pod it made is the one it returns, or is confirmed gone, or is on the
`billing` list by its id or by its name (`Accounted`).

The law (`no_unreported_bill`): so it is, however the attempt is left, unless a create of the run leaks
its pod (`Leaks`). A pod leaks where an exception lands that no handler is there for: on the first report
of it, which comes before the block that terminates; in the cleanup, which handles a `ProviderError` and
no other exception (`leaks_unreadable_answer`, an answer to the terminate that does not parse); in the
search for a pod that was made anyway, which handles an interrupt besides. And it leaks where that search
is shown listings, and none of them has the pod.
-/

set_option autoImplicit false

namespace Gpuc.Control

open Gpuc.Basis Gpuc.Basis.Act

variable {σ Offer Transport Entry : Type}

/-- What follows a create has the pod it made confirmed gone, or on the `billing` list. -/
def Accounted (name : String) (creation : Creation) (after : List Event) : Prop :=
  ∀ podId, creation.made = some podId →
    .confirmed podId ∈ after ∨ .billed podId ∈ after ∨ .billed (unknownId name) ∈ after

/-- Every create of the log but perhaps the last is accounted for, and that one too unless its pod is
what is returned. -/
def NoUnreportedBill (outcome : Outcome Exn Entry) (log : List Event) : Prop :=
  ∀ before name creation after, log = before ++ .created name creation :: after →
    Accounted name creation after ∨
      (∃ entry, outcome = .returned entry) ∧ NoCreate after ∧ ∃ pod, creation.answer = .ok pod

/-- **A create leaks its pod**: from where it was answered, its offer is left with the pod neither
confirmed gone nor billed. -/
inductive Leaks (w : World σ Offer Transport Entry) (fuel : Nat) (deadline : ℚ) (name : String)
    (creation : Creation) (s : Logged σ Event) : Prop
  /-- The report of the new pod raised. -/
  | unannounced {pod : Pod} {e : Exn} {s₁ : Logged σ Event} (hmade : creation.answer = .ok pod)
      (hreport : announce w s = (.raised e, s₁))
  /-- The pod did not come up, and the cleanup raised before its end was confirmed. -/
  | unended {pod : Pod} {e e' : Exn} {s₁ s₂ : Logged σ Event}
      (hmade : creation.answer = .ok pod) (hreport : announce w s = (.returned (), s₁))
      (hfailed : bringUp w fuel name pod deadline s₁ = (.raised e, s₂))
      (hunended : Unended w pod.id s₂ (.raised e'))
  /-- The search for a pod made anyway raised before it had accounted for it, and not by an interrupt
  that was reported. -/
  | unswept {e e' : Exn} {s₁ : Logged σ Event} {events : List Event}
      (hfailed : creation.answer = .error e) (hsweep : sweepFailedCreate w name s = (.raised e', s₁))
      (hlog : s₁.log = s.log ++ events) (hunaccounted : ¬ Accounted name creation events)
      (hreport : e' = .interrupt → ∃ e'' s₂, progress w s₁ = (.raised e'', s₂))
  /-- The search was shown listings, and none has a live pod under the name of the one made. -/
  | unseen {e : Exn} {podId : String} {s₁ : Logged σ Event} {events : List Event}
      (hfailed : creation.answer = .error e) (hmade : creation.made = some podId)
      (hsweep : sweepFailedCreate w name s = (.returned true, s₁)) (hlog : s₁.log = s.log ++ events)
      (hnone : ∀ pods, .listed pods ∈ events → w.liveUnder name pods = [])

section Law
variable {w : World σ Offer Transport Entry} {fuel : Nat} {deadline : ℚ}

theorem Accounted.append {name : String} {creation : Creation} {after events : List Event}
    (h : Accounted name creation after) : Accounted name creation (after ++ events) := by
  intro podId hmade
  refine (h podId hmade).imp (List.mem_append_left _) ?_
  exact Or.imp (List.mem_append_left _) (List.mem_append_left _)

/-- **What a pod there is leaves when its offer is left.** -/
theorem podMade_accounts {name : String} {creation : Creation} {pod : Pod} {s : Logged σ Event}
    (hmade : creation.answer = .ok pod) (hleak : ¬ Leaks w fuel deadline name creation s) :
    Emits (podMade w fuel name pod deadline) s fun outcome events =>
      NoCreate events ∧ ∀ e, outcome = .raised e → Accounted name creation events := by
  have hid : ∀ podId, creation.made = some podId → podId = pod.id := by
    intro podId h
    unfold Creation.made at h
    rw [hmade] at h
    cases h
    rfl
  have hgiven : ∀ {s₂ : Logged σ Event} {outcome : Outcome Exn Unit} {events : List Event},
      GivenUp w pod.id s₂ outcome events → (∀ e, outcome = .raised e → events ≠ []) →
      Accounted name creation events := by
    intro s₂ outcome events hgiven hraised podId h
    rw [hid podId h]
    cases hgiven with
    | gone | goneRaised => exact .inl (List.mem_singleton.mpr rfl)
    | billed => exact .inr (.inl (List.mem_singleton.mpr rfl))
    | unended => exact absurd rfl (hraised _ rfl)
  refine quiet_announce.emits_nil.bind_cases ?_ ?_ fun _ h => absurd h (ends_announce s)
  swap
  · rintro e s₁ _ hreport rfl
    exact absurd (.unannounced hmade hreport) hleak
  rintro _ s₁ _ hreport rfl
  refine (quiet_bringUp fuel name pod deadline).emits_nil.bind_attempt ?_ ?_ ?_
  · rintro entry s₂ _ - rfl
    exact Emits.pure ⟨noCreate_nil, nofun⟩
  swap
  · rintro _ - rfl
    exact ⟨noCreate_nil, nofun⟩
  rintro e s₂ _ hfailed rfl
  refine (abandonOrBill_emits name pod.id s₂).bind_cases ?_ ?_ ?_
  · rintro _ s₃ events - hgone
    refine Emits.raise ?_
    simp only [List.nil_append, List.append_nil]
    exact ⟨hgone.noCreate, fun _ _ => hgiven hgone nofun⟩
  · rintro e' s₃ events - hgone
    simp only [List.nil_append]
    refine ⟨hgone.noCreate, fun _ _ => hgiven hgone ?_⟩
    rintro _ - rfl
    cases hgone with
    | unended hunended => exact hleak (.unended hmade hreport hfailed hunended)
  · rintro events - hgone
    cases hgone

/-- **What a create that failed leaves when its offer is left.** -/
theorem createFailed_accounts {name : String} {creation : Creation} {e : Exn} {s : Logged σ Event}
    (hname : w.namePrefix.toList.isPrefixOf name.toList)
    (hfailed : creation.answer = .error e) (hleak : ¬ Leaks w fuel deadline name creation s) :
    Emits (createFailed w name e : Prog σ Entry) s fun outcome events =>
      NoCreate events ∧ (∀ entry, outcome ≠ .returned entry) ∧ ∀ e', outcome = .raised e' →
        NamesOwn (.created name creation :: events) → Accounted name creation events := by
  unfold createFailed
  split
  · next hrefused =>
    subst hrefused
    refine Emits.raise ⟨noCreate_nil, nofun, fun _ _ _ podId hmade => ?_⟩
    unfold Creation.made at hmade
    rw [hfailed] at hmade
    cases hmade
  next hrefused =>
  refine (sweepFailedCreate_emits hname s).logged.bind_attempt ?_ ?_ ?_
  · rintro settled s₁ events hsweep ⟨⟨hcreate, htrue, hfalse⟩, hlog⟩
    rw [hsweep] at hlog
    have haccounted : NamesOwn (.created name creation :: events) → Accounted name creation events := by
      intro hown podId hmade
      have howner : ∀ pods, .listed pods ∈ events → ∀ pod ∈ w.liveUnder name pods, pod.id = podId := by
        intro pods hpods pod hpod
        obtain ⟨hmem, hnamed⟩ := mem_liveUnder.mp hpod
        have hpodId := hown [] name creation events rfl pods hpods pod hmem hnamed.1
        rw [hmade] at hpodId
        cases hpodId
        rfl
      cases settled with
      | true =>
        by_contra hnot
        refine hleak (.unseen hfailed hmade hsweep hlog fun pods hpods => ?_)
        rw [List.eq_nil_iff_forall_not_mem]
        intro pod hpod
        have hconfirmed := (htrue rfl).2 pods hpods pod hpod
        rw [howner pods hpods pod hpod] at hconfirmed
        exact hnot (.inl hconfirmed)
      | false =>
        rcases hfalse rfl with hbilled | ⟨⟨pods, hpods, hlive⟩, hall⟩
        · exact .inr (.inr hbilled)
        · obtain ⟨pod, hpod⟩ := List.exists_mem_of_ne_nil _ hlive
          have hpodId := hall pods hpods pod hpod
          rw [howner pods hpods pod hpod] at hpodId
          exact hpodId.imp_right .inl
    dsimp only
    split
    all_goals
      refine Emits.raise ?_
      rw [List.append_nil]
      exact ⟨hcreate, nofun, fun _ _ => haccounted⟩
  · rintro e' s₁ events hsweep ⟨⟨hcreate, -, -⟩, hlog⟩
    rw [hsweep] at hlog
    dsimp only at hlog ⊢
    split
    · next hinterrupt =>
      refine progress_bind_emits (fun s₂ _ => ?_) fun e'' s₂ hreport => ?_
      · refine Emits.bind (Emits.emit (Emits.raise ?_))
        simp only [List.append_nil]
        refine ⟨noCreate_append.mpr ⟨hcreate, noCreate_billed _⟩, nofun, fun _ _ _ podId _ => ?_⟩
        exact .inr (.inr (by simp))
      · rw [List.append_nil]
        refine ⟨hcreate, nofun, fun _ _ _ => ?_⟩
        by_contra hunaccounted
        exact hleak (.unswept hfailed hsweep hlog hunaccounted fun _ => ⟨_, _, hreport⟩)
    · next hinterrupt =>
      refine Emits.raise ?_
      rw [List.append_nil]
      refine ⟨hcreate, nofun, fun _ _ _ => ?_⟩
      by_contra hunaccounted
      exact hleak (.unswept hfailed hsweep hlog hunaccounted fun h => absurd h hinterrupt)
  · rintro events - ⟨⟨hcreate, -, -⟩, -⟩
    exact ⟨hcreate, nofun, nofun⟩

theorem afterCreate_accounts {name : String} {creation : Creation} {s : Logged σ Event}
    (hname : w.namePrefix.toList.isPrefixOf name.toList)
    (hleak : ¬ Leaks w fuel deadline name creation s) :
    Emits (afterCreate w fuel name creation deadline) s fun outcome events =>
      NoCreate events ∧ (∀ entry, outcome = .returned entry → ∃ pod, creation.answer = .ok pod) ∧
        ∀ e, outcome = .raised e → NamesOwn (.created name creation :: events) →
          Accounted name creation events := by
  unfold afterCreate
  split
  · next e hfailed =>
    refine (createFailed_accounts hname hfailed hleak).imp ?_
    rintro outcome events ⟨hcreate, hnone, haccounted⟩
    exact ⟨hcreate, fun entry h => absurd h (hnone entry), haccounted⟩
  · next pod hmade =>
    refine (podMade_accounts hmade hleak).imp ?_
    rintro outcome events ⟨hcreate, haccounted⟩
    exact ⟨hcreate, fun _ _ => ⟨pod, hmade⟩, fun e heq _ => haccounted e heq⟩

/-- Every create of the log is accounted for. -/
def AllAccounted (log : List Event) : Prop :=
  ∀ before name creation after, log = before ++ .created name creation :: after →
    Accounted name creation after

theorem AllAccounted.create {log : List Event} {name : String} {creation : Creation}
    {events : List Event} (h : AllAccounted log) (hevents : NoCreate events)
    (haccounted : Accounted name creation events) :
    AllAccounted (log ++ .created name creation :: events) := by
  intro before name' creation' after heq
  rw [← List.singleton_append, ← List.append_assoc] at heq
  obtain ⟨after', hlog, rfl⟩ := created_of_noCreate hevents heq
  rcases created_snoc hlog with ⟨-, rfl, rfl, rfl⟩ | ⟨after'', hlog', rfl⟩
  · exact haccounted
  · exact ((h before name' creation' after'' hlog').append).append

/-- The pod that is returned is the last one there is a create of. -/
theorem AllAccounted.returned {log : List Event} {name : String} {creation : Creation}
    {events : List Event} {entry : Entry} (h : AllAccounted log) (hevents : NoCreate events)
    (hmade : ∃ pod, creation.answer = .ok pod) :
    NoUnreportedBill (.returned entry) (log ++ .created name creation :: events) := by
  intro before name' creation' after heq
  rw [← List.singleton_append, ← List.append_assoc] at heq
  obtain ⟨after', hlog, rfl⟩ := created_of_noCreate hevents heq
  rcases created_snoc hlog with ⟨-, rfl, rfl, rfl⟩ | ⟨after'', hlog', rfl⟩
  · exact .inr ⟨⟨entry, rfl⟩, hevents, hmade⟩
  · exact .inl ((h before name' creation' after'' hlog').append).append

end Law

end Gpuc.Control
