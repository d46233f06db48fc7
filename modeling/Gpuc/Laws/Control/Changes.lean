import Gpuc.Laws.Control.Judged

/-!
# No change is lost while the writes do not overlap

`changes_kept` is what several machines leave of one host's config when each has finished and none
renamed while another was between its read for the merge and its own rename (`Alone`): each written key
has its writer's value, as a merge makes it, and the rest is as it was. A patch that was not written reads
as no change (`NoDrift`).

The cards are judged on an earlier read. `Apart` is that neither of two machines that name cards renames
between the other's judgement and its rename; then what is left names no card twice.
`overlapping_changes` is two writes that overlap, and two of which only the judgements do.
-/

set_option autoImplicit false

namespace Gpuc.Control.Connect

open Gpuc.Basis Gpuc.Host.Documents Gpuc.Control.Remote
open Gpuc.Host (Gpu Uuid resolve)

variable {t : Texts}

/-! ## Along a run -/

section Run
variable {ι : Type} [DecidableEq ι] {path : String} {clients : ι → Client} {w w' : World ι} {i : ι}
  {move : Move}

variable (t clients) in
/-- **What every machine that has decided was judged on**, if it was judged, and what the file has come
to since for one that had nothing to write. -/
structure Judgements (d : Dict String Json) (w : World ι) : Prop where
  underway : ∀ j decision seen, (w.stage j).Underway decision → decision.seen = some seen →
    Judged t (clients j).table seen decision
  unjudged : ∀ j decision, (w.stage j).Underway decision → decision.seen = none →
    ¬ NamesCards decision.patch
  unwritten : ∀ j decision, w.stage j = .finished decision → decision.writes = false →
    ∃ seen, decision.seen = some seen ∧ Judged t (clients j).table seen decision ∧
      (∃ before, Chain t d before seen) ∧
      ∃ after : List (ι × Dict String Json), (∀ e ∈ after, (w.stage e.1).Wrote e.2) ∧
        Chain t seen (after.map Prod.snd) (held w.file)

omit [DecidableEq ι] in
theorem Judgements.fresh (hfresh : w.Fresh) (d : Dict String Json) : Judgements t clients d w := by
  refine ⟨fun j decision seen hunder => ?_, fun j decision hunder => ?_, fun j decision hfinished => ?_⟩
  · rw [hfresh j] at hunder
    simp [Stage.Underway, Stage.Merging] at hunder
  · rw [hfresh j] at hunder
    simp [Stage.Underway, Stage.Merging] at hunder
  · rw [hfresh j] at hfinished
    cases hfinished

/-- What was written stays written, and a rename merges one more patch. -/
theorem Stepped.since {d seen : Dict String Json} (h : Stepped t path clients w i move w')
    (hw : Serial t clients d w) (halone : Alone w (i, move))
    (hafter : ∃ after : List (ι × Dict String Json), (∀ e ∈ after, (w.stage e.1).Wrote e.2) ∧
      Chain t seen (after.map Prod.snd) (held w.file)) :
    ∃ after : List (ι × Dict String Json), (∀ e ∈ after, (w'.stage e.1).Wrote e.2) ∧
      Chain t seen (after.map Prod.snd) (held w'.file) := by
  obtain ⟨after, hwrote, hchain⟩ := hafter
  rcases h.renamed hw halone with ⟨hfile, hsame⟩ | ⟨-, decision, hrenamed⟩
  · refine ⟨after, fun e he => (hsame e.1 e.2).mpr (hwrote e he), ?_⟩
    rwa [hfile]
  · refine ⟨after ++ [(i, decision.patch)], fun e he => ?_, ?_⟩
    · rw [h.wrote_iff hrenamed]
      rcases List.mem_append.mp he with he | he
      · exact .inl (hwrote e he)
      · obtain rfl := List.mem_singleton.mp he
        exact .inr ⟨rfl, rfl⟩
    · rw [List.map_append]
      exact hchain.snoc hrenamed.merged

theorem Judgements.step {d : Dict String Json} (hj : Judgements t clients d w)
    (hw : Serial t clients d w) (halone : Alone w (i, move))
    (h : Stepped t path clients w i move w') : Judgements t clients d w' where
  underway j decision seen hunder hseen := by
    rcases h.underway_from hunder with hbefore | ⟨-, hdecides, -⟩
    · exact hj.underway j decision seen hbefore hseen
    · rcases decide_cases hdecides with ⟨hnone, -, -⟩ | ⟨hsome, hjudged⟩
      · rw [hseen] at hnone
        cases hnone
      · rw [hseen] at hsome
        exact Option.some.inj hsome ▸ hjudged
  unjudged j decision hunder hseen := by
    rcases h.underway_from hunder with hbefore | ⟨-, hdecides, -⟩
    · exact hj.unjudged j decision hbefore hseen
    · rcases decide_cases hdecides with ⟨-, -, hkeys⟩ | ⟨hsome, -⟩
      · rw [NamesCards, hkeys]
        decide
      · rw [hseen] at hsome
        cases hsome
  unwritten j decision hfinished hwrites := by
    rcases h.finished_from hfinished with hbefore | hunder | ⟨hdecides, -, hfile⟩
    · obtain ⟨seen, hseen, hjudged, hbefore, hafter⟩ := hj.unwritten j decision hbefore hwrites
      exact ⟨seen, hseen, hjudged, hbefore, h.since hw halone hafter⟩
    · have hwriting := hw.underway j decision hunder
      rw [hwrites] at hwriting
      cases hwriting
    · rcases decide_cases hdecides with ⟨-, hwriting, -⟩ | ⟨hseen, hjudged⟩
      · rw [hwrites] at hwriting
        cases hwriting
      · obtain ⟨order, -, -, hchain⟩ := hw.chain
        refine ⟨held w.file, hseen, hjudged, ⟨_, hchain⟩, [],
          fun _ h => absurd h List.not_mem_nil, ?_⟩
        rw [hfile]
        exact .nil

/-- **Of two machines that name cards, neither renames between the other's judgement and its rename.** -/
def Apart (w : World ι) (a : ι × Move) : Prop :=
  a.2 = .rename → ∀ decision, (w.stage a.1).Underway decision → NamesCards decision.patch →
    ∀ j ≠ a.1, ∀ decision', (w.stage j).Underway decision' → ¬ NamesCards decision'.patch

instance (patch : Dict String Json) : Decidable (NamesCards patch) :=
  inferInstanceAs (Decidable (_ ∨ _))

instance [Fintype ι] (w : World ι) (a : ι × Move) : Decidable (Apart w a) :=
  decidable_of_iff
    (a.2 = .rename → ∀ decision ∈ (w.stage a.1).underway?, NamesCards decision.patch →
      ∀ j ≠ a.1, ∀ decision' ∈ (w.stage j).underway?, ¬ NamesCards decision'.patch)
    (by simp only [Apart, Option.mem_def, underway?_eq_some])

/-- A machine has finished that was judged on a patch. -/
def World.SomeJudged (w : World ι) : Prop :=
  ∃ j decision seen, w.stage j = .finished decision ∧ decision.seen = some seen ∧
    decision.patch.entries ≠ []

variable (t clients) in
/-- **A judged file names no card twice**, and what a machine was judged on has the cards of the file,
unless its patch names none. -/
structure CardsOnce (w : World ι) : Prop where
  seen : ∀ j decision seen, (w.stage j).Underway decision → decision.seen = some seen →
    cardsOf t seen = cardsOf t (held w.file) ∨ (¬ NamesCards decision.patch ∧ w.SomeJudged)
  once : w.SomeJudged → ∃ k, NamedOnce t (clients k).table (held w.file)

omit [DecidableEq ι] in
theorem CardsOnce.fresh (hfresh : w.Fresh) : CardsOnce t clients w := by
  refine ⟨fun j decision seen hunder => ?_, ?_⟩
  · rw [hfresh j] at hunder
    simp [Stage.Underway, Stage.Merging] at hunder
  · rintro ⟨j, decision, seen, hfinished, -, -⟩
    rw [hfresh j] at hfinished
    cases hfinished

/-- What has finished stays so. -/
theorem Stepped.finished_kept (h : Stepped t path clients w i move w') {j : ι} {decision : Decision}
    (hfinished : w.stage j = .finished decision) : w'.stage j = .finished decision := by
  rcases eq_or_ne j i with rfl | hj
  · cases h with
    | decides hidle => rw [hfinished] at hidle; cases hidle
    | merges hdecided => rw [hfinished] at hdecided; cases hdecided
    | puts hmerged => rw [hfinished] at hmerged; cases hmerged
    | renames hplaced => rw [hfinished] at hplaced; cases hplaced
    | fails hrunning => exact absurd hfinished (hrunning decision)
  · rw [h.stage_other hj, hfinished]

theorem Stepped.someJudged (h : Stepped t path clients w i move w') (hsome : w.SomeJudged) :
    w'.SomeJudged := by
  obtain ⟨j, decision, seen, hfinished, hseen, hpatch⟩ := hsome
  exact ⟨j, decision, seen, h.finished_kept hfinished, hseen, hpatch⟩

omit [DecidableEq ι] in
/-- What a rename leaves names the cards of what it merged. -/
theorem Renamed.cards {decision : Decision} (h : Renamed t w i decision w') :
    cardsOf t (held w'.file) = cardsOf t (update (held w.file) decision.patch) :=
  cardsOf_merged h.merged

omit [DecidableEq ι] in
/-- A rename of a judged patch leaves each card named once. -/
theorem Renamed.once {decision : Decision} {seen : Dict String Json} (h : Renamed t w i decision w')
    (hjudged : Judged t (clients i).table seen decision) (hc : CardsOnce t clients w)
    (hseen : decision.seen = some seen) : ∃ k, NamedOnce t (clients k).table (held w'.file) := by
  rcases hc.seen i decision seen h.underway hseen with hsame | ⟨hnames, hsome⟩
  · obtain ⟨cards, hcards⟩ := hjudged.reads
    obtain ⟨result, hresult, honce⟩ := hjudged.named (hjudged.patch_ne h.writes)
    rw [cardsOf_update_congr hcards (hsame ▸ hcards), ← h.cards] at hresult
    exact ⟨i, result, hresult, honce⟩
  · obtain ⟨k, cards, hcards, honce⟩ := hc.once hsome
    rw [← cardsOf_update_of_not hnames, ← h.cards] at hcards
    exact ⟨k, cards, hcards, honce⟩

theorem CardsOnce.step {d : Dict String Json} (hc : CardsOnce t clients w)
    (hj : Judgements t clients d w) (hw : Serial t clients d w) (halone : Alone w (i, move))
    (hapart : Apart w (i, move)) (h : Stepped t path clients w i move w') :
    CardsOnce t clients w' := by
  rcases h.renamed hw halone with ⟨hfile, hsame⟩ | ⟨rfl, decision, hrenamed⟩
  · refine ⟨fun j decision seen hunder hseen => ?_, ?_⟩
    · rcases h.underway_from hunder with hbefore | ⟨-, hdecides, -⟩
      · rw [hfile]
        exact (hc.seen j decision seen hbefore hseen).imp_right fun ⟨hnames, hsome⟩ =>
          ⟨hnames, h.someJudged hsome⟩
      · rcases decide_cases hdecides with ⟨hnone, -, -⟩ | ⟨hsome, -⟩
        · rw [hseen] at hnone
          cases hnone
        · rw [hseen] at hsome
          rw [hfile, Option.some.inj hsome]
          exact .inl rfl
    · rintro ⟨j, decision, seen, hfinished, hseen, hpatch⟩
      rw [hfile]
      rcases h.finished_from hfinished with hbefore | hunder | ⟨hdecides, hwrites, -⟩
      · exact hc.once ⟨j, decision, seen, hbefore, hseen, hpatch⟩
      · -- a machine that had decided to write finishes by a rename
        obtain ⟨decision', hbefore, -, -⟩ :=
          (hsame j decision.patch).mp ⟨decision, hfinished, hw.underway j decision hunder, rfl⟩
        rw [hbefore] at hunder
        exact absurd hunder not_underway_finished
      · rcases decide_cases hdecides with ⟨hnone, -, -⟩ | ⟨-, hjudged⟩
        · rw [hseen] at hnone
          cases hnone
        · obtain ⟨cards, hcards, honce⟩ := hjudged.named hpatch
          rw [hjudged.cards_kept hwrites] at hcards
          exact ⟨j, cards, hcards, honce⟩
  · have hother : ∀ j decision', (w'.stage j).Underway decision' →
        j ≠ i ∧ (w.stage j).Underway decision' := by
      intro j decision' hunder
      have hj : j ≠ i := by
        rintro rfl
        rw [hrenamed.finished] at hunder
        exact not_underway_finished hunder
      rw [h.stage_other hj] at hunder
      exact ⟨hj, hunder⟩
    cases hseen : decision.seen with
    | none =>
      -- a session that shipped a build names no cards
      have hcards := hrenamed.cards
      rw [cardsOf_update_of_not (hj.unjudged i decision hrenamed.underway hseen)] at hcards
      refine ⟨fun j decision' seen hunder hseen' => ?_, ?_⟩
      · rw [hcards]
        exact (hc.seen j decision' seen (hother j decision' hunder).2 hseen').imp_right
          fun ⟨hnames, hsome⟩ => ⟨hnames, h.someJudged hsome⟩
      · rintro ⟨j, decision', seen, hfinished, hseen', hpatch⟩
        have hji : j ≠ i := by
          rintro rfl
          rw [hrenamed.finished] at hfinished
          cases hfinished
          rw [hseen] at hseen'
          cases hseen'
        rw [h.stage_other hji] at hfinished
        obtain ⟨k, cards, honce⟩ := hc.once ⟨j, decision', seen, hfinished, hseen', hpatch⟩
        exact ⟨k, cards, hcards ▸ honce⟩
    | some seen =>
      have hjudged := hj.underway i decision seen hrenamed.underway hseen
      have hsome : w'.SomeJudged :=
        ⟨i, decision, seen, hrenamed.finished, hseen, hjudged.patch_ne hrenamed.writes⟩
      refine ⟨fun j decision' seen' hunder hseen' => ?_, fun _ => hrenamed.once hjudged hc hseen⟩
      obtain ⟨hji, hbefore⟩ := hother j decision' hunder
      rcases hc.seen j decision' seen' hbefore hseen' with hsame | ⟨hnames, -⟩
      · by_cases hmoves : NamesCards decision.patch
        · exact .inr ⟨hapart rfl decision hrenamed.underway hmoves j hji decision' hbefore, hsome⟩
        · rw [hrenamed.cards, cardsOf_update_of_not hmoves]
          exact .inl hsame
      · exact .inr ⟨hnames, hsome⟩

variable {moves : List (ι × Move)} {decisions : ι → Decision}

/-- **A run in which each machine renames alone.** -/
theorem run_serial (hfresh : w.Fresh)
    (halone : ∀ p ∈ (machine t path clients).trace w moves, Alone p.1 p.2)
    (hrun : (machine t path clients).run w moves = some w') :
    Serial t clients (held w.file) w' ∧ Judgements t clients (held w.file) w' := by
  apply Machine.run_invariant_of (I := fun u : World ι =>
    Serial t clients (held w.file) u ∧ Judgements t clients (held w.file) u) ?_
    ⟨.fresh hfresh, .fresh hfresh _⟩ halone hrun
  rintro u ⟨i, move⟩ next ⟨hw, hj⟩ hmeets hstep
  exact ⟨hw.step hmeets (step_cases hstep), hj.step hw hmeets (step_cases hstep)⟩

/-- A run in which, besides, no two judgements of cards overlap. -/
theorem run_cardsOnce (hfresh : w.Fresh)
    (halone : ∀ p ∈ (machine t path clients).trace w moves, Alone p.1 p.2)
    (hapart : ∀ p ∈ (machine t path clients).trace w moves, Apart p.1 p.2)
    (hrun : (machine t path clients).run w moves = some w') : CardsOnce t clients w' := by
  have hall := Machine.run_invariant_of (I := fun u : World ι =>
    (Serial t clients (held w.file) u ∧ Judgements t clients (held w.file) u) ∧ CardsOnce t clients u)
    (C := fun u a => Alone u a ∧ Apart u a) ?_ ⟨⟨.fresh hfresh, .fresh hfresh _⟩, .fresh hfresh⟩
    (fun p hp => ⟨halone p hp, hapart p hp⟩) hrun
  · exact hall.2
  · rintro u ⟨i, move⟩ next ⟨⟨hw, hj⟩, hc⟩ ⟨hmeets, hmeets'⟩ hstep
    exact ⟨⟨hw.step hmeets (step_cases hstep), hj.step hw hmeets (step_cases hstep)⟩,
      hc.step hj hw hmeets hmeets' (step_cases hstep)⟩

/-- **Every change is kept**: a written key has its writer's value and any other what it had, each as a
merge makes it; and a patch that was not written reads as no change. -/
structure Kept (t : Texts) (decisions : ι → Decision) (initial final : Dict String Json) : Prop where
  written : ∀ i, (decisions i).writes = true → ∀ key ∈ (decisions i).patch.keys,
    normalised t key ((decisions i).patch.get? key) = .ok (final.get? key)
  others : ∀ key, (∀ i, (decisions i).writes = true → key ∉ (decisions i).patch.keys) →
    final = initial ∨ normalised t key (initial.get? key) = .ok (final.get? key)
  unwritten : ∀ i, (decisions i).writes = false → ∀ key ∈ (decisions i).patch.keys,
    key ∈ configKeys → key ∉ notDrift →
      NoDrift t key (final.get? key) ((decisions i).patch.get? key)

omit [DecidableEq ι] in
/-- What a run has left, when each machine has finished. -/
theorem Serial.kept {d : Dict String Json} (hw : Serial t clients d w) (hj : Judgements t clients d w)
    (hinitial : BinaryVersion t d) (hpatches : ∀ i, BinaryVersion t (decisions i).patch)
    (hkeys : ∀ i j, i ≠ j → ∀ key ∈ (decisions i).patch.keys, key ∉ (decisions j).patch.keys)
    (hdone : ∀ i, w.stage i = .finished (decisions i)) : Kept t decisions d (held w.file) := by
  have hwrote : ∀ i patch, (w.stage i).Wrote patch →
      patch = (decisions i).patch ∧ (decisions i).writes = true := by
    rintro i patch ⟨decision, hstage, hwrites, rfl⟩
    rw [hdone i] at hstage
    cases hstage
    exact ⟨rfl, hwrites⟩
  obtain ⟨order, hnodup, hmem, hchain⟩ := hw.chain
  have hbinary : ∀ patch ∈ order.map Prod.snd, BinaryVersion t patch := by
    intro patch hpatch
    obtain ⟨⟨i, patch⟩, he, rfl⟩ := List.mem_map.mp hpatch
    rw [(hwrote i patch ((hmem i patch).mp he)).1]
    exact hpatches i
  have hdisjoint : (order.map Prod.snd).Pairwise fun p q => ∀ key ∈ p.keys, key ∉ q.keys := by
    rw [List.pairwise_map]
    refine (List.pairwise_map.mp hnodup).imp_of_mem fun {e e'} he he' hne => ?_
    rw [(hwrote _ _ ((hmem e.1 e.2).mp he)).1, (hwrote _ _ ((hmem e'.1 e'.2).mp he')).1]
    exact hkeys e.1 e'.1 hne
  refine ⟨fun i hwrites key hkey => ?_, fun key hkey => ?_, fun i hwrites key hkey hknown hdrift => ?_⟩
  · apply hchain.patched hinitial hbinary hdisjoint _ _ key hkey
    exact List.mem_map.mpr ⟨(i, (decisions i).patch),
      (hmem i _).mpr ⟨decisions i, hdone i, hwrites, rfl⟩, rfl⟩
  · have hnot : ∀ patch ∈ order.map Prod.snd, key ∉ patch.keys := by
      intro patch hpatch
      obtain ⟨⟨i, patch⟩, he, rfl⟩ := List.mem_map.mp hpatch
      obtain ⟨rfl, hwrites⟩ := hwrote i patch ((hmem i patch).mp he)
      exact hkey i hwrites
    exact (hchain.others hinitial hbinary hnot).imp_left And.right
  · obtain ⟨seen, -, hjudged, ⟨before, hbefore⟩, after, hafter, hsince⟩ :=
      hj.unwritten i (decisions i) (hdone i) hwrites
    have hnot : ∀ patch ∈ after.map Prod.snd, BinaryVersion t patch ∧ key ∉ patch.keys := by
      intro patch hpatch
      obtain ⟨⟨j, patch⟩, he, rfl⟩ := List.mem_map.mp hpatch
      obtain ⟨rfl, hwriting⟩ := hwrote j patch (hafter _ he)
      refine ⟨hpatches j, hkeys i j ?_ key hkey⟩
      rintro rfl
      rw [hwrites] at hwriting
      cases hwriting
    have hseen := hbefore.binaryVersion hinitial
    obtain ⟨theirs, ours, htheirs, hours, hline⟩ := hjudged.noDrift hwrites hkey hknown hdrift
    refine ⟨theirs, ours, ?_, hours, hline⟩
    rcases eq_or_ne (after.map Prod.snd) [] with hnil | hne
    · rwa [hsince.eq_of_nil hnil]
    · rw [hsince.settled hseen (fun p hp => (hnot p hp).1) hne key]
      have hnormal := (hsince.others hseen (fun p hp => (hnot p hp).1) fun p hp => (hnot p hp).2).resolve_left
        fun hstart => hne hstart.1
      rw [htheirs] at hnormal
      exact hnormal.symm

/-- **No machine's change is lost while each renames alone.** Once every machine has finished, each
written key has its writer's value and the rest is as it was; and where besides no two judgements of
cards overlap, and a patch was judged at all, no card is named twice. -/
theorem changes_kept (hfresh : w.Fresh) (hinitial : BinaryVersion t (held w.file))
    (hpatches : ∀ i, BinaryVersion t (decisions i).patch)
    (hkeys : ∀ i j, i ≠ j → ∀ key ∈ (decisions i).patch.keys, key ∉ (decisions j).patch.keys)
    (halone : ∀ p ∈ (machine t path clients).trace w moves, Alone p.1 p.2)
    (hrun : (machine t path clients).run w moves = some w')
    (hdone : ∀ i, w'.stage i = .finished (decisions i)) :
    Kept t decisions (held w.file) (held w'.file) ∧
      ((∀ p ∈ (machine t path clients).trace w moves, Apart p.1 p.2) →
        (∃ i seen, (decisions i).seen = some seen ∧ (decisions i).patch.entries ≠ []) →
          ∃ k, NamedOnce t (clients k).table (held w'.file)) := by
  obtain ⟨hserial, hjudged⟩ := run_serial hfresh halone hrun
  refine ⟨hserial.kept hjudged hinitial hpatches hkeys hdone, fun hapart ⟨i, seen, hseen, hpatch⟩ => ?_⟩
  exact (run_cardsOnce hfresh halone hapart hrun).once ⟨i, decisions i, seen, hdone i, hseen, hpatch⟩

end Run

/-! ## Two machines and one card -/

/-- A machine that sets one key of the config of a box with one card. -/
def oneKey (pid : Nat) (key : String) (value : Json) : Client :=
  { pid := pid
    entry :=
      { name := "box", cache := { gpuInfo := Dict.empty.set "GPU-a" { index := some 0 } } }
    change := .set (Dict.empty.set key value) .empty }

/-- A machine that gives the host its card, and another that sets a key. -/
def ownAnd (key : String) (value : Json) : Bool → Client
  | true => oneKey 1 "gpus" (.arr [.str "0"])
  | false => oneKey 2 key value

/-- A host that owns no cards. -/
def noCards : World Bool :=
  { file := .document (Dict.empty.set "gpus" (.arr []))
    temps := fun _ => none
    stage := fun _ => .idle }

/-- Both decide, and each reads the file to write it before the other has. -/
def overlapping : List (Bool × Move) :=
  [(true, .decide), (false, .decide), (true, .merge), (false, .merge), (true, .put), (true, .rename),
    (false, .put), (false, .rename)]

/-- Both decide, and then one writes and after it the other. -/
def inTurn : List (Bool × Move) :=
  [(true, .decide), (false, .decide), (true, .merge), (true, .put), (true, .rename), (false, .merge),
    (false, .put), (false, .rename)]

/-- What a machine that has finished had decided. -/
def decisionOf (w : World Bool) (i : Bool) : Decision :=
  match w.stage i with
  | .finished decision => decision
  | _ => { seen := none, patch := .empty, writes := false }

/-- Both machines have written, one its card and the other its key. -/
def bothWrote (key : String) (w : World Bool) : Bool :=
  [(true, "gpus"), (false, key)].all fun e =>
    match w.stage e.1 with
    | .finished decision => decision.writes && decision.seen.isSome && decide (decision.patch.keys = [e.2])
    | _ => false

/-- The first machine's patch has a card, and the file has none. -/
def cardLost (w : World Bool) : Bool :=
  match normalised plainTexts "gpus" ((decisionOf w true).patch.get? "gpus"),
    (held w.file).get? "gpus" with
  | .ok (some (.arr (_ :: _))), some (.arr []) => true
  | _, _ => false

/-- The card is named twice. -/
def cardTwice (w : World Bool) : Bool :=
  match cardsOf plainTexts (held w.file) with
  | .ok cards => (resolve cards.1 (ownAnd "" .null true).table cards.2).duplicates ≠ []
  | .error _ => false

section Examples
variable {key : String} {w : World Bool}

theorem bothWrote_spec (h : bothWrote key w = true) :
    (∀ i, w.stage i = .finished (decisionOf w i) ∧ (decisionOf w i).writes = true ∧
      ∃ seen, (decisionOf w i).seen = some seen) ∧
      (decisionOf w true).patch.keys = ["gpus"] ∧ (decisionOf w false).patch.keys = [key] := by
  have hone : ∀ i key', (match w.stage i with
      | .finished decision =>
        decision.writes && decision.seen.isSome && decide (decision.patch.keys = [key'])
      | _ => false) = true →
      (w.stage i = .finished (decisionOf w i) ∧ (decisionOf w i).writes = true ∧
        ∃ seen, (decisionOf w i).seen = some seen) ∧ (decisionOf w i).patch.keys = [key'] := by
    intro i key' h
    split at h
    · next decision hstage =>
      have hdecision : decisionOf w i = decision := by
        unfold decisionOf
        rw [hstage]
      rw [Bool.and_eq_true, Bool.and_eq_true] at h
      rw [hdecision]
      exact ⟨⟨hstage, h.1.1, Option.isSome_iff_exists.mp h.1.2⟩, of_decide_eq_true h.2⟩
    · cases h
  rw [bothWrote, List.all_cons, List.all_cons, Bool.and_eq_true, Bool.and_eq_true] at h
  have hfirst := hone true "gpus" h.1
  have hother := hone false key h.2.1
  refine ⟨fun i => ?_, hfirst.2, hother.2⟩
  cases i
  · exact hother.1
  · exact hfirst.1

/-- What the machines have written is disjoint, and no version. -/
theorem bothWrote_patches (h : bothWrote key w = true) (hgpus : key ≠ "gpus")
    (hversion : key ≠ "schema_version") :
    (∀ i, BinaryVersion plainTexts (decisionOf w i).patch) ∧
      ∀ i j, i ≠ j → ∀ k ∈ (decisionOf w i).patch.keys, k ∉ (decisionOf w j).patch.keys := by
  obtain ⟨-, hown, hother⟩ := bothWrote_spec h
  constructor
  · intro i value x hget
    have hmem : "schema_version" ∈ (decisionOf w i).patch.keys := Dict.mem_keys.mpr ⟨value, hget⟩
    cases i
    · rw [hother, List.mem_singleton] at hmem
      exact absurd hmem.symm hversion
    · rw [hown] at hmem
      exact absurd hmem (by decide)
  · intro i j hij k hi hj
    cases i <;> cases j
    · exact hij rfl
    · rw [hother, List.mem_singleton] at hi
      rw [hown, List.mem_singleton] at hj
      exact hgpus (hi.symm.trans hj)
    · rw [hown, List.mem_singleton] at hi
      rw [hother, List.mem_singleton] at hj
      exact hgpus (hj.symm.trans hi)
    · exact hij rfl

theorem noCards_version : BinaryVersion plainTexts (held noCards.file) := by
  intro value x hget
  cases hget

end Examples

/-- A host given its card by one machine and a horizon by another, one after the other. -/
theorem changes_kept_inTurn : ∃ w' : World Bool,
    (machine plainTexts "" (ownAnd "workdir_days" (.float (.finite 3)))).run noCards inTurn = some w' ∧
      Kept plainTexts (decisionOf w') (held noCards.file) (held w'.file) ∧
      ∃ k, NamedOnce plainTexts (ownAnd "workdir_days" (.float (.finite 3)) k).table (held w'.file) := by
  have hwrote : ((machine plainTexts "" (ownAnd "workdir_days" (.float (.finite 3)))).run noCards
      inTurn).any (bothWrote "workdir_days") = true := by decide +kernel
  have halone : ∀ p ∈ (machine plainTexts "" (ownAnd "workdir_days" (.float (.finite 3)))).trace noCards
      inTurn, Alone p.1 p.2 ∧ Apart p.1 p.2 := by decide +kernel
  obtain ⟨w', hrun, hboth⟩ := (Option.any_eq_true _ _).mp hwrote
  obtain ⟨hdone, hown, -⟩ := bothWrote_spec hboth
  obtain ⟨hpatches, hkeys⟩ := bothWrote_patches hboth (by decide) (by decide)
  obtain ⟨hkept, honce⟩ := changes_kept (fun _ => rfl) noCards_version hpatches hkeys
    (fun p hp => (halone p hp).1) hrun fun i => (hdone i).1
  refine ⟨w', hrun, hkept, honce (fun p hp => (halone p hp).2) ?_⟩
  obtain ⟨seen, hseen⟩ := (hdone true).2.2
  refine ⟨true, seen, hseen, fun hnil => ?_⟩
  rw [Dict.keys, hnil] at hown
  cases hown

/-- **Two machines that overlap lose a change, or name a card twice.** Where both have read the file
before either has written it, the first one's card is gone; where both have only been judged, the card is
the host's own and to be borrowed. -/
theorem overlapping_changes :
    (¬ ∀ (clients : Bool → Client) (w w' : World Bool) (moves : List (Bool × Move))
      (decisions : Bool → Decision), w.Fresh → BinaryVersion plainTexts (held w.file) →
      (∀ i, BinaryVersion plainTexts (decisions i).patch) →
      (∀ i j, i ≠ j → ∀ key ∈ (decisions i).patch.keys, key ∉ (decisions j).patch.keys) →
      (machine plainTexts "" clients).run w moves = some w' →
      (∀ i, w'.stage i = .finished (decisions i)) →
      Kept plainTexts decisions (held w.file) (held w'.file)) ∧
    ¬ ∀ (clients : Bool → Client) (w w' : World Bool) (moves : List (Bool × Move))
      (decisions : Bool → Decision), w.Fresh → BinaryVersion plainTexts (held w.file) →
      (∀ i, BinaryVersion plainTexts (decisions i).patch) →
      (∀ i j, i ≠ j → ∀ key ∈ (decisions i).patch.keys, key ∉ (decisions j).patch.keys) →
      (machine plainTexts "" clients).run w moves = some w' →
      (∀ i, w'.stage i = .finished (decisions i)) →
      (∀ i, ∃ seen, (decisions i).seen = some seen ∧ (decisions i).patch.entries ≠ []) →
      ∃ k, NamedOnce plainTexts (clients k).table (held w'.file) := by
  constructor
  · intro hall
    have hwrote : ((machine plainTexts "" (ownAnd "shared_gpus" (.arr [.str "0"]))).run noCards
        overlapping).any (fun w => bothWrote "shared_gpus" w && cardLost w) = true := by decide +kernel
    obtain ⟨w', hrun, hboth⟩ := (Option.any_eq_true _ _).mp hwrote
    obtain ⟨hboth, hlost⟩ := Bool.and_eq_true_iff.mp hboth
    obtain ⟨hdone, hown, -⟩ := bothWrote_spec hboth
    obtain ⟨hpatches, hkeys⟩ := bothWrote_patches hboth (by decide) (by decide)
    have hkept := hall _ noCards w' overlapping (decisionOf w') (fun _ => rfl) noCards_version hpatches
      hkeys hrun fun i => (hdone i).1
    have hcard := hkept.written true (hdone true).2.1 "gpus" (by rw [hown]; exact List.mem_cons_self)
    rw [cardLost, hcard] at hlost
    split at hlost
    · next hpatch hfile =>
      rw [hfile] at hpatch
      cases hpatch
    · cases hlost
  · intro hall
    have hwrote : ((machine plainTexts "" (ownAnd "shared_gpus" (.arr [.str "0"]))).run noCards
        inTurn).any (fun w => bothWrote "shared_gpus" w && cardTwice w) = true := by decide +kernel
    obtain ⟨w', hrun, hboth⟩ := (Option.any_eq_true _ _).mp hwrote
    obtain ⟨hboth, htwice⟩ := Bool.and_eq_true_iff.mp hboth
    obtain ⟨hdone, hown, hother⟩ := bothWrote_spec hboth
    obtain ⟨hpatches, hkeys⟩ := bothWrote_patches hboth (by decide) (by decide)
    obtain ⟨k, cards, hcards, honce⟩ := hall _ noCards w' inTurn (decisionOf w') (fun _ => rfl)
      noCards_version hpatches hkeys hrun (fun i => (hdone i).1) fun i => by
        obtain ⟨seen, hseen⟩ := (hdone i).2.2
        refine ⟨seen, hseen, fun hnil => ?_⟩
        cases i
        · rw [Dict.keys, hnil] at hother
          cases hother
        · rw [Dict.keys, hnil] at hown
          cases hown
    have htable : (ownAnd "shared_gpus" (.arr [.str "0"]) k).table = (ownAnd "" .null true).table := by
      cases k <;> rfl
    rw [htable] at honce
    rw [cardTwice, hcards] at htwice
    exact absurd honce (of_decide_eq_true htwice)

end Gpuc.Control.Connect
