import Mathlib.Data.List.Basic
import Gpuc.Host.Checkout

/-!
# A job that is accepted has its checkout

Whoever dies and whatever restarts (`Kept`): a job that is under `jobs/` has its spec, its state, its
secrets and the whole checkout, archived or as its workdir; an attempt that is told it has a workdir has
one, the checkout as it was submitted or what an earlier attempt made of it, and never half of it; and
whatever scratch was wiped, a restore that is let be ends with a workdir.

That takes two things of the world (`isCareful`): no submit goes for an hour without putting something into
its directory, and of a workdir that was archived and is removed nothing stays. Neither can be done without
(`swept_away`, `left_behind`).
-/

set_option autoImplicit false

namespace Gpuc.Host.Checkout

open Gpuc.Basis

variable {E : Type} {code : List E} {s s' : State E}

/-! ## What is staged -/

variable (code) in
/-- The checkout is all there, once: packed, or as it came. -/
def Whole (staged : Staged E) : Prop :=
  (staged.archive = some code ∧ staged.workdir = none) ∨ (staged.archive = none ∧ staged.workdir = some code)

variable (code) in
/-- What there is while it is archived. -/
def During (staged : Staged E) : Archiving → Prop
  | .looks => Whole code staged
  | .packs packed => staged.archive = none ∧ staged.workdir = some code ∧
      staged.partialArchive = some (code.take packed)
  | .removes => staged.archive = some code

/-- **`archive_staged` goes on, or the checkout is packed.** -/
theorem archiveStaged_during {staged : Staged E} {place : Archiving} (h : During code staged place) :
    ∃ staged' next, archiveStaged staged place = some (staged', next) ∧ staged'.spec = staged.spec ∧
      staged'.state = staged.state ∧
      ((∃ place', next = some place' ∧ During code staged' place') ∨ (next = none ∧ Whole code staged')) := by
  cases place with
  | looks =>
    obtain ⟨harchive, hworkdir⟩ | ⟨harchive, hworkdir⟩ := h
    · exact ⟨staged, some .removes, by simp [archiveStaged, harchive], rfl, rfl, .inl ⟨_, rfl, harchive⟩⟩
    · exact ⟨{ staged with partialArchive := some [] }, some (.packs 0), by simp [archiveStaged, harchive], rfl,
        rfl, .inl ⟨_, rfl, harchive, hworkdir, rfl⟩⟩
  | packs packed =>
    obtain ⟨harchive, hworkdir, hpartial⟩ := h
    cases hentry : code[packed]? with
    | some entry =>
      refine ⟨{ staged with partialArchive := some (code.take packed ++ [entry]) }, some (.packs (packed + 1)),
        by simp [archiveStaged, hworkdir, hpartial, hentry], rfl, rfl, .inl ⟨_, rfl, harchive, hworkdir, ?_⟩⟩
      rw [List.take_add_one, hentry]
      rfl
    | none =>
      have hall : code.take packed = code := List.take_of_length_le (List.getElem?_eq_none_iff.mp hentry)
      refine ⟨{ staged with archive := some (code.take packed), partialArchive := none }, some .removes,
        by simp [archiveStaged, hworkdir, hpartial, hentry], rfl, rfl, .inl ⟨_, rfl, ?_⟩⟩
      exact congrArg some hall
  | removes =>
    cases hworkdir : staged.workdir with
    | none =>
      exact ⟨{ staged with workdir := none }, none, by simp [archiveStaged, hworkdir], rfl, rfl,
        .inr ⟨rfl, .inl ⟨h, rfl⟩⟩⟩
    | some entries =>
      cases entries with
      | nil =>
        exact ⟨{ staged with workdir := none }, none, by simp [archiveStaged, hworkdir], rfl, rfl,
          .inr ⟨rfl, .inl ⟨h, rfl⟩⟩⟩
      | cons entry rest =>
        exact ⟨{ staged with workdir := some rest }, some .removes, by simp [archiveStaged, hworkdir], rfl, rfl,
          .inl ⟨_, rfl, h⟩⟩

variable (code) in
/-- **What is staged where a submit stands there.** -/
def Fits (s : State E) : Submit → Prop
  | .notYet | .accepted => s.incoming = none
  | .syncing synced => ∃ staged, s.incoming = some staged ∧ staged.archive = none ∧
      staged.workdir = some (code.take synced)
  | .synced | .described | .archived => ∃ staged, s.incoming = some staged ∧ Whole code staged
  | .archiving place => ∃ staged, s.incoming = some staged ∧ During code staged place
  | .delivered => (∃ staged, s.incoming = some staged ∧ Whole code staged) ∧
      (s.client.secrets = true → s.secrets = true)
  | .specified | .accepting .reads | .accepting .makes | .accepting .writes =>
      (∃ staged, s.incoming = some staged ∧ Whole code staged ∧ staged.spec = true) ∧
        (s.client.secrets = true → s.secrets = true)
  | .accepting (.archives place) =>
      (∃ staged, s.incoming = some staged ∧ During code staged place ∧ staged.spec = true ∧
        staged.state = true) ∧ (s.client.secrets = true → s.secrets = true)
  | .accepting .renames =>
      (∃ staged, s.incoming = some staged ∧ Whole code staged ∧ staged.spec = true ∧ staged.state = true) ∧
        (s.client.secrets = true → s.secrets = true)
  | .dropped => True

variable (code) in
/-- What an attempt has of a workdir where it stands there. -/
def Doing (s : State E) : Attempt → Prop
  | .none | .lost | .restores _ .looks => True
  | .restores _ (.removes root) => s.trees root = none ∧ s.job.bind Accepted.archive = some code
  | .restores _ (.unpacks root unpacked) => s.trees root = none ∧ s.job.bind Accepted.archive = some code ∧
      s.unpacking root = some (code.take unpacked)
  | .restored root | .works root => ∃ tree, s.trees root = some tree

variable (code) in
/-- A workdir that is the checkout as submitted, or what an attempt made of it. -/
def Tree.Sensible (tree : Tree E) : Prop := tree.worked = true ∨ tree.entries = code

variable (code) in
/-- **What is known in every state.** -/
structure Sound (s : State E) : Prop where
  fits : Fits code s s.submit
  sweeping : s.sweeping = true → s.submit = .dropped
  unaccepted : s.submit ≠ .accepted → s.job = none
  accepted : s.submit = .accepted → ∃ job, s.job = some job ∧ job.spec = true ∧ job.state = true ∧
    (s.client.secrets = true → s.secrets = true) ∧ (job.archive = some code ∨ (s.trees .jobDir).isSome = true)
  nothing : s.job = none → (∀ root, s.trees root = none) ∧ s.attempt = .none
  trees : ∀ root tree, s.trees root = some tree → tree.Sensible code
  unpacking : ∀ root entries, s.unpacking root = some entries → entries.length ≤ code.length
  doing : Doing code s s.attempt

theorem sound_init : Sound code ({} : State E) where
  fits := rfl
  sweeping h := Bool.noConfusion h
  unaccepted _ := rfl
  accepted h := by cases h
  nothing _ := ⟨fun _ => rfl, rfl⟩
  trees _ _ h := by cases h
  unpacking _ _ h := by cases h
  doing := trivial

/-! ## The submit goes on -/

/-- The submit goes on, and the job's directory is as it was. -/
theorem Sound.advances (h : Sound code s) (hopen : s.submit ≠ .accepted) (hunswept : s.sweeping = false)
    (hrest : s'.job = s.job ∧ s'.trees = s.trees ∧ s'.unpacking = s.unpacking ∧ s'.attempt = s.attempt ∧
      s'.sweeping = s.sweeping) (hfits : Fits code s' s'.submit) (hnot : s'.submit ≠ .accepted) :
    Sound code s' := by
  obtain ⟨hjob, htrees, hunpacking, hattempt, hsweeping⟩ := hrest
  have hnone : s'.job = none := hjob.trans (h.unaccepted hopen)
  have hnothing := h.nothing (h.unaccepted hopen)
  have hidle : s'.attempt = .none := hattempt.trans hnothing.2
  exact
    { fits := hfits
      sweeping := fun hs => by rw [hsweeping, hunswept] at hs; cases hs
      unaccepted := fun _ => hnone
      accepted := fun hs => absurd hs hnot
      nothing := fun _ => ⟨fun root => htrees ▸ hnothing.1 root, hidle⟩
      trees := htrees ▸ h.trees
      unpacking := hunpacking ▸ h.unpacking
      doing := by rw [hidle]; trivial }

/-- A step of `archive_staged`, by what there was. -/
theorem archives_eq {staged : Staged E} {place : Archiving} (hincoming : s.incoming = some staged)
    (hduring : During code staged place) (during : Archiving → Submit) (after : Submit) :
    ∃ staged' next, s.archives place during after = (s.stage fun _ => staged').goes (next.elim after during) ∧
      staged'.spec = staged.spec ∧ staged'.state = staged.state ∧
      ((∃ place', next = some place' ∧ During code staged' place') ∨ (next = none ∧ Whole code staged')) := by
  obtain ⟨staged', next, heq, hspec, hstate, hnext⟩ := archiveStaged_during hduring
  refine ⟨staged', next, ?_, hspec, hstate, hnext⟩
  rw [State.archives, hincoming, Option.bind_some, heq]

theorem whole_makes {staged : Staged E} (h : Whole code staged) :
    Whole code
      (if staged.archive.isSome then staged else { staged with workdir := some (staged.workdir.getD []) }) := by
  obtain ⟨harchive, hworkdir⟩ | ⟨harchive, hworkdir⟩ := h
  · rw [harchive, if_pos Option.isSome_some]
    exact .inl ⟨harchive, hworkdir⟩
  · rw [harchive, if_neg (by simp), hworkdir]
    exact .inr ⟨rfl, rfl⟩

theorem spec_makes (staged : Staged E) :
    (if staged.archive.isSome then staged else { staged with workdir := some (staged.workdir.getD []) }).spec =
      staged.spec := by
  split <;> rfl

/-- **The step that accepts a job.** -/
theorem sound_renames (h : Sound code s) (hsubmit : s.submit = .accepting .renames) :
    Sound code (s.accepts .renames) := by
  have hopen : s.submit ≠ .accepted := by rw [hsubmit]; exact fun h => by cases h
  have hfits := h.fits
  rw [hsubmit] at hfits
  obtain ⟨⟨staged, hincoming, hwhole, hspec, hstate⟩, hsecrets⟩ := hfits
  have hnone := h.unaccepted hopen
  obtain ⟨hbare, hidle⟩ := h.nothing hnone
  have hunswept : s.sweeping = false := by
    by_contra hs
    have := h.sweeping (by simpa using hs)
    rw [hsubmit] at this
    cases this
  simp only [State.accepts, hincoming, hnone]
  refine
    { fits := rfl
      sweeping := fun hs => Bool.noConfusion (hunswept.symm.trans hs)
      unaccepted := fun hs => absurd rfl hs
      accepted := fun _ => ⟨_, rfl, hspec, hstate, hsecrets, ?_⟩
      nothing := fun hs => by cases hs
      trees := fun root tree htree => ?_
      unpacking := h.unpacking
      doing := by rw [hidle]; trivial }
  · obtain ⟨harchive, _⟩ | ⟨_, hworkdir⟩ := hwhole
    · exact .inl harchive
    · right
      show (if Root.jobDir = .jobDir then staged.workdir.map (⟨·, false⟩) else s.trees .jobDir).isSome = true
      rw [if_pos rfl, hworkdir]
      rfl
  · replace htree : (if root = .jobDir then staged.workdir.map (⟨·, false⟩) else s.trees root) = some tree :=
      htree
    split at htree
    · obtain ⟨_, hworkdir⟩ | ⟨_, hworkdir⟩ := hwhole
      · rw [hworkdir] at htree
        cases htree
      · rw [hworkdir] at htree
        exact .inr (congrArg Tree.entries (Option.some.inj htree).symm)
    · rw [hbare] at htree
      cases htree

/-- Where a submit that is under way stands, nothing is swept. -/
theorem Sound.unswept (h : Sound code s) (hsubmit : s.submit ≠ .dropped) : s.sweeping = false := by
  by_contra hs
  exact hsubmit (h.sweeping (by simpa using hs))

/-- The submit failed. -/
theorem Sound.fails (h : Sound code s) (hopen : s.submit ≠ .accepted) (hunswept : s.sweeping = false) :
    Sound code (s.goes .dropped) :=
  h.advances hopen hunswept ⟨rfl, rfl, rfl, rfl, rfl⟩ trivial (fun h => by cases h)

theorem sound_accepts (h : Sound code s) {place : Accepting} (hsubmit : s.submit = .accepting place) :
    Sound code (s.accepts place) := by
  have hopen : s.submit ≠ .accepted := by rw [hsubmit]; exact fun h => by cases h
  have hunswept := h.unswept (by rw [hsubmit]; exact fun h => by cases h)
  have hfits := h.fits
  rw [hsubmit] at hfits
  cases place with
  | reads =>
    obtain ⟨⟨staged, hincoming, hwhole, hspec⟩, hsecrets⟩ := hfits
    have hread : s.incoming.any Staged.spec = true := by rw [hincoming]; exact hspec
    rw [State.accepts, if_pos hread]
    exact h.advances hopen hunswept ⟨rfl, rfl, rfl, rfl, rfl⟩ ⟨⟨staged, hincoming, hwhole, hspec⟩, hsecrets⟩
      (fun h => by cases h)
  | makes =>
    obtain ⟨⟨staged, hincoming, hwhole, hspec⟩, hsecrets⟩ := hfits
    have hnone := h.unaccepted hopen
    rw [State.accepts, hnone, if_neg (by simp)]
    refine h.advances hopen hunswept ⟨rfl, rfl, rfl, rfl, rfl⟩ ⟨⟨_, rfl, ?_, ?_⟩, hsecrets⟩
      (fun h => by cases h)
    · rw [hincoming]
      exact whole_makes hwhole
    · rw [hincoming]
      exact (spec_makes staged).trans hspec
  | writes =>
    obtain ⟨⟨staged, hincoming, hwhole, hspec⟩, hsecrets⟩ := hfits
    have hstaged : Whole code { staged with spec := true, state := true } := hwhole
    rw [State.accepts]
    cases s.client.scratch with
    | true =>
      refine h.advances hopen hunswept ⟨rfl, rfl, rfl, rfl, rfl⟩ ⟨⟨_, rfl, ?_, rfl, rfl⟩, hsecrets⟩
        (fun h => by cases h)
      rw [hincoming]
      exact hstaged
    | false =>
      refine h.advances hopen hunswept ⟨rfl, rfl, rfl, rfl, rfl⟩ ⟨⟨_, rfl, ?_, rfl, rfl⟩, hsecrets⟩
        (fun h => by cases h)
      rw [hincoming]
      exact hstaged
  | archives place =>
    obtain ⟨⟨staged, hincoming, hduring, hspec, hstate⟩, hsecrets⟩ := hfits
    obtain ⟨staged', next, heq, hspec', hstate', hnext⟩ := archives_eq hincoming hduring
      (fun place => .accepting (.archives place)) (.accepting .renames)
    rw [State.accepts, heq]
    obtain ⟨place', rfl, hduring'⟩ | ⟨rfl, hwhole⟩ := hnext
    · exact h.advances hopen hunswept ⟨rfl, rfl, rfl, rfl, rfl⟩
        ⟨⟨staged', rfl, hduring', hspec'.trans hspec, hstate'.trans hstate⟩, hsecrets⟩ (fun h => by cases h)
    · exact h.advances hopen hunswept ⟨rfl, rfl, rfl, rfl, rfl⟩
        ⟨⟨staged', rfl, hwhole, hspec'.trans hspec, hstate'.trans hstate⟩, hsecrets⟩ (fun h => by cases h)
  | renames => exact sound_renames h hsubmit

/-- **The submit, wherever it runs.** -/
theorem sound_submits (h : Sound code s) (hstep : s.submits code = some s') : Sound code s' := by
  by_cases hopen : s.submit = .accepted
  · rw [State.submits, hopen] at hstep
    cases hstep
  by_cases hover : s.submit = .dropped
  · rw [State.submits, hover] at hstep
    cases hstep
  have hunswept := h.unswept hover
  have hfits := h.fits
  rw [State.submits] at hstep
  cases hsubmit : s.submit with
  | notYet | accepted | dropped =>
    rw [hsubmit] at hstep
    cases hstep
  | syncing synced =>
    rw [hsubmit] at hstep hfits
    obtain ⟨staged, hincoming, harchive, hworkdir⟩ := hfits
    simp only [hincoming, Option.bind_some, hworkdir, Option.map_some] at hstep
    cases hentry : code[synced]? with
    | some entry =>
      simp only [hentry] at hstep
      obtain rfl := Option.some.inj hstep
      refine h.advances hopen hunswept ⟨rfl, rfl, rfl, rfl, rfl⟩ ⟨_, rfl, harchive, ?_⟩ (fun h => by cases h)
      show some (code.take synced ++ [entry]) = some (code.take (synced + 1))
      rw [List.take_add_one, hentry]
      rfl
    | none =>
      simp only [hentry] at hstep
      obtain rfl := Option.some.inj hstep
      have hall : code.take synced = code := List.take_of_length_le (List.getElem?_eq_none_iff.mp hentry)
      exact h.advances hopen hunswept ⟨rfl, rfl, rfl, rfl, rfl⟩
        ⟨staged, hincoming, .inr ⟨harchive, hall ▸ hworkdir⟩⟩ (fun h => by cases h)
  | synced =>
    rw [hsubmit] at hstep hfits
    obtain ⟨staged, hincoming, hwhole⟩ := hfits
    obtain rfl := Option.some.inj hstep
    refine h.advances hopen hunswept ⟨rfl, rfl, rfl, rfl, rfl⟩ ⟨_, rfl, ?_⟩ (fun h => by cases h)
    rw [hincoming]
    exact hwhole
  | described =>
    rw [hsubmit] at hstep hfits
    obtain rfl := Option.some.inj hstep
    split
    · exact h.advances hopen hunswept ⟨rfl, rfl, rfl, rfl, rfl⟩ hfits (fun h => by cases h)
    · exact h.advances hopen hunswept ⟨rfl, rfl, rfl, rfl, rfl⟩ hfits (fun h => by cases h)
  | archiving place =>
    rw [hsubmit] at hstep hfits
    obtain ⟨staged, hincoming, hduring⟩ := hfits
    obtain ⟨staged', next, heq, _, _, hnext⟩ :=
      archives_eq hincoming hduring .archiving (s.afterCommand .archived)
    obtain rfl := Option.some.inj hstep
    rw [heq]
    obtain ⟨place', rfl, hduring'⟩ | ⟨rfl, hwhole⟩ := hnext
    · exact h.advances hopen hunswept ⟨rfl, rfl, rfl, rfl, rfl⟩ ⟨staged', rfl, hduring'⟩ (fun h => by cases h)
    · rw [State.afterCommand, Option.elim_none]
      split
      · exact h.advances hopen hunswept ⟨rfl, rfl, rfl, rfl, rfl⟩ trivial (fun h => by cases h)
      · exact h.advances hopen hunswept ⟨rfl, rfl, rfl, rfl, rfl⟩ ⟨staged', rfl, hwhole⟩ (fun h => by cases h)
  | archived =>
    rw [hsubmit] at hstep hfits
    obtain rfl := Option.some.inj hstep
    exact h.advances hopen hunswept ⟨rfl, rfl, rfl, rfl, rfl⟩
      ⟨hfits, fun hs => by rw [hs, Bool.or_true]⟩ (fun h => by cases h)
  | delivered =>
    rw [hsubmit] at hstep hfits
    obtain ⟨⟨staged, hincoming, hwhole⟩, hsecrets⟩ := hfits
    obtain rfl := Option.some.inj hstep
    refine h.advances hopen hunswept ⟨rfl, rfl, rfl, rfl, rfl⟩ ⟨⟨_, rfl, ?_, rfl⟩, hsecrets⟩
      (fun h => by cases h)
    rw [hincoming]
    exact hwhole
  | specified =>
    rw [hsubmit] at hstep hfits
    obtain rfl := Option.some.inj hstep
    exact h.advances hopen hunswept ⟨rfl, rfl, rfl, rfl, rfl⟩ hfits (fun h => by cases h)
  | accepting place =>
    rw [hsubmit] at hstep
    obtain rfl := Option.some.inj hstep
    exact sound_accepts h hsubmit

/-! ## The attempts go on -/

/-- What an attempt does leaves the submit as it is. -/
theorem Sound.attempts (h : Sound code s) {job : Accepted E} (hjob : s.job = some job)
    (hrest : s'.submit = s.submit ∧ s'.client = s.client ∧ s'.incoming = s.incoming ∧ s'.secrets = s.secrets ∧
      s'.sweeping = s.sweeping ∧ s'.job = s.job)
    (hkept : ∀ root, (s.trees root).isSome → (s'.trees root).isSome)
    (htrees : ∀ root tree, s'.trees root = some tree → tree.Sensible code)
    (hunpacking : ∀ root entries, s'.unpacking root = some entries → entries.length ≤ code.length)
    (hdoing : Doing code s' s'.attempt) : Sound code s' := by
  obtain ⟨hsubmit, hclient, hincoming, hsecrets, hsweeping, hsame⟩ := hrest
  have haccepted : s.submit = .accepted := by
    by_contra hopen
    rw [h.unaccepted hopen] at hjob
    cases hjob
  refine
    { fits := ?_
      sweeping := fun hs => hsubmit ▸ h.sweeping (hsweeping ▸ hs)
      unaccepted := fun hs => absurd (hsubmit.trans haccepted) hs
      accepted := fun _ => ?_
      nothing := fun hs => by rw [hsame, hjob] at hs; cases hs
      trees := htrees
      unpacking := hunpacking
      doing := hdoing }
  · have hfits := h.fits
    rw [hsubmit, haccepted] at *
    exact hincoming.trans hfits
  · obtain ⟨job', hjob', hspec, hstate, hgiven, hcode⟩ := h.accepted haccepted
    exact ⟨job', hsame.trans hjob', hspec, hstate, fun hs => hsecrets.trans (hgiven (hclient ▸ hs)),
      hcode.imp_right (hkept _)⟩

/-- Where there is no workdir there is the archive. -/
theorem Sound.archive (h : Sound code s) {job : Accepted E} (hjob : s.job = some job)
    (hbare : s.trees .jobDir = none) : s.job.bind Accepted.archive = some code := by
  have haccepted : s.submit = .accepted := by
    by_contra hopen
    rw [h.unaccepted hopen] at hjob
    cases hjob
  obtain ⟨job', hjob', _, _, _, harchive | htree⟩ := h.accepted haccepted
  · rw [hjob', Option.bind_some, harchive]
  · rw [hbare] at htree
    cases htree

/-- A process that looks elsewhere has found nothing in the job's directory. -/
theorem bare_of_root {scratch : Option String} (hnone : s.trees (s.workdirRoot scratch) = none) :
    s.trees .jobDir = none := by
  cases scratch with
  | none => exact hnone
  | some directory =>
    simp only [State.workdirRoot] at hnone
    split at hnone
    · exact hnone
    · next hbare => simpa using hbare

theorem Sound.job (h : Sound code s) (hattempt : s.attempt ≠ .none) : ∃ job, s.job = some job :=
  Option.ne_none_iff_exists'.mp fun hnone => hattempt (h.nothing hnone).2

theorem setTree_self (s : State E) (root : Root) (tree : Option (Tree E)) :
    (s.setTree root tree).trees root = tree := if_pos rfl

theorem setUnpacking_self (s : State E) (root : Root) (entries : Option (List E)) :
    (s.setUnpacking root entries).unpacking root = entries := if_pos rfl

theorem setUnpacking_short (h : Sound code s) {root : Root} {entries : Option (List E)}
    (hshort : ∀ found, entries = some found → found.length ≤ code.length) (other : Root) (found : List E)
    (hfound : (s.setUnpacking root entries).unpacking other = some found) : found.length ≤ code.length := by
  replace hfound : (if other = root then entries else s.unpacking other) = some found := hfound
  split at hfound
  · exact hshort found hfound
  · exact h.unpacking other found hfound

theorem setTree_sensible (htrees : ∀ root tree, s.trees root = some tree → tree.Sensible code) {root : Root}
    {tree : Tree E} (htree : tree.Sensible code) (other : Root) (found : Tree E)
    (hfound : (s.setTree root (some tree)).trees other = some found) : found.Sensible code := by
  replace hfound : (if other = root then some tree else s.trees other) = some found := hfound
  split at hfound
  · exact Option.some.inj hfound ▸ htree
  · exact htrees other found hfound

theorem setTree_kept (s : State E) (root : Root) (tree : Tree E) (other : Root)
    (hsome : (s.trees other).isSome) : ((s.setTree root (some tree)).trees other).isSome := by
  show (if other = root then some tree else s.trees other).isSome = true
  split
  · rfl
  · exact hsome

/-- **A step of a restore**, by where it stands: it looks for a workdir, makes room, unpacks, and moves in. -/
inductive Restored (code : List E) (s : State E) (scratch : Option String) : State E → Restore → Prop
  | found {tree : Tree E} (htree : s.trees (s.workdirRoot scratch) = some tree) :
    Restored code s scratch { s with attempt := .restored (s.workdirRoot scratch) } .looks
  | absent (hbare : s.trees (s.workdirRoot scratch) = none)
      (harchive : s.job.bind Accepted.archive = some code) :
    Restored code s scratch { s with attempt := .restores scratch (.removes (s.workdirRoot scratch)) } .looks
  | removes {root : Root} {entry : E} {rest : List E} (hbare : s.trees root = none)
      (harchive : s.job.bind Accepted.archive = some code) (hleft : s.unpacking root = some (entry :: rest)) :
    Restored code s scratch (s.setUnpacking root (some rest)) (.removes root)
  | opens {root : Root} (hbare : s.trees root = none) (harchive : s.job.bind Accepted.archive = some code) :
    Restored code s scratch
      { s.setUnpacking root (some []) with attempt := .restores scratch (.unpacks root 0) } (.removes root)
  | unpacks {root : Root} {unpacked : Nat} {entry : E} (hbare : s.trees root = none)
      (harchive : s.job.bind Accepted.archive = some code) (hentry : code[unpacked]? = some entry) :
    Restored code s scratch
      { s.setUnpacking root (some (code.take (unpacked + 1))) with
        attempt := .restores scratch (.unpacks root (unpacked + 1)) } (.unpacks root unpacked)
  | moves {root : Root} {unpacked : Nat} (hbare : s.trees root = none) (hall : code.length ≤ unpacked) :
    Restored code s scratch
      { (s.setUnpacking root none).setTree root (some ⟨code, false⟩) with attempt := .restored root }
      (.unpacks root unpacked)

/-- **A restore is never lost for want of an archive**, and never content with nothing. -/
theorem restores_restored (h : Sound code s) {scratch : Option String} {place : Restore}
    (hattempt : s.attempt = .restores scratch place) :
    Restored code s scratch (s.restores scratch place) place := by
  obtain ⟨job, hjob⟩ := h.job (by rw [hattempt]; exact fun h => by cases h)
  have hdoing := h.doing
  rw [hattempt] at hdoing
  cases place with
  | looks =>
    cases htree : s.trees (s.workdirRoot scratch) with
    | some tree =>
      rw [State.restores, htree, if_pos Option.isSome_some]
      exact .found htree
    | none =>
      have harchive := h.archive hjob (bare_of_root htree)
      rw [State.restores, htree, if_neg (by simp), harchive]
      exact .absent htree harchive
  | removes root =>
    obtain ⟨hbare, harchive⟩ := hdoing
    cases hleft : s.unpacking root with
    | none =>
      rw [State.restores, hleft]
      exact .opens hbare harchive
    | some entries =>
      cases entries with
      | nil =>
        rw [State.restores, hleft]
        exact .opens hbare harchive
      | cons entry rest =>
        rw [State.restores, hleft]
        exact .removes hbare harchive hleft
  | unpacks root unpacked =>
    obtain ⟨hbare, harchive, hunpacked⟩ := hdoing
    cases hentry : code[unpacked]? with
    | some entry =>
      simp only [State.restores, harchive, hunpacked, hentry]
      have htake : code.take unpacked ++ [entry] = code.take (unpacked + 1) := by
        rw [List.take_add_one, hentry]
        rfl
      rw [htake]
      exact .unpacks hbare harchive hentry
    | none =>
      have hlength := List.getElem?_eq_none_iff.mp hentry
      simp only [State.restores, harchive, hunpacked, hentry, hbare, List.take_of_length_le hlength]
      exact .moves hbare hlength

theorem sound_restores (h : Sound code s) {scratch : Option String} {place : Restore}
    (hattempt : s.attempt = .restores scratch place) : Sound code (s.restores scratch place) := by
  obtain ⟨job, hjob⟩ := h.job (by rw [hattempt]; exact fun h => by cases h)
  have hrest := restores_restored h hattempt
  generalize s.restores scratch place = s' at hrest
  cases hrest with
  | found htree =>
    exact h.attempts hjob ⟨rfl, rfl, rfl, rfl, rfl, rfl⟩ (fun _ => id) h.trees h.unpacking ⟨_, htree⟩
  | absent hbare harchive =>
    exact h.attempts hjob ⟨rfl, rfl, rfl, rfl, rfl, rfl⟩ (fun _ => id) h.trees h.unpacking ⟨hbare, harchive⟩
  | removes hbare harchive hleft =>
    refine h.attempts hjob ⟨rfl, rfl, rfl, rfl, rfl, rfl⟩ (fun _ => id) h.trees
      (setUnpacking_short h fun found hfound => ?_) ?_
    · have hlong := h.unpacking _ _ hleft
      rw [← Option.some.inj hfound]
      exact (Nat.le_succ _).trans hlong
    · show Doing code _ s.attempt
      rw [hattempt]
      exact ⟨hbare, harchive⟩
  | opens hbare harchive =>
    refine h.attempts hjob ⟨rfl, rfl, rfl, rfl, rfl, rfl⟩ (fun _ => id) h.trees
      (setUnpacking_short h fun found hfound => ?_) ⟨hbare, harchive, setUnpacking_self s _ _⟩
    rw [← Option.some.inj hfound]
    exact Nat.zero_le _
  | @unpacks root unpacked entry hbare harchive hentry =>
    refine h.attempts hjob ⟨rfl, rfl, rfl, rfl, rfl, rfl⟩ (fun _ => id) h.trees
      (setUnpacking_short h fun found hfound => ?_) ⟨hbare, harchive, setUnpacking_self s _ _⟩
    rw [← Option.some.inj hfound]
    exact List.length_take_le' _ _
  | @moves root unpacked hbare hall =>
    exact h.attempts hjob ⟨rfl, rfl, rfl, rfl, rfl, rfl⟩ (setTree_kept _ _ _)
      (setTree_sensible (s := s.setUnpacking root none) h.trees (.inr rfl))
      (setUnpacking_short h fun found hfound => by cases hfound)
      ⟨_, setTree_self (s.setUnpacking root none) _ _⟩

/-! ## Everything else that may happen -/

/-- **What is asked of the world**: a submit that is under way is no hour behind, and what is removed goes. -/
def isCareful (s : State E) : Label E → Bool
  | .leaves => false
  | _ => !s.submit.isUnderWay || decide (s.now - s.changed ≤ incomingStaleS)

/-- The submit is over, whatever it left. -/
theorem Sound.dropped (h : Sound code s) (hopen : s.submit ≠ .accepted) (hsubmit : s'.submit = .dropped)
    (hjob : s'.job = s.job) (htrees : ∀ root, s.trees root = none → s'.trees root = none)
    (hattempt : s.attempt = .none → s'.attempt = .none)
    (hunpacking : ∀ root entries, s'.unpacking root = some entries → entries.length ≤ code.length) :
    Sound code s' := by
  have hnone := hjob.trans (h.unaccepted hopen)
  obtain ⟨hbare, hidle⟩ := h.nothing (h.unaccepted hopen)
  exact
    { fits := by rw [hsubmit]; trivial
      sweeping := fun _ => hsubmit
      unaccepted := fun _ => hnone
      accepted := fun hs => by rw [hsubmit] at hs; cases hs
      nothing := fun _ => ⟨fun root => htrees root (hbare root), hattempt hidle⟩
      trees := fun root tree htree => by rw [htrees root (hbare root)] at htree; cases htree
      unpacking := hunpacking
      doing := by rw [hattempt hidle]; trivial }

/-- **Only what a submit has left is found stale.** -/
theorem Sound.stale (h : Sound code s)
    (hprompt : (!s.submit.isUnderWay || decide (s.now - s.changed ≤ incomingStaleS)) = true)
    (hincoming : s.incoming.isSome = true) (hstale : s.now - s.changed > incomingStaleS) :
    s.submit = .dropped := by
  have hfits := h.fits
  cases hsubmit : s.submit with
  | notYet | accepted =>
    rw [hsubmit] at hfits
    have hnone : s.incoming = none := hfits
    rw [hnone] at hincoming
    cases hincoming
  | dropped => rfl
  | _ =>
    rw [hsubmit] at hprompt
    exact absurd hstale (not_lt_of_ge (of_decide_eq_true hprompt))

theorem Submit.isUnderWay_of_isCommand {submit : Submit} (h : submit.isCommand = true) :
    submit.isUnderWay = true := by
  cases submit with
  | archiving | accepting => rfl
  | _ => cases h

theorem Sound.underWay (h : Sound code s) (hunderway : s.submit.isUnderWay = true) :
    s.submit ≠ .accepted ∧ s.sweeping = false := by
  refine ⟨fun haccepted => ?_, h.unswept fun hover => ?_⟩
  · rw [haccepted] at hunderway
    cases hunderway
  · rw [hover] at hunderway
    cases hunderway

theorem sound_begins (h : Sound code s) (hsubmit : s.submit = .notYet) (client : Client) :
    Sound code
      (({ s with client }.stage fun staged => { staged with workdir := some [] }).goes (.syncing 0)) := by
  have hfits := h.fits
  rw [hsubmit] at hfits
  have hnone : s.incoming = none := hfits
  have hunswept := h.unswept (by rw [hsubmit]; exact fun h => by cases h)
  refine h.advances (by rw [hsubmit]; exact fun h => by cases h) hunswept
    ⟨rfl, rfl, rfl, rfl, rfl⟩ ⟨_, rfl, ?_, rfl⟩ (fun h => by cases h)
  show (s.incoming.getD {}).archive = none
  rw [hnone]
  rfl

/-- What an attempt's commands make of its workdir. -/
theorem sound_works (h : Sound code s) {root : Root}
    (hattempt : s.attempt = .restored root ∨ s.attempt = .works root) (entries : List E) :
    Sound code { s.setTree root (some ⟨entries, true⟩) with attempt := .works root } := by
  obtain ⟨job, hjob⟩ := h.job (by obtain h | h := hattempt <;> rw [h] <;> exact fun h => by cases h)
  exact h.attempts hjob ⟨rfl, rfl, rfl, rfl, rfl, rfl⟩ (setTree_kept s root _)
    (setTree_sensible h.trees (.inl rfl)) h.unpacking ⟨_, setTree_self s root _⟩

theorem sound_fails (h : Sound code s) {scratch : Option String} {place : Restore}
    (hattempt : s.attempt = .restores scratch place) :
    Sound code
      { (if scratch.isSome then s.setUnpacking (s.workdirRoot scratch) none else s) with
        attempt := .lost } := by
  obtain ⟨job, hjob⟩ := h.job (by rw [hattempt]; exact fun h => by cases h)
  cases scratch with
  | none => exact h.attempts hjob ⟨rfl, rfl, rfl, rfl, rfl, rfl⟩ (fun _ => id) h.trees h.unpacking trivial
  | some directory =>
    exact h.attempts hjob ⟨rfl, rfl, rfl, rfl, rfl, rfl⟩ (fun _ => id) h.trees
      (setUnpacking_short h fun found hfound => by cases hfound) trivial

theorem sound_killed (h : Sound code s) : Sound code { s with attempt := .none } :=
  { h with
    nothing := fun hnone => ⟨(h.nothing hnone).1, rfl⟩
    doing := trivial }

/-- A restart takes processes and what is on scratch, and nothing of what is kept. -/
theorem sound_restarted (h : Sound code s) (wiped : String → Bool) : Sound code (s.restarted wiped) := by
  have hunpacking : ∀ root entries, (s.restarted wiped).unpacking root = some entries →
      entries.length ≤ code.length := by
    intro root entries hsome
    simp only [State.restarted] at hsome
    split at hsome
    · cases hsome
    · exact h.unpacking root entries hsome
  have hgone : ∀ root, s.trees root = none → (s.restarted wiped).trees root = none := by
    intro root hnone
    simp only [State.restarted]
    split
    · rfl
    · exact hnone
  cases hcommand : s.submit.isCommand with
  | true =>
    have hopen := (h.underWay (Submit.isUnderWay_of_isCommand hcommand)).1
    have hdropped : (s.restarted wiped).submit = .dropped := by simp only [State.restarted, hcommand, if_true]
    exact h.dropped hopen hdropped rfl hgone (fun _ => rfl) hunpacking
  | false =>
    have hsame : (s.restarted wiped).submit = s.submit := by simp [State.restarted, hcommand]
    refine
      { fits := by rw [hsame]; exact h.fits
        sweeping := fun hs => Bool.noConfusion hs
        unaccepted := fun hs => h.unaccepted (hsame ▸ hs)
        accepted := fun hs => h.accepted (hsame ▸ hs)
        nothing := fun hnone => ⟨fun root => hgone root ((h.nothing hnone).1 root), rfl⟩
        trees := fun root tree htree => ?_
        unpacking := hunpacking
        doing := trivial }
    simp only [State.restarted] at htree
    split at htree
    · cases htree
    · exact h.trees root tree htree

theorem sound_step (h : Sound code s) {label : Label E} (hcareful : isCareful s label = true)
    (hstep : (machine code).step s label = some s') : Sound code s' := by
  cases label with
  | begins client =>
    obtain ⟨hsubmit, heq⟩ := Option.ite_none_right_eq_some.mp hstep
    exact Option.some.inj heq ▸ sound_begins h hsubmit client
  | submits => exact sound_submits h hstep
  | leaves => exact Bool.noConfusion hcareful
  | clientDies =>
    obtain ⟨hunderway, heq⟩ := Option.ite_none_left_eq_some.mp hstep
    obtain ⟨hopen, hunswept⟩ := h.underWay (not_not.mp hunderway)
    split at heq
    · obtain rfl := Option.some.inj heq
      exact { h with }
    · exact Option.some.inj heq ▸ h.fails hopen hunswept
  | commandKilled =>
    obtain ⟨hcommand, heq⟩ := Option.ite_none_right_eq_some.mp hstep
    obtain ⟨hopen, hunswept⟩ := h.underWay (Submit.isUnderWay_of_isCommand hcommand)
    exact Option.some.inj heq ▸ h.fails hopen hunswept
  | passes seconds =>
    obtain ⟨_, heq⟩ := Option.ite_none_right_eq_some.mp hstep
    obtain rfl := Option.some.inj heq
    exact { h with }
  | findsStale =>
    obtain ⟨⟨hincoming, hstale⟩, heq⟩ := Option.ite_none_right_eq_some.mp hstep
    obtain rfl := Option.some.inj heq
    exact { h with sweeping := fun _ => h.stale hcareful hincoming hstale }
  | sweeps removal =>
    obtain ⟨hsweeping, heq⟩ := Option.ite_none_right_eq_some.mp hstep
    obtain rfl := Option.some.inj heq
    have hover := h.sweeping hsweeping
    exact h.dropped (by rw [hover]; exact fun h => by cases h) hover rfl (fun _ => id) id h.unpacking
  | swept =>
    obtain ⟨hsweeping, heq⟩ := Option.ite_none_right_eq_some.mp hstep
    obtain rfl := Option.some.inj heq
    have hover := h.sweeping hsweeping
    exact h.dropped (by rw [hover]; exact fun h => by cases h) hover rfl (fun _ => id) id h.unpacking
  | sets scratch =>
    obtain rfl := Option.some.inj hstep
    exact { h with }
  | attempts =>
    obtain ⟨⟨hjob, _⟩, heq⟩ := Option.ite_none_right_eq_some.mp hstep
    obtain rfl := Option.some.inj heq
    obtain ⟨job, hjob⟩ := Option.isSome_iff_exists.mp hjob
    exact h.attempts hjob ⟨rfl, rfl, rfl, rfl, rfl, rfl⟩ (fun _ => id) h.trees h.unpacking trivial
  | restores =>
    simp only [machine, step] at hstep
    split at hstep
    · next hattempt => exact Option.some.inj hstep ▸ sound_restores h hattempt
    · cases hstep
  | fails =>
    simp only [machine, step] at hstep
    split at hstep
    · next hattempt => exact Option.some.inj hstep ▸ sound_fails h hattempt
    · cases hstep
  | killed =>
    obtain rfl := Option.some.inj hstep
    exact sound_killed h
  | starts =>
    simp only [machine, step] at hstep
    split at hstep
    · next hattempt => exact Option.some.inj hstep ▸ sound_works h (.inl hattempt) _
    · cases hstep
  | works entries =>
    simp only [machine, step] at hstep
    split at hstep
    · next root hattempt =>
      have hsound := sound_works h (.inr hattempt) entries
      rw [← hattempt] at hsound
      exact Option.some.inj hstep ▸ hsound
    · cases hstep
  | ends =>
    simp only [machine, step] at hstep
    split at hstep
    · exact Option.some.inj hstep ▸ sound_killed h
    · exact Option.some.inj hstep ▸ sound_killed h
    · exact Option.some.inj hstep ▸ sound_killed h
    all_goals cases hstep
  | restarts wiped => exact Option.some.inj hstep ▸ sound_restarted h wiped

/-! ## A restore that is let be -/

variable (code) in
/-- So many steps of a restore end in a workdir there. -/
def Ends (s : State E) (steps : Nat) (root : Root) (tree : Tree E) : Prop :=
  ∃ n ≤ steps, ∃ last, (machine code).run s (List.replicate n .restores) = some last ∧
    last.attempt = .restored root ∧ last.trees root = some tree

variable (code) in
theorem restores_step {scratch : Option String} {place : Restore}
    (hattempt : s.attempt = .restores scratch place) :
    (machine code).step s .restores = some (s.restores scratch place) := by
  simp only [machine, step, hattempt]

theorem Ends.next {steps : Nat} {root : Root} {tree : Tree E}
    (hstep : (machine code).step s .restores = some s') (h : Ends code s' steps root tree) :
    Ends code s (steps + 1) root tree := by
  obtain ⟨n, hn, last, hrun, hends⟩ := h
  exact ⟨n + 1, Nat.succ_le_succ hn, last, Machine.run_cons.mpr ⟨s', hstep, hrun⟩, hends⟩

theorem Ends.mono {steps steps' : Nat} {root : Root} {tree : Tree E} (h : Ends code s steps root tree)
    (hle : steps ≤ steps') : Ends code s steps' root tree := by
  obtain ⟨n, hn, hends⟩ := h
  exact ⟨n, hn.trans hle, hends⟩

theorem unpacks_ends (h : Sound code s) {scratch : Option String} {root : Root} {unpacked missing : Nat}
    (hmissing : code.length - unpacked ≤ missing)
    (hattempt : s.attempt = .restores scratch (.unpacks root unpacked)) :
    Ends code s (missing + 1) root ⟨code, false⟩ := by
  induction missing generalizing s unpacked with
  | zero =>
    have hrest := restores_restored h hattempt
    have hstep := restores_step code hattempt
    generalize s.restores scratch (.unpacks root unpacked) = s' at hrest hstep
    cases hrest with
    | @unpacks _ _ entry _ _ hentry =>
      have hlength := (List.getElem?_eq_some_iff.mp hentry).1
      omega
    | moves hbare hall =>
      exact .next hstep ⟨0, le_rfl, _, rfl, rfl, setTree_self (s.setUnpacking root none) _ _⟩
  | succ missing ih =>
    have hsound := sound_restores h hattempt
    have hrest := restores_restored h hattempt
    have hstep := restores_step code hattempt
    generalize s.restores scratch (.unpacks root unpacked) = s' at hrest hstep hsound
    cases hrest with
    | unpacks hbare harchive hentry => exact .next hstep (ih hsound (by omega) rfl)
    | moves hbare hall =>
      exact .next hstep ⟨0, Nat.zero_le _, _, rfl, rfl, setTree_self (s.setUnpacking root none) _ _⟩

theorem removes_ends (h : Sound code s) {scratch : Option String} {root : Root} {left : Nat}
    (hleft : ((s.unpacking root).getD []).length ≤ left)
    (hattempt : s.attempt = .restores scratch (.removes root)) :
    Ends code s (left + code.length + 2) root ⟨code, false⟩ := by
  induction left generalizing s with
  | zero =>
    have hsound := sound_restores h hattempt
    have hrest := restores_restored h hattempt
    have hstep := restores_step code hattempt
    generalize s.restores scratch (.removes root) = s' at hrest hstep hsound
    cases hrest with
    | removes hbare harchive hfound =>
      rw [hfound] at hleft
      exact absurd hleft (by simp)
    | opens hbare harchive => exact .mono (.next hstep (unpacks_ends hsound (Nat.sub_le _ 0) rfl)) (by omega)
  | succ left ih =>
    have hsound := sound_restores h hattempt
    have hrest := restores_restored h hattempt
    have hstep := restores_step code hattempt
    generalize s.restores scratch (.removes root) = s' at hrest hstep hsound
    cases hrest with
    | @removes _ entry rest hbare harchive hfound =>
      rw [hfound] at hleft
      refine .mono (.next hstep (ih hsound ?_ hattempt)) (by omega)
      rw [setUnpacking_self]
      exact Nat.le_of_succ_le_succ hleft
    | opens hbare harchive => exact .mono (.next hstep (unpacks_ends hsound (Nat.sub_le _ 0) rfl)) (by omega)

theorem looks_ends (h : Sound code s) {scratch : Option String}
    (hattempt : s.attempt = .restores scratch .looks) :
    Ends code s (2 * code.length + 3) (s.workdirRoot scratch)
      ((s.trees (s.workdirRoot scratch)).getD ⟨code, false⟩) := by
  have hsound := sound_restores h hattempt
  have hrest := restores_restored h hattempt
  have hstep := restores_step code hattempt
  generalize s.restores scratch .looks = s' at hrest hstep hsound
  cases hrest with
  | found htree =>
    rw [htree]
    exact .mono (.next hstep ⟨0, le_rfl, _, rfl, rfl, htree⟩) (by omega)
  | absent hbare harchive =>
    rw [hbare]
    have hleft : ((s.unpacking (s.workdirRoot scratch)).getD []).length ≤ code.length := by
      cases hfound : s.unpacking (s.workdirRoot scratch) with
      | none => exact Nat.zero_le _
      | some entries => exact h.unpacking _ _ hfound
    exact .mono (.next hstep (removes_ends hsound hleft rfl)) (by omega)

/-! ## The whole -/

variable (code) in
/-- **What holds of a job's checkout.** -/
structure Kept (s : State E) : Prop where
  /-- What is under `jobs/` is whole. -/
  whole : ∀ job, s.job = some job → job.spec = true ∧ job.state = true ∧
    (s.client.secrets = true → s.secrets = true) ∧ (job.archive = some code ∨ (s.trees .jobDir).isSome = true)
  /-- A submit that is not through has left nothing there. -/
  nothing : s.submit ≠ .accepted → s.job = none ∧ s.attempt = .none ∧ ∀ root, s.trees root = none
  /-- No workdir is half of the checkout. -/
  sensible : ∀ root tree, s.trees root = some tree → tree.worked = true ∨ tree.entries = code
  /-- An attempt that is told it has a workdir has one. -/
  found : ∀ root, s.attempt = .restored root ∨ s.attempt = .works root → (s.trees root).isSome = true
  /-- No checkout is lost but to an error. -/
  notLost : ∀ s', (machine code).step s .restores = some s' → s'.attempt ≠ .lost
  /-- A restore that is let be ends with what there was, or with the checkout. -/
  prompt : ∀ scratch, s.attempt = .restores scratch .looks →
    ∃ n ≤ 2 * code.length + 3, ∃ last, (machine code).run s (List.replicate n .restores) = some last ∧
      last.attempt = .restored (s.workdirRoot scratch) ∧
      last.trees (s.workdirRoot scratch) = some ((s.trees (s.workdirRoot scratch)).getD ⟨code, false⟩)

theorem Sound.kept (h : Sound code s) : Kept code s where
  whole job hjob := by
    have haccepted : s.submit = .accepted := by
      by_contra hopen
      rw [h.unaccepted hopen] at hjob
      cases hjob
    obtain ⟨job', hjob', hwhole⟩ := h.accepted haccepted
    rw [hjob] at hjob'
    exact Option.some.inj hjob' ▸ hwhole
  nothing hopen := by
    have hnone := h.unaccepted hopen
    obtain ⟨hbare, hidle⟩ := h.nothing hnone
    exact ⟨hnone, hidle, hbare⟩
  sensible := h.trees
  found root hattempt := by
    have hdoing := h.doing
    have htree : ∃ tree, s.trees root = some tree := by
      obtain hattempt | hattempt := hattempt <;> rw [hattempt] at hdoing <;> exact hdoing
    exact Option.isSome_iff_exists.mpr htree
  notLost s' hstep := by
    simp only [machine, step] at hstep
    split at hstep
    · next scratch place hattempt =>
      have hrest := restores_restored h hattempt
      rw [Option.some.inj hstep] at hrest
      cases hrest with
      | removes =>
        rw [show (s.setUnpacking _ _).attempt = s.attempt from rfl, hattempt]
        exact fun h => by cases h
      | _ => exact fun h => by cases h
    · cases hstep
  prompt scratch hattempt := looks_ends h hattempt

/-- **A job that is accepted has its checkout**, whoever dies and whatever restarts. -/
theorem checkout_kept {labels : List (Label E)} {last : State E}
    (hcareful : ∀ p ∈ (machine code).trace {} labels, isCareful p.1 p.2 = true)
    (hrun : (machine code).run {} labels = some last) : Kept code last :=
  (Machine.run_invariant_of (I := Sound code) (C := fun s label => isCareful s label = true)
    (fun _ _ _ h hcareful hstep => sound_step h hcareful hstep) sound_init hcareful hrun).kept

/-- A job on a host whose workdirs are on scratch. Its first runner is killed while it unpacks, its second
attempt works until the host restarts and scratch is wiped, and the third starts over. -/
def restarted : List (Label String) :=
  [[.sets (some "/scratch"), .begins ⟨true, true, true⟩], List.replicate 21 .submits,
    [.attempts, .restores, .restores, .restores, .killed, .attempts], List.replicate 6 .restores,
    [.starts, .works ["out"], .restarts fun _ => true, .attempts], List.replicate 5 .restores].flatten

theorem checkout_kept_restarted :
    ∃ last, (machine ["a.py", "b.py"]).run {} restarted = some last ∧
      last.attempt = .restored (.scratch "/scratch") ∧
      (last.trees (.scratch "/scratch")).map Tree.entries = some ["a.py", "b.py"] ∧
      Kept ["a.py", "b.py"] last := by
  have hcareful : ((machine ["a.py", "b.py"]).trace {} restarted).all (fun p => isCareful p.1 p.2) = true := by
    decide +kernel
  have hlast : ((machine ["a.py", "b.py"]).run {} restarted).any (fun last =>
      last.attempt = .restored (.scratch "/scratch") ∧
        (last.trees (.scratch "/scratch")).map Tree.entries = some ["a.py", "b.py"]) = true := by
    decide +kernel
  rw [Option.any_eq_true] at hlast
  obtain ⟨last, hrun, hend⟩ := hlast
  obtain ⟨hattempt, htree⟩ := of_decide_eq_true hend
  exact ⟨last, hrun, hattempt, htree, checkout_kept (List.all_eq_true.mp hcareful) hrun⟩

/-- Where an error is ignored while the workdir is removed, on both occasions. -/
def unremoved : List (Label String) :=
  [[.sets (some "/scratch"), .begins ⟨true, true, true⟩], List.replicate 10 .submits, [.leaves],
    List.replicate 7 .submits, [.leaves, .submits, .attempts, .restores]].flatten

/-- **What is left of a workdir is taken for the workdir**, though the archive is whole. -/
theorem left_behind :
    ((machine ["a.py", "b.py"]).run {} unremoved).map
        (fun last => (last.attempt, (last.trees .jobDir).map Tree.entries)) =
      some (.restored .jobDir, some ["b.py"]) := by
  decide +kernel

/-- A client that sleeps for an hour before it puts the spec there. -/
def asleep : List (Label String) :=
  [[.begins ⟨false, false, true⟩], List.replicate 6 .submits, [.passes 3601, .findsStale, .swept],
    List.replicate 6 .submits, [.attempts, .restores]].flatten

/-- **What was swept away is accepted all the same**, with nothing in its workdir and its secrets gone. -/
theorem swept_away :
    ((machine ["a.py", "b.py"]).run {} asleep).map
        (fun last => (last.attempt, (last.trees .jobDir).map Tree.entries, last.secrets)) =
      some (.restored .jobDir, some [], false) := by
  decide +kernel

end Gpuc.Host.Checkout
