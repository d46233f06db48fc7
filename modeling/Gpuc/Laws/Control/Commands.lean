import Gpuc.Control.Commands

/-!
# A host is told what was meant

However a request's text is made, its line is the quoted words one blank apart (`line_eq`). So the login
shell sees one `bash` with one command, and that `bash` one command with these arguments, whatever text
the arguments are.
-/

set_option autoImplicit false

namespace Gpuc.Control.Commands

open Gpuc.Basis Gpuc.Basis.Shell

/-! ## Quoting nothing -/

theorem quote_of_plain {s : Text} (hs : s ≠ []) (h : ∀ c ∈ s, isPlain c = true) : quote s = s := by
  rw [quote, if_neg hs, if_pos (List.all_eq_true.mpr h)]

@[simp] theorem quote_token (token : Token) : quote token.text = token.text :=
  quote_of_plain token.nonempty token.plain

theorem spaced_append {pieces more : List Text} (hp : pieces ≠ []) (hm : more ≠ []) :
    spaced (pieces ++ more) = spaced pieces ++ ' ' :: spaced more := by
  induction pieces with
  | nil => exact absurd rfl hp
  | cons piece pieces ih =>
    cases pieces with
    | nil =>
      cases more with
      | nil => exact absurd rfl hm
      | cons next more => simp [spaced, List.intercalate_cons_cons]
    | cons next pieces =>
      have hrest := ih (List.cons_ne_nil _ _)
      rw [spaced] at hrest ⊢
      simp only [List.cons_append, List.intercalate_cons_cons] at hrest ⊢
      rw [hrest]
      simp [spaced, List.intercalate_cons_cons]

@[simp] theorem spaced_singleton (piece : Text) : spaced [piece] = piece := List.intercalate_singleton

theorem spaced_cons {piece : Text} {pieces : List Text} (h : pieces ≠ []) :
    spaced (piece :: pieces) = piece ++ ' ' :: spaced pieces := by
  have happend : spaced ([piece] ++ pieces) = _ := spaced_append (List.cons_ne_nil _ _) h
  rwa [spaced_singleton] at happend

/-- Options behind the words of a verb. -/
theorem spaced_options {β : Type} (flag : String) (value : β → Text) (hflag : quote flag.toList = flag.toList)
    (pieces : List Text) (hp : pieces ≠ []) (options : List β) :
    spaced (pieces ++ (options.flatMap fun o => [flag.toList, value o]).map quote) =
      spaced pieces ++ options.flatMap fun o => option flag (value o) := by
  induction options generalizing pieces with
  | nil => simp
  | cons o options ih =>
    have hone : spaced (pieces ++ [quote flag.toList, quote (value o)]) =
        spaced pieces ++ option flag (value o) := by
      rw [spaced_append hp (List.cons_ne_nil _ _), spaced_cons (List.cons_ne_nil _ _), spaced_singleton,
        hflag, option]
    rw [List.flatMap_cons, List.map_append, ← List.append_assoc, List.flatMap_cons, ← List.append_assoc,
      ← hone]
    exact ih _ (by simp)

theorem map_quote_flag {name : String} (h : quote name.toList = name.toList) (given : Bool) :
    (flag name given).map quote = flag name given := by
  cases given
  · rfl
  · simp [flag, h]

/-- The line of a verb on some jobs, with an option for each of some values. -/
theorem jobVerb_eq {β : Type} (verb flag : String) (value : β → Text)
    (hverb : quote verb.toList = verb.toList) (hflag : quote flag.toList = flag.toList)
    (job : Text) (jobs : List Text) (options : List β) :
    jobVerb verb (job :: jobs) (options.flatMap fun o => option flag (value o)) =
      join (verb.toList :: job :: (jobs ++ options.flatMap fun o => [flag.toList, value o])) := by
  have hids : spaced (verb.toList :: (job :: jobs).map quote) = verb.toList ++ ' ' :: quoted (job :: jobs) :=
    spaced_cons (by simp)
  have hall := spaced_options flag value hflag (verb.toList :: (job :: jobs).map quote) (List.cons_ne_nil _ _)
    options
  rw [hids] at hall
  rw [jobVerb, join]
  simp only [List.map_cons, List.map_append, hverb, List.cons_append, List.append_assoc] at hall ⊢
  exact hall.symm

theorem map_quote_only (jobs : Option (List Text)) : (Request.onlyWords jobs).map quote = only jobs := by
  have h : quote "--only".toList = "--only".toList := by decide
  cases jobs with
  | none => rfl
  | some ids => rw [Request.onlyWords, Option.elim_some, List.map_cons, h, only, Option.elim_some]; rfl

theorem map_quote_given {name : String} (h : quote name.toList = name.toList) (token : Option Token) :
    (given name token).map quote = given name token := by
  cases token with
  | none => rfl
  | some token => simp [given, h]

/-- A verb with one argument. -/
theorem join_pair {verb : String} (hverb : quote verb.toList = verb.toList) (arg : Text) :
    join [verb.toList, arg] = verb.toList ++ ' ' :: quote arg := by
  rw [join, List.map_cons, List.map_cons, hverb, List.map_nil, spaced_cons (List.cons_ne_nil _ _),
    spaced_singleton]

theorem enqueueLine_eq (staged : Text) : enqueueLine staged = join ["enqueue".toList, staged] :=
  (join_pair (by decide) staged).symm

theorem archiveLine_eq (jobId : Token) : archiveLine jobId = join ["archive-checkout".toList, jobId.text] := by
  have hverb : quote "archive-checkout".toList = "archive-checkout".toList := by decide
  have h := join_pair hverb jobId.text
  rw [quote_token] at h
  exact h.symm

theorem statusRequest_eq (jobIds : List Text) (recent since : Option Token) :
    statusRequest jobIds recent since =
      join ("status".toList :: (jobIds ++ given "--recent" recent ++ given "--since" since)) := by
  have hverb : quote "status".toList = "status".toList := by decide
  rw [statusRequest, join, List.map_cons, hverb, List.map_append, List.map_append,
    map_quote_given (by decide), map_quote_given (by decide)]

theorem preemptLine_eq (job : Text) (jobs : List Text) (priority : Option Token) :
    preemptLine (job :: jobs) priority =
      join ("preempt".toList :: job :: (jobs ++ given "--priority" priority)) := by
  have h := jobVerb_eq "preempt" "--priority" Token.text (by decide) (by decide) job jobs
    priority.toList
  cases priority with
  | none => exact h
  | some priority =>
    simp only [Option.toList_some, List.flatMap_cons, List.flatMap_nil, List.append_nil, option,
      quote_token] at h
    exact h

theorem cleanLine_eq (allFinished : Bool) (jobs : Option (List Text)) (olderThan : Option Token)
    (dryRun : Bool) :
    cleanLine allFinished jobs olderThan dryRun = join ("clean".toList :: (flag "--all-finished" allFinished
      ++ Request.onlyWords jobs ++ given "--older-than" olderThan ++ flag "--dry-run" dryRun)) := by
  have hverb : quote "clean".toList = "clean".toList := by decide
  rw [cleanLine, join, List.map_cons, List.map_append, List.map_append, List.map_append,
    map_quote_flag (by decide), map_quote_flag (by decide), map_quote_only, map_quote_given (by decide), hverb]

theorem purgeLine_eq (olderThan : Token) (dryRun force : Bool) (jobs verified : Option (List Text)) :
    purgeLine olderThan dryRun force jobs verified =
      join ("purge".toList :: "--older-than".toList :: olderThan.text :: (flag "--dry-run" dryRun
        ++ flag "--force" force ++ Request.onlyWords jobs
        ++ verified.elim [] fun verified => ["--verified".toList, List.intercalate [','] verified])) := by
  have hverb : quote "purge".toList = "purge".toList := by decide
  have holder : quote "--older-than".toList = "--older-than".toList := by decide
  have h := spaced_options "--verified" (List.intercalate [',']) (by decide)
    ("purge".toList :: "--older-than".toList :: olderThan.text ::
      (flag "--dry-run" dryRun ++ flag "--force" force ++ only jobs)) (List.cons_ne_nil _ _) verified.toList
  rw [purgeLine, purgeArgs, join, List.map_cons, List.map_cons, List.map_cons, quote_token,
    List.map_append, List.map_append, List.map_append, map_quote_flag (by decide),
    map_quote_flag (by decide), map_quote_only, hverb, holder]
  cases verified with
  | none => rw [Option.elim_none, Option.elim_none, List.map_nil, List.append_nil, List.append_nil]
  | some ids =>
    simp only [Option.toList_some, List.flatMap_cons, List.flatMap_nil, List.append_nil] at h
    exact h.symm

/-- **Every line is its words, quoted one by one.** -/
theorem line_eq (request : Request) : request.line = join request.words := by
  cases request with
  | enqueue staged => exact enqueueLine_eq staged
  | archiveCheckout jobId => exact archiveLine_eq jobId
  | status jobIds recent since => exact statusRequest_eq jobIds recent since
  | cancel job jobs =>
    have h := jobVerb_eq "cancel" "--path" id (by decide) (by decide) job jobs []
    rw [List.flatMap_nil, List.flatMap_nil, List.append_nil] at h
    exact h
  | preempt job jobs priority => exact preemptLine_eq job jobs priority
  | set job jobs patch =>
    exact jobVerb_eq _ _ (fun field : Text × Text => field.1 ++ '=' :: field.2) (by decide) (by decide) job jobs
      patch
  | fetch job jobs wanted => exact jobVerb_eq _ _ id (by decide) (by decide) job jobs wanted
  | clean allFinished jobs olderThan dryRun => exact cleanLine_eq allFinished jobs olderThan dryRun
  | purge olderThan dryRun force jobs verified => exact purgeLine_eq olderThan dryRun force jobs verified
  | dataRemove paths => rfl
  | health args => rfl
  | hfCachePrune =>
    have hverb : quote "hf-cache-prune".toList = "hf-cache-prune".toList := by decide
    exact hverb.symm.trans (spaced_singleton _).symm

/-! ## What the host sees -/

/-- Variables in front of a line, each with a blank behind it. -/
theorem spaced_assignments (values : List (Text × Text)) {pieces : List Text} (h : pieces ≠ []) :
    spaced (assignments values ++ pieces) =
      (values.flatMap fun value => assignment value.1 value.2 ++ [' ']) ++ spaced pieces := by
  induction values with
  | nil => rfl
  | cons value values ih =>
    have hrest : assignments values ++ pieces ≠ [] := List.append_ne_nil_of_right_ne_nil _ h
    have hcons : assignments (value :: values) = assignment value.1 value.2 :: assignments values := rfl
    rw [hcons, List.cons_append, spaced_cons hrest, List.flatMap_cons, ih, List.append_assoc,
      List.append_assoc, List.singleton_append]

/-- The variables a host's own program is started with. -/
def hostValues (home : Text) (env : List (Text × Text)) : List (Text × Text) :=
  env ++ [("GPUC_HOME".toList, home), ("PYTHONPATH".toList, home ++ "/pkg".toList)]

/-- The text of a host command is its pieces one blank apart. -/
theorem hostCommand_eq (python home : Text) (env : Dict String String) (request : Request) :
    hostCommand python home request.line env =
      spaced (assignments (hostValues home (sortedEnv env))
        ++ inDouble python :: ("-m".toList :: "gpuc.host".toList :: request.words).map quote) := by
  have hm : quote "-m".toList = "-m".toList := by decide
  have hmodule : quote "gpuc.host".toList = "gpuc.host".toList := by decide
  have hwords : request.words.map quote ≠ [] := by
    cases request <;> exact List.cons_ne_nil _ _
  rw [spaced_assignments _ (List.cons_ne_nil _ _), List.map_cons, List.map_cons, hm, hmodule,
    spaced_cons (List.cons_ne_nil _ _), spaced_cons (List.cons_ne_nil _ _), spaced_cons hwords,
    hostCommand, hostPython, envPrefix, line_eq, join, hostValues, List.flatMap_append]
  simp [List.append_assoc]

theorem remoteLine_eq (command : Text) : remoteLine command = join ["bash".toList, "-c".toList, command] := by
  have hbash : quote "bash".toList = "bash".toList := by decide
  have hc : quote "-c".toList = "-c".toList := by decide
  rw [join, List.map_cons, List.map_cons, List.map_cons, List.map_nil, hbash, hc,
    spaced_cons (List.cons_ne_nil _ _), spaced_cons (List.cons_ne_nil _ _), spaced_singleton]
  rfl

/-- What `tail_command` has a shell run. -/
theorem read_tailCommand {bash : Text → Text} (path : Text) (lines : Token) (follow retry : Bool) :
    read bash (tailCommand path lines follow retry) =
      some ⟨[], "tail".toList :: (flag (if retry then "-F" else "-f") follow
        ++ ["-n".toList, lines.text, path])⟩ := by
  have htail : quote "tail".toList = "tail".toList := by decide
  have hn : quote "-n".toList = "-n".toList := by decide
  have hline : tailCommand path lines follow retry = join ("tail".toList ::
      (flag (if retry then "-F" else "-f") follow ++ ["-n".toList, lines.text, path])) := by
    have hlast : spaced ["-n".toList, lines.text, quote path] =
        "-n".toList ++ ' ' :: (lines.text ++ ' ' :: quote path) := by
      rw [spaced_cons (List.cons_ne_nil _ _), spaced_cons (List.cons_ne_nil _ _), spaced_singleton]
    have hflag : quote (if retry then "-F" else "-f").toList = (if retry then "-F" else "-f").toList := by
      cases retry <;> decide
    rw [join, List.map_cons, List.map_append, map_quote_flag hflag, List.map_cons, List.map_cons, List.map_cons,
      List.map_nil, quote_token, htail, hn]
    cases follow with
    | false =>
      rw [flag, if_neg Bool.false_ne_true, List.nil_append, spaced_cons (List.cons_ne_nil _ _), hlast]
      rfl
    | true =>
      rw [flag, if_pos rfl, List.singleton_append, spaced_cons (List.cons_ne_nil _ _),
        spaced_cons (List.cons_ne_nil _ _), hlast]
      cases retry <;> simp [tailCommand]
  rw [hline]
  exact read_join _ (by decide) (by decide) (by decide)

/-- Where one variable stands for a volume. -/
def onVolume (name : Text) : Text := if name = "VOL".toList then "/vol".toList else []

end Gpuc.Control.Commands
