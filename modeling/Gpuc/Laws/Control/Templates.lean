import Gpuc.Control.Submit

/-!
# The destination that is checked is the one that is uploaded to

A submit expands `{job_id}` in an output's destinations and checks what that gives; the host expands it
again in every upload and every question about one. The second expansion changes nothing exactly when
the first has left no brace (`survives_iff`).

The law (`expanded_resolves`): of a spec that a submit accepts, the host resolves every output, to the
very strings that were checked, exactly when each destination's template has no doubled brace and no
field that prints one, and each path is itself a template the host can format. The message of a
refused template recommends the doubled brace, and a path is never expanded or checked
(`doubled_brace_raises`).
-/

set_option autoImplicit false

namespace Gpuc.Control

open Gpuc.Basis Gpuc.Host

variable (fields : Fields) (jobId : JobId)

/-- A field with an attribute access stands in the text. -/
def AttributeLeft (text : Text) : Prop :=
  ∃ field : Text, '.' ∈ field ∧ ('{' :: field ++ ['}']) <:+: text

/-- **What a destination's template has to be** for a second expansion to change nothing: one that
leaves no brace, or else one that leaves an attribute's field which prints itself. -/
def Survives (template : String) : Prop :=
  Format.Unbraced (fields.value jobId.toList) template.toList ∨
    ∃ expanded, fields.format template jobId = .ok expanded ∧ AttributeLeft expanded.toList ∧
      fields.format expanded jobId = .ok expanded

/-- **The host resolves an output without raising, to the strings the output has.** -/
structure Settled (output : Output) : Prop where
  key : ∃ key, outputKey fields output jobId = .ok key
  destinations : ∃ found, destinationsOf fields output jobId = .ok found
  s3 : ∀ s3, present output.s3 = some s3 → fields.format s3 jobId = .ok s3
  hf : ∀ hf, present output.hf = some hf → fields.format hf jobId = .ok hf
  hfPath : (present output.hf).isSome → ∀ path, present output.hfPath = some path →
    fields.format path jobId = .ok path

/-- The condition on an output as it is submitted. -/
structure Resolvable (output : Output) : Prop where
  path : Format.Template (fields.value jobId.toList) output.path.toList
  s3 : ∀ s3, present output.s3 = some s3 → Survives fields jobId s3
  hf : ∀ hf, present output.hf = some hf → Survives fields jobId hf
  hfPath : ∀ hf, present output.hf = some hf → fields.format hf jobId ≠ .ok "" →
    ∀ path, present output.hfPath = some path → Survives fields jobId path

section Twice
variable {fields jobId}

theorem format_eq_ok {template expanded : String} :
    fields.format template jobId = .ok expanded ↔
      Basis.format (fields.value jobId.toList) template.toList = .ok expanded.toList := by
  unfold Fields.format
  constructor
  · intro h
    cases hformat : Basis.format (fields.value jobId.toList) template.toList with
    | error e => rw [hformat] at h; cases h
    | ok text =>
      rw [hformat] at h
      obtain rfl := Except.ok.inj h
      rw [String.toList_ofList]
  · intro h
    rw [h, Except.map, String.ofList_toList]

/-- **A second expansion changes nothing exactly when the template survives the first.** -/
theorem survives_iff (hjob : Format.Plain jobId.toList) {template expanded : String}
    (h : fields.format template jobId = .ok expanded) :
    fields.format expanded jobId = .ok expanded ↔ Survives fields jobId template := by
  have hunbraced := Format.plain_iff_unbraced (format_eq_ok.mp h)
  constructor
  · intro htwice
    by_cases hleft : AttributeLeft expanded.toList
    · exact .inr ⟨expanded, h, hleft, htwice⟩
    · refine .inl (hunbraced.mp (Format.plain_of_format_self (format_eq_ok.mp htwice) ?_))
      intro field hfield printed hprinted
      exact fields.plain hjob (fun hdot => hleft ⟨field, hdot, hfield⟩) hprinted
  · rintro (hplain | ⟨expanded', h', -, htwice⟩)
    · exact format_eq_ok.mpr (Format.format_plain (hunbraced.mpr hplain))
    · rw [h] at h'
      rwa [Except.ok.inj h']

/-- What an expansion that is not refused gives. -/
theorem expand_eq_ok {output : Output} {key : String} {template result : Option String}
    (h : expand fields output key template jobId = .ok result) :
    (present template = none ∧ result = template) ∨
      ∃ text expanded, present template = some text ∧ result = some expanded ∧
        fields.format text jobId = .ok expanded := by
  unfold expand at h
  split at h
  · next hnone => exact .inl ⟨hnone, (Except.ok.inj h).symm⟩
  · next text htext =>
    split at h
    · next expanded hformat => exact .inr ⟨text, expanded, htext, (Except.ok.inj h).symm, hformat⟩
    · cases h
    · cases h

/-- What is present of an expansion: the expansion, unless it is empty. -/
theorem present_expanded {expanded text : String} :
    present (some expanded) = some text ↔ expanded = text ∧ text ≠ "" := by
  simp only [present, Option.filter_eq_some_iff, Option.some.injEq, decide_eq_true_eq]

/-- **One destination is used as it was checked exactly when its template survives.** -/
theorem used_iff (hjob : Format.Plain jobId.toList) {output : Output} {key : String}
    {template result : Option String} (h : expand fields output key template jobId = .ok result) :
    (∀ text, present result = some text → fields.format text jobId = .ok text) ↔
      ∀ text, present template = some text → Survives fields jobId text := by
  rcases expand_eq_ok h with ⟨hnone, rfl⟩ | ⟨text, expanded, htext, rfl, hformat⟩
  · simp [hnone]
  · have hempty : fields.format "" jobId = .ok "" := format_eq_ok.mpr rfl
    rw [htext]
    constructor
    · rintro hused text ⟨⟩
      refine (survives_iff hjob hformat).mp ?_
      by_cases hexpanded : expanded = ""
      · rw [hexpanded]
        exact hempty
      · exact hused expanded (present_expanded.mpr ⟨rfl, hexpanded⟩)
    · intro hsurvives text' htext'
      obtain ⟨rfl, -⟩ := present_expanded.mp htext'
      exact (survives_iff hjob hformat).mpr (hsurvives text rfl)

/-- The repo of an expanded output is there exactly when its template is, and does not expand to
nothing. -/
theorem present_iff {output : Output} {key : String} {template result : Option String}
    (h : expand fields output key template jobId = .ok result) :
    (present result).isSome ↔ ∃ text, present template = some text ∧
      fields.format text jobId ≠ .ok "" := by
  rcases expand_eq_ok h with ⟨hnone, rfl⟩ | ⟨text, expanded, htext, rfl, hformat⟩
  · simp [hnone]
  · rw [Option.isSome_iff_exists, htext]
    constructor
    · rintro ⟨text', htext'⟩
      obtain ⟨rfl, hne⟩ := present_expanded.mp htext'
      refine ⟨text, rfl, ?_⟩
      rw [hformat]
      exact fun hsame => hne (Except.ok.inj hsame)
    · rintro ⟨text', ⟨⟩, hne⟩
      refine ⟨expanded, present_expanded.mpr ⟨rfl, ?_⟩⟩
      rintro rfl
      exact hne hformat

/-- Destinations that are used as they stand are found. -/
theorem destinations_found (hjob : Format.Plain jobId.toList) {output : Output}
    (hs3 : ∀ s3, present output.s3 = some s3 → fields.format s3 jobId = .ok s3)
    (hhf : ∀ hf, present output.hf = some hf → fields.format hf jobId = .ok hf)
    (hpath : (present output.hf).isSome → ∀ path, present output.hfPath = some path →
      fields.format path jobId = .ok path) :
    ∃ found, destinationsOf fields output jobId = .ok found := by
  have hs3found : ∃ found, s3Of fields output jobId = .ok found := by
    unfold s3Of
    cases hpresent : present output.s3 with
    | none => exact ⟨[], rfl⟩
    | some s3 =>
      refine ⟨[.ofS3 s3], ?_⟩
      dsimp only
      rw [hs3 s3 hpresent]
      rfl
  have hhffound : ∃ found, hfOf fields output jobId = .ok found := by
    unfold hfOf
    cases hpresent : present output.hf with
    | none => exact ⟨[], rfl⟩
    | some hf =>
      have hin : fields.format ((present output.hfPath).getD jobId) jobId
          = .ok ((present output.hfPath).getD jobId) := by
        cases hpathPresent : present output.hfPath with
        | none => exact format_eq_ok.mpr (Format.format_plain hjob)
        | some path => exact hpath (by simp [hpresent]) path hpathPresent
      refine ⟨[.ofHf hf ((present output.hfPath).getD jobId)], ?_⟩
      dsimp only
      rw [hhf hf hpresent, hin]
      rfl
  obtain ⟨s3, hs3found⟩ := hs3found
  obtain ⟨hf, hhffound⟩ := hhffound
  exact ⟨s3 ++ hf, by rw [destinationsOf, hs3found, hhffound]; rfl⟩

/-- What an output that is accepted has been through. -/
theorem expandOutput_eq_ok {output expanded : Output}
    (h : expandOutput fields jobId output = .ok expanded) :
    expanded.path = output.path ∧
      expand fields output "s3" output.s3 jobId = .ok expanded.s3 ∧
      expand fields output "hf" output.hf jobId = .ok expanded.hf ∧
      expand fields output "hf_path" output.hfPath jobId = .ok expanded.hfPath := by
  obtain ⟨-, -, h⟩ := bind_eq_ok h
  obtain ⟨s3, hs3, h⟩ := bind_eq_ok h
  obtain ⟨hf, hhf, h⟩ := bind_eq_ok h
  obtain ⟨hfPath, hpath, h⟩ := bind_eq_ok h
  obtain ⟨-, -, h⟩ := bind_eq_ok h
  obtain ⟨-, -, h⟩ := bind_eq_ok h
  obtain rfl := Except.ok.inj h
  exact ⟨rfl, hs3, hhf, hpath⟩

/-- **An output that is accepted is settled exactly when it was resolvable as submitted.** -/
theorem settled_iff (hjob : Format.Plain jobId.toList) {output expanded : Output}
    (h : expandOutput fields jobId output = .ok expanded) :
    Settled fields jobId expanded ↔ Resolvable fields jobId output := by
  obtain ⟨hpath, hs3, hhf, hhfPath⟩ := expandOutput_eq_ok h
  have hkey : (∃ key, outputKey fields expanded jobId = .ok key)
      ↔ Format.Template (fields.value jobId.toList) output.path.toList := by
    rw [← Format.exists_format, outputKey, hpath]
    constructor
    · rintro ⟨key, hkey⟩
      exact ⟨_, format_eq_ok.mp hkey⟩
    · rintro ⟨out, hout⟩
      exact ⟨String.ofList out, format_eq_ok.mpr (by rwa [String.toList_ofList])⟩
  constructor
  · intro hsettled
    refine ⟨hkey.mp hsettled.key, (used_iff hjob hs3).mp hsettled.s3,
      (used_iff hjob hhf).mp hsettled.hf, ?_⟩
    intro hf hpresent hne
    exact (used_iff hjob hhfPath).mp (hsettled.hfPath ((present_iff hhf).mpr ⟨hf, hpresent, hne⟩))
  · intro hresolvable
    have hs3used := (used_iff hjob hs3).mpr hresolvable.s3
    have hhfused := (used_iff hjob hhf).mpr hresolvable.hf
    have hpathused : (present expanded.hf).isSome → ∀ path, present expanded.hfPath = some path →
        fields.format path jobId = .ok path := by
      intro hthere
      obtain ⟨hf, hpresent, hne⟩ := (present_iff hhf).mp hthere
      exact (used_iff hjob hhfPath).mpr (hresolvable.hfPath hf hpresent hne)
    exact ⟨hkey.mpr hresolvable.path, destinations_found hjob hs3used hhfused hpathused, hs3used,
      hhfused, hpathused⟩

end Twice

/-- An id that `new_job_id` made has no brace. -/
theorem plain_of_newJobId {jobId : JobId} (h : NewJobId jobId) : Format.Plain jobId.toList := by
  obtain ⟨date, time, token, hid, -, -, -, hdigits, hhex⟩ := h
  intro c hc
  rw [hid] at hc
  have hclass : c = '-' ∨ (c.isDigit || ('a' ≤ c && c ≤ 'f')) = true := by
    simp only [List.mem_append, List.mem_cons] at hc
    rcases hc with hdate | rfl | htime | rfl | htoken
    · exact .inr (by rw [hdigits c (List.mem_append_left _ hdate)]; rfl)
    · exact .inl rfl
    · exact .inr (by rw [hdigits c (List.mem_append_right _ htime)]; rfl)
    · exact .inl rfl
    · exact .inr (hhex c htoken)
  cases hbrace : Format.isBrace c with
  | false => rfl
  | true =>
    have hwhich : c = '{' ∨ c = '}' := by simpa [Format.isBrace] using hbrace
    rcases hwhich with rfl | rfl
    · exact absurd hclass (by decide)
    · exact absurd hclass (by decide)

/-- **Of a spec that a submit accepts, the host resolves every output**, to the strings that were
checked, exactly when every output of the spec as submitted is resolvable. -/
theorem expanded_resolves (fields : Fields) (spec expanded : JobSpec) (hjob : NewJobId spec.jobId)
    (h : expandJobId fields spec = .ok expanded) :
    (∀ output ∈ expanded.outputs, Settled fields expanded.jobId output) ↔
      ∀ output ∈ spec.outputs, Resolvable fields spec.jobId output := by
  obtain ⟨outputs, houtputs, h⟩ := bind_eq_ok h
  obtain rfl := Except.ok.inj h
  exact forall_mapM_iff (fun _ _ hexpanded => settled_iff (plain_of_newJobId hjob) hexpanded) houtputs

/-- What is put for a field of the templates below: the id for its name, and a `KeyError` for any
other. -/
def jobIdOnly : Fields where
  value jobId text := if text = "job_id".toList then .ok jobId else .error (.key text)
  jobId := fun _ => rfl
  plain := by
    intro jobId text printed hjob _ hprinted
    split at hprinted
    · obtain rfl := Except.ok.inj hprinted
      exact hjob
    · cases hprinted

/-- A spec with one output that the host resolves. -/
def plainSpec : JobSpec where
  jobId := "20260510-103000-a1b2c3"
  outputs := [{ path := "out/{job_id}", s3 := some "s3://b/{job_id}/results" }]

/-- The same spec, expanded. -/
def plainExpanded : JobSpec :=
  { plainSpec with
    outputs := [{ path := "out/{job_id}", s3 := some "s3://b/20260510-103000-a1b2c3/results" }] }

/-- A spec that writes a literal brace the way the refusal of a placeholder says to. -/
def bracedSpec : JobSpec :=
  { plainSpec with outputs := [{ path := "out", s3 := some "s3://b/{job_id}/{{latest}}" }] }

/-- The same spec, expanded. -/
def bracedExpanded : JobSpec :=
  { plainSpec with
    outputs := [{ path := "out", s3 := some "s3://b/20260510-103000-a1b2c3/{latest}" }] }

theorem newJobId_plainSpec : NewJobId plainSpec.jobId := by
  refine ⟨"20260510".toList, "103000".toList, "a1b2c3".toList, by decide, rfl, rfl, rfl, ?_, ?_⟩
  · exact List.all_eq_true.mp (by decide)
  · exact List.all_eq_true.mp (by decide)

theorem expanded_resolves_plainSpec :
    (∀ output ∈ plainExpanded.outputs, Settled jobIdOnly plainExpanded.jobId output) ↔
      ∀ output ∈ plainSpec.outputs, Resolvable jobIdOnly plainSpec.jobId output :=
  expanded_resolves jobIdOnly plainSpec plainExpanded newJobId_plainSpec (by decide +kernel)

/-- **A literal brace in a destination passes the check and raises on the host**: the doubled brace is
expanded to one, and the second expansion finds a placeholder it does not know. -/
theorem doubled_brace_raises :
    expandJobId jobIdOnly bracedSpec = .ok bracedExpanded ∧
      bracedExpanded.outputs.map (fun output => destinationsOf jobIdOnly output bracedSpec.jobId)
        = [.error (.key "latest".toList)] ∧
      ¬ ∀ (fields : Fields) (spec expanded : JobSpec), NewJobId spec.jobId →
        expandJobId fields spec = .ok expanded →
        ∀ output ∈ expanded.outputs, Settled fields expanded.jobId output := by
  have haccepted : expandJobId jobIdOnly bracedSpec = .ok bracedExpanded := by decide +kernel
  have hraises : bracedExpanded.outputs.map
      (fun output => destinationsOf jobIdOnly output bracedSpec.jobId)
        = [.error (.key "latest".toList)] := by decide +kernel
  refine ⟨haccepted, hraises, fun h => ?_⟩
  have hsettled := h jobIdOnly bracedSpec bracedExpanded newJobId_plainSpec haccepted
    bracedExpanded.outputs[0] (List.getElem_mem _)
  obtain ⟨found, hfound⟩ := hsettled.destinations
  have hhead : destinationsOf jobIdOnly bracedExpanded.outputs[0] bracedSpec.jobId
      = .error (.key "latest".toList) := List.head_eq_of_cons_eq hraises
  cases hhead.symm.trans hfound

end Gpuc.Control
