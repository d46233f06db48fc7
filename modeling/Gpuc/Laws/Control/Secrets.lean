import Mathlib.Data.Finset.Max
import Gpuc.Control.Submit

/-!
# Secrets arrive as they were set

The submitter's side writes one `NAME=value` line a secret; the host reads the file back as env files
are read: lines end where Unicode ends them, white space around names and values goes, and so does a
pair of quotes. Each step of the reading only drops characters, so a line reads back as it was written
exactly when no step drops any (`key_eq_self`, `readValue_eq_self`).

The law (`secrets_round_trip`): the file reads back as exactly the names and values it was written from
when every name and every value survives its own line, and only then. A line that reads as another
name does not help: it reads as a shorter one (`key_sublist`), so the longest name that is lost would
have to come from a longer one.
-/

set_option autoImplicit false

namespace Gpuc.Control

open Gpuc.Basis Gpuc.Host

/-- No character that ends a line. -/
def OneLine (text : Text) : Prop := ∀ c ∈ text, Text.isBreak c = false

/-- **A name the env file holds as it is.** -/
structure PlainName (name : Text) : Prop where
  oneLine : OneLine name
  noEquals : '=' ∉ name
  stripped : Text.strip name = name
  noComment : ¬ "#".toList <+: name
  noExport : ¬ "export ".toList <+: name

/-- **A value the env file holds as it is.** -/
structure PlainValue (value : Text) : Prop where
  oneLine : OneLine value
  stripped : Text.strip value = value
  unquoted : quoted value = false

/-- The file gives back exactly these names, each with exactly its value. -/
def Arrives (names : List Text) (environ read : Dict Text Text) : Prop :=
  ∀ name value, read.get? name = some value ↔ name ∈ names ∧ environ.get? name = some value

/-! ## One line -/

/-- The line of a secret. -/
def envLine (name value : Text) : Text := name ++ '=' :: value

/-- The name a line is read as. -/
def key (name : Text) : Text := Text.strip ((dropExport (Text.lstrip name)).takeWhile (· ≠ '='))

/-- The value a line is read as, if nothing but the value stands behind its first equals sign. -/
def readValue (value : Text) : Text := unquote (Text.strip (Text.rstrip value))

theorem dropExport_sublist (line : Text) : (dropExport line).Sublist line := by
  unfold dropExport
  split
  · exact List.drop_sublist _ _
  · exact .refl _

theorem unquote_sublist (value : Text) : (unquote value).Sublist value := by
  unfold unquote
  split
  · exact (List.dropLast_sublist _).trans (List.tail_sublist _)
  · exact .refl _

/-- A value loses its quotes exactly when it has them. -/
theorem unquote_eq_self {value : Text} : unquote value = value ↔ quoted value = false := by
  unfold unquote
  cases hquoted : quoted value with
  | false => simp
  | true =>
    have htwo : 2 ≤ value.length := by
      simp only [quoted, Bool.and_eq_true, decide_eq_true_eq] at hquoted
      exact hquoted.1.1
    have hshort : value.tail.dropLast ≠ value := by
      intro hsame
      have hlength := congrArg List.length hsame
      rw [List.length_dropLast, List.length_tail] at hlength
      omega
    simp [hshort]

/-- **A line is read as a name no longer than its own.** -/
theorem key_sublist (name : Text) : (key name).Sublist name :=
  (Text.strip_sublist _).trans ((List.takeWhile_sublist _).trans
    ((dropExport_sublist _).trans (Text.lstrip_sublist name)))

/-- A prefix without the character reaches no further than the character. -/
theorem prefix_append_cons {p s t : Text} {c : Char} (hc : c ∉ p) :
    p <+: s ++ c :: t ↔ p <+: s := by
  induction p generalizing s with
  | nil => simp
  | cons d p ih =>
    obtain ⟨hd, hp⟩ := not_or.mp (List.mem_cons.not.mp hc)
    cases s with
    | nil => simpa using fun h : d = c => absurd h.symm hd
    | cons e s => rw [List.cons_append, List.cons_prefix_cons, List.cons_prefix_cons, ih hp]

theorem dropExport_append (s t : Text) : dropExport (s ++ '=' :: t) = dropExport s ++ '=' :: t := by
  have hiff : "export ".toList <+: s ++ '=' :: t ↔ "export ".toList <+: s :=
    prefix_append_cons (by decide)
  unfold dropExport
  by_cases h : "export ".toList <+: s
  · rw [if_pos h, if_pos (hiff.mpr h), List.drop_append_of_le_length]
    exact h.length_le
  · rw [if_neg h, if_neg (hiff.not.mpr h)]

theorem takeWhile_append (s t : Text) :
    (s ++ '=' :: t).takeWhile (· ≠ '=') = s.takeWhile (· ≠ '=') := by
  induction s with
  | nil => simp
  | cons c s ih => rw [List.cons_append, List.takeWhile_cons, List.takeWhile_cons, ih]

/-- **What a line is read as**: its name's key, if its name does not begin a comment. -/
theorem parseEnvLine_eq_some {name value : Text} {pair : Text × Text}
    (h : parseEnvLine (envLine name value) = some pair) :
    pair.1 = key name ∧ ¬ "#".toList <+: Text.lstrip name := by
  unfold parseEnvLine envLine at h
  rw [Text.strip_append_cons (by decide)] at h
  dsimp only at h
  split at h
  · cases h
  · next hline =>
    have hcomment : ¬ "#".toList <+: Text.lstrip name ++ '=' :: Text.rstrip value :=
      fun hprefix => hline (.inr (.inl hprefix))
    rw [prefix_append_cons (by decide)] at hcomment
    obtain rfl := Option.some.inj h
    refine ⟨?_, hcomment⟩
    rw [dropExport_append, takeWhile_append]
    rfl

/-- **A name read as itself has had nothing dropped from it**, at any step. -/
theorem key_eq_self {name : Text} (h : key name = name) :
    Text.strip name = name ∧ Text.lstrip name = name ∧ '=' ∉ name ∧ ¬ "export ".toList <+: name := by
  have hback : ∀ {s : Text}, (key name).Sublist s → name.Sublist s := by
    intro s hs
    rwa [h] at hs
  have htaken := hback (Text.strip_sublist _)
  have hdropped := htaken.trans (List.takeWhile_sublist _)
  have hlstrip : Text.lstrip name = name :=
    (Text.lstrip_sublist name).antisymm (hdropped.trans (dropExport_sublist _))
  rw [hlstrip] at htaken hdropped
  have hexport : dropExport name = name := (dropExport_sublist name).antisymm hdropped
  rw [hexport] at htaken
  have hall : name.takeWhile (· ≠ '=') = name := (List.takeWhile_sublist _).antisymm htaken
  refine ⟨?_, hlstrip, ?_, ?_⟩
  · rw [key, hlstrip, hexport, hall] at h
    exact h
  · intro hmem
    have hne := List.takeWhile_eq_self_iff.mp hall '=' hmem
    simp at hne
  · intro hprefix
    have hlength := congrArg List.length hexport
    rw [dropExport, if_pos hprefix, List.length_drop] at hlength
    have hle := hprefix.length_le
    have hseven : "export ".length = 7 ∧ "export ".toList.length = 7 := ⟨rfl, rfl⟩
    omega

/-- **A value read as itself has had nothing dropped from it.** -/
theorem readValue_eq_self {value : Text} :
    readValue value = value ↔ Text.strip value = value ∧ quoted value = false := by
  constructor
  · intro h
    have hback : ∀ {s : Text}, (readValue value).Sublist s → value.Sublist s := by
      intro s hs
      rwa [h] at hs
    have hstripped := hback (unquote_sublist _)
    have hrstrip : Text.rstrip value = value :=
      (Text.rstrip_sublist value).antisymm (hstripped.trans (Text.strip_sublist _))
    rw [hrstrip] at hstripped
    have hstrip : Text.strip value = value := (Text.strip_sublist value).antisymm hstripped
    rw [readValue, hrstrip, hstrip] at h
    exact ⟨hstrip, unquote_eq_self.mp h⟩
  · rintro ⟨hstrip, hquoted⟩
    rw [readValue, (Text.strip_eq_self hstrip).2, hstrip]
    exact unquote_eq_self.mpr hquoted

/-- A name that nothing is dropped from is read with the value its line carries. -/
theorem parseEnvLine_envLine {name : Text} (hstrip : Text.strip name = name)
    (hlstrip : Text.lstrip name = name) (hequals : '=' ∉ name) (hcomment : ¬ "#".toList <+: name)
    (hexport : ¬ "export ".toList <+: name) (value : Text) :
    parseEnvLine (envLine name value) = some (name, readValue value) := by
  have hall : ∀ c ∈ name, (decide (c ≠ '=')) = true := by
    intro c hc
    simpa using fun heq : c = '=' => hequals (heq ▸ hc)
  have hskip : ¬ (name ++ '=' :: Text.rstrip value = [] ∨
      "#".toList <+: name ++ '=' :: Text.rstrip value ∨ '=' ∉ name ++ '=' :: Text.rstrip value) := by
    rw [prefix_append_cons (by decide), not_or, not_or]
    exact ⟨by simp, hcomment, by simp⟩
  unfold parseEnvLine envLine
  rw [Text.strip_append_cons (by decide), hlstrip]
  dsimp only
  rw [if_neg hskip, dropExport_append, takeWhile_append, dropExport, if_neg hexport,
    List.takeWhile_eq_self_iff.mpr hall, List.dropWhile_append_of_pos hall, hstrip]
  rfl

/-- Every character a line is read as was in the line. -/
theorem parseEnvLine_subset {raw : Text} {pair : Text × Text} (h : parseEnvLine raw = some pair) :
    pair.1 ⊆ raw ∧ pair.2 ⊆ raw := by
  unfold parseEnvLine at h
  dsimp only at h
  split at h
  · cases h
  · obtain rfl := Option.some.inj h
    have hline := (dropExport_sublist (Text.strip raw)).trans (Text.strip_sublist raw)
    constructor
    · exact ((Text.strip_sublist _).trans ((List.takeWhile_sublist _).trans hline)).subset
    · exact ((unquote_sublist _).trans ((Text.strip_sublist _).trans
        ((List.drop_sublist _ _).trans ((List.dropWhile_sublist _).trans hline)))).subset

/-! ## The file -/

/-- The value of a name that has one. -/
def valueOf (environ : Dict Text Text) (name : Text) : Text := (environ.get? name).getD []

/-- **What `gather_secrets` accepts, and what it writes.** -/
theorem gatherSecrets_eq_ok {names : List Text} {environ : Dict Text Text} {body : Text}
    (h : gatherSecrets names environ = .ok body) :
    (∀ name ∈ names, environ.get? name = some (valueOf environ name)) ∧
      body = names.flatMap fun name => envLine name (valueOf environ name) ++ ['\n'] := by
  simp only [gatherSecrets] at h
  split at h
  · cases h
  · next hmissing =>
    split at h
    · cases h
    · refine ⟨fun name hname => ?_, ?_⟩
      · cases hget : environ.get? name with
        | some value => rw [valueOf, hget]; rfl
        | none =>
          refine absurd (List.ne_nil_of_mem (List.mem_filter.mpr ⟨hname, ?_⟩)) hmissing
          simp [hget]
      · rw [← Except.ok.inj h]
        refine List.flatMap_congr fun name _ => ?_
        simp [envLine, valueOf]

/-- Lines with no break in them are split off one by one. -/
theorem splitLines_lines {lines : List Text} (h : ∀ line ∈ lines, OneLine line) :
    Text.splitLines (lines.flatMap (· ++ ['\n'])) = lines := by
  induction lines with
  | nil => rfl
  | cons line lines ih =>
    obtain ⟨hline, hlines⟩ := List.forall_mem_cons.mp h
    rw [List.flatMap_cons, List.append_assoc, List.singleton_append, Text.splitLines_append hline,
      ih hlines]

theorem oneLine_envLine {name value : Text} (hname : OneLine name) (hvalue : OneLine value) :
    OneLine (envLine name value) := by
  intro c hc
  rcases List.mem_append.mp hc with hc | hc
  · exact hname c hc
  · rcases List.mem_cons.mp hc with rfl | hc
    · rfl
    · exact hvalue c hc

section File
variable {names : List Text} {environ : Dict Text Text}

/-- The pairs a file of one-line secrets is read as. -/
theorem parseEnvFile_lines
    (h : ∀ name ∈ names, OneLine name ∧ OneLine (valueOf environ name)) :
    parseEnvFile (names.flatMap fun name => envLine name (valueOf environ name) ++ ['\n'])
      = Dict.ofList (names.filterMap fun name => parseEnvLine (envLine name (valueOf environ name))) := by
  have hlines : names.flatMap (fun name => envLine name (valueOf environ name) ++ ['\n'])
      = (names.map fun name => envLine name (valueOf environ name)).flatMap (· ++ ['\n']) := by
    rw [List.flatMap_map]
  rw [parseEnvFile, hlines, splitLines_lines, List.filterMap_map]
  · rfl
  · intro line hline
    obtain ⟨name, hname, rfl⟩ := List.mem_map.mp hline
    exact oneLine_envLine (h name hname).1 (h name hname).2

/-- **A name is lost only with a longer one**: if every name is read from some line, every name is
read from its own. -/
theorem key_of_all_read
    (h : ∀ name ∈ names, ∃ other ∈ names, key other = name) :
    ∀ name ∈ names, key name = name := by
  by_contra hlost
  obtain ⟨name, hname, hkey⟩ : ∃ name ∈ names, key name ≠ name := by simpa using hlost
  obtain ⟨longest, hlongest, hmax⟩ := Finset.exists_max_image
    (names.toFinset.filter fun name => key name ≠ name) List.length
    ⟨name, Finset.mem_filter.mpr ⟨List.mem_toFinset.mpr hname, hkey⟩⟩
  obtain ⟨hin, hlongestKey⟩ := Finset.mem_filter.mp hlongest
  obtain ⟨other, hother, hread⟩ := h longest (List.mem_toFinset.mp hin)
  have hdiffers : key other ≠ other := by
    intro hsame
    rw [hsame] at hread
    exact hlongestKey (hread ▸ hsame)
  have hle := hmax other (Finset.mem_filter.mpr ⟨List.mem_toFinset.mpr hother, hdiffers⟩)
  have hsub := key_sublist other
  rw [hread] at hsub
  exact hdiffers (hread.trans (hsub.eq_of_length (le_antisymm hsub.length_le hle)))

/-- Secrets that arrive have names and values on one line. -/
theorem oneLine_of_arrives {body : Text} (harrives : Arrives names environ (parseEnvFile body))
    (hset : ∀ name ∈ names, environ.get? name = some (valueOf environ name)) :
    ∀ name ∈ names, OneLine name ∧ OneLine (valueOf environ name) := by
  intro name hname
  have hget := (harrives name (valueOf environ name)).mpr ⟨hname, hset name hname⟩
  obtain ⟨line, hline, hpair⟩ := List.mem_filterMap.mp (Dict.mem_of_get?_ofList hget)
  have hbreaks := Text.noBreak_of_mem_splitLines hline
  obtain ⟨hkey, hvalue⟩ := parseEnvLine_subset hpair
  exact ⟨fun c hc => hbreaks c (hkey hc), fun c hc => hbreaks c (hvalue hc)⟩

/-- Secrets whose names and values are plain arrive. -/
theorem arrives_of_plain (hset : ∀ name ∈ names, environ.get? name = some (valueOf environ name))
    (hplain : ∀ name ∈ names, PlainName name ∧ PlainValue (valueOf environ name)) :
    Arrives names environ
      (parseEnvFile (names.flatMap fun name => envLine name (valueOf environ name) ++ ['\n'])) := by
  have hread : ∀ name ∈ names, parseEnvLine (envLine name (valueOf environ name))
      = some (name, valueOf environ name) := by
    intro name hname
    obtain ⟨hplainName, hplainValue⟩ := hplain name hname
    rw [parseEnvLine_envLine hplainName.stripped (Text.strip_eq_self hplainName.stripped).1
      hplainName.noEquals hplainName.noComment hplainName.noExport,
      readValue_eq_self.mpr ⟨hplainValue.stripped, hplainValue.unquoted⟩]
  have hpairs : (names.filterMap fun name => parseEnvLine (envLine name (valueOf environ name)))
      = names.map fun name => (name, valueOf environ name) := by
    rw [List.filterMap_congr hread, ← List.filterMap_eq_map]
    rfl
  intro name value
  rw [parseEnvFile_lines fun name hname =>
    ⟨(hplain name hname).1.oneLine, (hplain name hname).2.oneLine⟩, hpairs,
    Dict.get?_ofList_agree]
  · simp only [List.mem_map, Prod.mk.injEq]
    constructor
    · rintro ⟨name, hname, rfl, rfl⟩
      exact ⟨hname, hset name hname⟩
    · rintro ⟨hname, hvalue⟩
      exact ⟨name, hname, rfl, Option.some.inj ((hset name hname).symm.trans hvalue)⟩
  · have hown : ∀ key value, (key, value) ∈ names.map (fun name => (name, valueOf environ name)) →
        value = valueOf environ key := by
      intro key value hpair
      obtain ⟨name, -, hsame⟩ := List.mem_map.mp hpair
      obtain ⟨rfl, rfl⟩ := Prod.mk.inj hsame
      rfl
    intro key v w hv hw
    rw [hown key v hv, hown key w hw]

end File

/-- **Secrets arrive as they were set exactly when every name and every value is plain**: on one line,
with no white space around it, the name with no equals sign and not the beginning of a comment or an
`export`, the value not in quotes. -/
theorem secrets_round_trip (names : List Text) (environ : Dict Text Text) (body : Text)
    (h : gatherSecrets names environ = .ok body) :
    Arrives names environ (parseEnvFile body) ↔
      ∀ name ∈ names, PlainName name ∧ ∀ value, environ.get? name = some value → PlainValue value := by
  obtain ⟨hset, rfl⟩ := gatherSecrets_eq_ok h
  constructor
  · intro harrives
    have honeLine := oneLine_of_arrives harrives hset
    rw [parseEnvFile_lines honeLine] at harrives
    have hread : ∀ name ∈ names, ∃ other ∈ names,
        parseEnvLine (envLine other (valueOf environ other)) = some (name, valueOf environ name) := by
      intro name hname
      have hget := (harrives name (valueOf environ name)).mpr ⟨hname, hset name hname⟩
      exact List.mem_filterMap.mp (Dict.mem_of_get?_ofList hget)
    have hkey := key_of_all_read fun name hname => by
      obtain ⟨other, hother, hpair⟩ := hread name hname
      exact ⟨other, hother, (parseEnvLine_eq_some hpair).1.symm⟩
    intro name hname
    obtain ⟨other, hother, hpair⟩ := hread name hname
    obtain rfl : name = other := (parseEnvLine_eq_some hpair).1.trans (hkey other hother)
    obtain ⟨hstrip, hlstrip, hequals, hexport⟩ := key_eq_self (hkey name hname)
    have hcomment := (parseEnvLine_eq_some hpair).2
    rw [hlstrip] at hcomment
    rw [parseEnvLine_envLine hstrip hlstrip hequals hcomment hexport] at hpair
    obtain ⟨hstripped, hunquoted⟩ :=
      readValue_eq_self.mp (congrArg Prod.snd (Option.some.inj hpair))
    refine ⟨⟨(honeLine name hname).1, hequals, hstrip, hcomment, hexport⟩, ?_⟩
    rintro value hvalue
    obtain rfl := Option.some.inj ((hset name hname).symm.trans hvalue)
    exact ⟨(honeLine name hname).2, hstripped, hunquoted⟩
  · intro hplain
    exact arrives_of_plain hset fun name hname =>
      ⟨(hplain name hname).1, (hplain name hname).2 _ (hset name hname)⟩

/-- Two secrets that arrive. -/
def plainSecrets : Dict Text Text :=
  Dict.ofList [("A".toList, "1".toList), ("B".toList, "two words".toList)]

theorem secrets_round_trip_plainSecrets :
    Arrives ["A".toList, "B".toList] plainSecrets (parseEnvFile "A=1\nB=two words\n".toList) ↔
      ∀ name ∈ ["A".toList, "B".toList],
        PlainName name ∧ ∀ value, plainSecrets.get? name = some value → PlainValue value :=
  secrets_round_trip ["A".toList, "B".toList] plainSecrets "A=1\nB=two words\n".toList (by decide)

/-- A secret whose value is in quotes. -/
def quotedSecret : Dict Text Text := Dict.ofList [("TOKEN".toList, "\"abc\"".toList)]

/-- **A value in quotes arrives without them.** -/
theorem quoted_secret_arrives_bare :
    gatherSecrets ["TOKEN".toList] quotedSecret = .ok "TOKEN=\"abc\"\n".toList ∧
      (parseEnvFile "TOKEN=\"abc\"\n".toList).get? "TOKEN".toList = some "abc".toList ∧
      ¬ ∀ (names : List Text) (environ : Dict Text Text) (body : Text),
        gatherSecrets names environ = .ok body → Arrives names environ (parseEnvFile body) := by
  have haccepted : gatherSecrets ["TOKEN".toList] quotedSecret = .ok "TOKEN=\"abc\"\n".toList := by
    decide
  have hread : (parseEnvFile "TOKEN=\"abc\"\n".toList).get? "TOKEN".toList
      = some "abc".toList := by decide
  refine ⟨haccepted, hread, fun h => ?_⟩
  have hset := ((h _ _ _ haccepted "TOKEN".toList "abc".toList).mp hread).2
  exact absurd hset (by decide)

end Gpuc.Control
