import Gpuc.Basis.Decode
import Gpuc.Host.Documents

/-!
# A host's `config.json`, from the control side

The client reads the file with one shell command, takes the last document of what the host printed for
it, and writes by reading, merging with the host's own rule, and replacing the file. A host without the
file says so with a marker.

What a command printed is a `CommandResult`, and `cat` is what a host prints that prints the file and
nothing else. A step that writes answers what becomes of the file: `left` as it is, or `replaced`, by a
rename, with the text of a document.
-/

set_option autoImplicit false

namespace Gpuc.Control.Remote

open Gpuc.Basis Gpuc.Basis.Json Gpuc.Host.Documents

/-! ## The last document -/

/-- The document that ends last so far: where it ends and begins, and what it is. -/
structure Best where
  ends : Nat
  start : Nat
  document : Json

/-- `candidate > best`: it ends later, or ends there and begins before. -/
def Best.beats (candidate : Best) (best : Option Best) : Bool :=
  best.all fun best =>
    best.ends < candidate.ends ∨ best.ends = candidate.ends ∧ candidate.start < best.start

/-- May a document begin with this? -/
def opens (s : Text) : Bool := s.head? = some '\x7b' ∨ s.head? = some '['

section LastJson
variable (t : Texts)

/-- One line of the text, at its offset: a document that it begins is tried. -/
def tryLine (text : Text) (offset : Nat) (line : Text) (best : Option Best) :
    Except Raised (Option Best) :=
  let stripped := Text.lstrip line
  if opens stripped then
    let start := offset + (line.length - stripped.length)
    match rawDecode t (text.drop start) with
    | .ok (parsed, rest) =>
      let candidate : Best := { ends := text.length - rest.length, start := start, document := parsed }
      .ok (if candidate.beats best then some candidate else best)
    | .error .invalid | .error .outOfSteps => .ok best
    | .error .tooLong => .error limitError
  else .ok best

def tryLines (text : Text) : Nat → List Text → Option Best → Except Raised (Option Best)
  | _, [], best => .ok best
  | offset, line :: lines, best => do
    let best ← tryLine t text offset line best
    tryLines text (offset + line.length) lines best

/-- **`parse_last_json`**: the last document on stdout, if there is one. -/
def parseLastJson (text : Text) : Except Raised (Option Json) := do
  let best ← tryLines t text 0 (Text.splitLinesKeep text) none
  pure (best.map Best.document)

end LastJson

/-! ## Reading the file -/

/-- `NO_CONFIG`: what the host says when it has no `config.json`. -/
def noConfig : Text := "__gpuc_no_config__".toList

/-- What a command came to. -/
structure CommandResult where
  returncode : Int
  stdout : Text
  output : Text

/-- **`HostConfigRead`**: the document, no file, or a reason. -/
inductive HostConfigRead where
  | document (fields : Dict String Json)
  | missing
  | unreadable (reason : String)

/-- `_tail`: the last lines of a text. -/
def tail (text : Text) (lines : Nat) : String :=
  let all := (Text.splitLines (Text.strip text)).map String.ofList
  "\n".intercalate (all.drop (all.length - lines))

/-- **`read_config`**, of what its command came to, or of why the transport failed. -/
def readConfig (t : Texts) (path : String) (answer : Except String CommandResult) :
    Except Raised HostConfigRead :=
  match answer with
  | .error reason => .ok (.unreadable reason)
  | .ok result =>
    if result.returncode ≠ 0 then
      let last := tail result.output 3
      let code := result.returncode
      .ok (.unreadable s!"\x60cat {path}\x60 exited {code}: {last}")
    else do
      -- a config whose own values hold the marker is still a config
      match ← parseLastJson t result.stdout with
      | some (.obj pairs) => pure (.document (.ofList pairs))
      | _ =>
        if noConfig <:+: result.stdout then pure .missing
        else pure (.unreadable s!"{path} is there but holds no JSON object")

/-- A host's `config.json`: its text, if there is one. -/
abbrev HostFile := Option Text

/-- What a host prints for it that prints nothing else. -/
def cat : HostFile → CommandResult
  | none => { returncode := 0, stdout := noConfig ++ ['\n'], output := noConfig ++ ['\n'] }
  | some text => { returncode := 0, stdout := text, output := text }

/-! ## Writing it -/

/-- Why a step fails. -/
inductive Failure where
  | refused (reason : String)
  | raised (raised : Raised)

/-- What becomes of the file, and how the step ends. -/
inductive Written where
  | left (failure : Option Failure)
  | replaced (document : Dict String Json)

section Write
variable (t : Texts) (path : String)

/-- `put_config`: what its three commands come to is the transport's. -/
def putConfig (put : Except String Unit) (document : Dict String Json) : Written :=
  match put with
  | .ok () => .replaced document
  | .error reason => .left (some (.refused reason))

/-- **`write_config`**, given what reading the file and replacing it come to. -/
def writeConfig (answer : Except String CommandResult) (put : Except String Unit)
    (patch : Dict String Json) : Written :=
  let merge (existing : Dict String Json) : Written :=
    match mergedConfig t (.ofDict existing) patch with
    | .ok document => putConfig put document
    | .error raised => .left (some (.raised raised))
  match readConfig t path answer with
  | .error raised => .left (some (.raised raised))
  | .ok (.unreadable reason) =>
    .left (some (.refused
      (s!"the host's own config could not be read, so it was left alone: {reason}\n"
        ++ s!"Check that {path} is readable and holds JSON; delete it to start that host again.")))
  | .ok .missing => merge .empty
  | .ok (.document existing) => merge existing

/-- `refuse_unreadable`, of the host of this name. -/
def refuseUnreadable (name reason : String) : Failure :=
  .refused
    (s!"host {name} answered, but {path} could not be read ({reason}) "
      ++ "-- and what a host is is that file, so nothing here will replace it.\n"
      ++ "Check that it is readable by this user and holds JSON; delete it to set that "
      ++ "host up again, or point somewhere else with --gpuc-home.")

/-- **The first-config step of `bootstrap_host`**: `patch` is its `first_config`, and the file is read
once to decide and once more to write. -/
def firstConfigStep (name : String) (decided answer : Except String CommandResult)
    (put : Except String Unit) (patch : Dict String Json) : Written :=
  match readConfig t path decided with
  | .error raised => .left (some (.raised raised))
  | .ok (.unreadable reason) => .left (some (refuseUnreadable path name reason))
  | .ok (.document _) => .left none
  | .ok .missing =>
    match HostConfig.fromDict t (.ofDict patch) with
    | .error raised => .left (some (.raised raised))
    | .ok _ => writeConfig t path answer put patch

end Write

end Gpuc.Control.Remote
