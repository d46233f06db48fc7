import Gpuc.Basis.Dict
import Gpuc.Basis.Text

/-!
# Reading an env file

`KEY=value` and `export KEY=value` lines: the secrets files, and what a rental's image leaves in its
own. Not a shell: no expansion, no continuations, and one pair of quotes around a value goes.
-/

set_option autoImplicit false

namespace Gpuc.Host

open Gpuc.Basis

/-- A value between two quotes of the same kind. -/
def quoted (value : Text) : Bool :=
  2 ≤ value.length && value.head? = value.getLast? && value.head?.any (· ∈ "\"'".toList)

/-- A value without the quotes around it, if it has them. -/
def unquote (value : Text) : Text := if quoted value then value.tail.dropLast else value

/-- The line without a leading `export `. -/
def dropExport (line : Text) : Text :=
  if "export ".toList <+: line then line.drop "export ".length else line

/-- One line of the file, if it sets anything. -/
def parseEnvLine (raw : Text) : Option (Text × Text) :=
  let line := Text.strip raw
  if line = [] ∨ "#".toList <+: line ∨ '=' ∉ line then none
  else
    let line := dropExport line
    let key := line.takeWhile (· ≠ '=')
    let value := Text.strip ((line.dropWhile (· ≠ '=')).drop 1)
    some (Text.strip key, unquote value)

/-- **`parse_env_file`**, of the text of the file. -/
def parseEnvFile (text : Text) : Dict Text Text :=
  Dict.ofList ((Text.splitLines text).filterMap parseEnvLine)

end Gpuc.Host
