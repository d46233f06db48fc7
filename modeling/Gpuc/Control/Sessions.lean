import Gpuc.Basis.Dict
import Gpuc.Basis.Run
import Gpuc.Basis.Text
import Gpuc.Host.Jobs

/-!
# Who may use the dashboard

`Sessions`: one password, checked by one thread at a time, and the tokens of those that had it right.
Any number of threads are in `login`, `check` and `logout` at once. There are two locks, and what a
thread does between taking one and giving it back is one step for the tokens' and several for the
login's, where it sleeps and then checks a password, both for as long as it takes.

Beside what the code keeps, a `State` keeps what has happened: the passwords that were checked, the
tokens that were given out, and those taken back.
-/

set_option autoImplicit false

namespace Gpuc.Control.Sessions

open Gpuc.Basis
open Gpuc.Host (Seconds)

/-- `SESSION_TTL_S`. -/
def sessionTtlS : Seconds := 7 * 86400

/-- `FAILURE_DELAY_S`. -/
def failureDelayS : Seconds := 1 / 2

/-- `FAILURE_DELAY_MAX_S`. -/
def failureDelayMaxS : Seconds := 5

/-- `FAILURE_RESET_S`. -/
def failureResetS : Seconds := 60

/-- `BCRYPT_MAX_BYTES`. -/
def bcryptMaxBytes : Nat := 72

/-- What a server is started with: the hash, as what it says of a password, and the tokens' time. -/
structure Server where
  checkpw : String → Bool
  ttlS : Seconds := sessionTtlS

/-- `verify`: what is longer than any password there could be is wrong. -/
def Server.verify (server : Server) (password : String) : Bool :=
  if bcryptMaxBytes < password.utf8ByteSize then false else server.checkpw password

/-- What a thread does with the tokens' lock. -/
inductive Inside where
  /-- It puts in a new one, for a password that was right then. -/
  | store (since : Seconds)
  | check (token : String)
  | logout (token : String)
  deriving DecidableEq

inductive Answer where
  | token (token : Option String)
  | checked (valid : Bool)
  | loggedOut
  deriving DecidableEq

/-- **Where a thread is.** -/
inductive Place where
  | idle
  /-- It wants the login's lock. -/
  | atDoor (password : String)
  | entered (password : String)
  /-- It sleeps until then, and then has the password checked. -/
  | pausing (password : String) (wakes : Seconds)
  /-- It wants the tokens' lock. -/
  | asks (what : Inside)
  | inside (what : Inside)
  | answered (answer : Answer)
  deriving DecidableEq

/-- A call of one of the three. -/
inductive Call where
  | login (password : String)
  | check (token : Option String)
  | logout (token : Option String)

structure State where
  now : Seconds := 0
  place : Nat → Place := fun _ => .idle
  /-- Who has the login's lock, and the tokens'. -/
  login : Option Nat := none
  tokensLock : Option Nat := none
  failures : Nat := 0
  lastFailure : Option Seconds := none
  /-- Until when. -/
  tokens : Dict String Seconds := Dict.empty
  /-- The passwords checked so far and when each was, the last one first. -/
  guesses : List (Seconds × String) := []
  /-- The tokens given out, and when. -/
  issued : List (String × Seconds) := []
  /-- The tokens somebody logged out of. -/
  dropped : List String := []

/-- The thread is there now. -/
def State.goTo (s : State) (t : Nat) (place : Place) : State :=
  { s with place := fun u => if u = t then place else s.place u }

/-- `_expire`. -/
def State.expire (s : State) : State := { s with tokens := s.tokens.filter fun _ until_ => ¬until_ ≤ s.now }

/-- What a call begins with: nothing is looked up for no token. -/
def Call.begins : Call → Place
  | .login password => .atDoor password
  | .check token =>
    match token with
    | none => .answered (.checked false)
    | some token => if token = "" then .answered (.checked false) else .asks (.check token)
  | .logout token =>
    match token with
    | none => .answered .loggedOut
    | some token => if token = "" then .answered .loggedOut else .asks (.logout token)

/-- The pause before a password is checked. -/
def pause (failures : Nat) : Seconds :=
  if failures = 0 then 0 else min (failureDelayS * failures) failureDelayMaxS

/-- The count of failures after a quiet minute, and before. -/
def State.failuresNow (s : State) : Nat :=
  match s.lastFailure with
  | none => s.failures
  | some last => if s.now - last > failureResetS then 0 else s.failures

/-- **The section under the tokens' lock**, with the next token there is. -/
def State.section (s : State) (server : Server) (fresh : String) (t : Nat) : Inside → State
  | .store _ =>
    let s := s.expire
    { s with
      tokens := s.tokens.set fresh (s.now + server.ttlS)
      issued := (fresh, s.now) :: s.issued }.goTo t (.answered (.token (some fresh)))
  | .check token =>
    let s := s.expire
    s.goTo t (.answered (.checked (s.tokens.get? token).isSome))
  | .logout token =>
    { s with
      tokens := s.tokens.erase token
      dropped := if (s.tokens.get? token).isSome then token :: s.dropped else s.dropped }.goTo t
      (.answered .loggedOut)

/-- One step of a thread, where it need not wait. -/
def goes (server : Server) (fresh : String) (s : State) (t : Nat) : Option State :=
  match s.place t with
  | .idle | .answered _ => none
  | .atDoor password =>
    if s.login = none then some ({ s with login := some t }.goTo t (.entered password)) else none
  | .entered password =>
    let failures := s.failuresNow
    some ({ s with failures }.goTo t (.pausing password (s.now + pause failures)))
  | .pausing password wakes =>
    if s.now < wakes then none
    else
      let s := { s with login := none, guesses := (s.now, password) :: s.guesses }
      if server.verify password then
        some ({ s with failures := 0, lastFailure := none }.goTo t (.asks (.store s.now)))
      else
        some ({ s with failures := s.failures + 1, lastFailure := some s.now }.goTo t
          (.answered (.token none)))
  | .asks what =>
    if s.tokensLock = none then some ({ s with tokensLock := some t }.goTo t (.inside what)) else none
  | .inside what => some ({ s with tokensLock := none }.section server fresh t what)

inductive Label where
  | calls (t : Nat) (call : Call)
  /-- The thread takes a step; `fresh` is the token it is given if that step makes one. -/
  | goes (t : Nat) (fresh : String)
  | passes (seconds : Seconds)

/-- No token is made twice, and none is made that somebody has used. -/
def State.isFresh (s : State) (fresh : String) : Bool := !(s.issued.map Prod.fst).contains fresh

def step (server : Server) (s : State) : Label → Option State
  | .calls t call =>
    match s.place t with
    | .idle | .answered _ => some (s.goTo t call.begins)
    | .atDoor _ | .entered _ | .pausing _ _ | .asks _ | .inside _ => none
  | .goes t fresh => if s.isFresh fresh then goes server fresh s t else none
  | .passes seconds => if 0 ≤ seconds then some { s with now := s.now + seconds } else none

/-- **The threads of one server.** -/
def machine (server : Server) : Machine State Label where
  step := step server

end Gpuc.Control.Sessions
