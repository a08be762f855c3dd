import Abacus.Session.Basic

/-!
# The command

The words given to the command are joined to one line, which is answered. Without such words the command
greets the user and opens a session. The word `--stack` asks for listings, wherever it stands.
-/

namespace Abacus

namespace Command

inductive Exit where
  | success
  | failure
  | aborted
  deriving DecidableEq, Inhabited

/-- The number that reports how the command ended. -/
def Exit.code : Exit → UInt32
  | success => 0
  | failure => 1
  | aborted => 101

inductive Request where
  | line (options : Options) (source : String)
  | session (options : Options)

def stackWord : String := "--stack"

def request (words : List String) : Request :=
  let options : Options := ⟨words.contains stackWord⟩
  match words.filter (· != stackWord) with
  | [] => .session options
  | source => .line options (" ".intercalate source)

/-- The greeting for a user, if there is a name. -/
def greeting (user? : Option String) : String :=
  let hello :=
    match user? with
    | some user => "Hello " ++ user ++ "!"
    | none => "Hello!"
  hello ++ " This is the PizzaScript programming language!\nFeel free to type in commands\n"

def exitOf : Session.Ending → Exit
  | .finished => .success
  | .invalidText => .failure
  | .sinkFull => .failure
  | .unshowable => .aborted

/-- What the command writes, and how it ends. -/
structure Outcome where
  output : ByteArray
  errors : String
  exit : Exit

def answer (options : Options) (source : String) : Outcome :=
  match runLine options source with
  | .ok text => ⟨(text ++ "\n").toUTF8, "", .success⟩
  | .error fault =>
    match Diagnostic.render? fault source with
    | some text => ⟨.empty, text ++ "\n", .failure⟩
    | none => ⟨.empty, "", .aborted⟩

/-- Carries out the command with its words, a user name and an input. -/
def run (words : List String) (user? : Option String) (input : List UInt8) : Outcome :=
  match request words with
  | .line options source => answer options source
  | .session options =>
    let transcript := Session.run options input ((Sink.empty none).write (greeting user?)).2
    ⟨transcript.output, "", exitOf transcript.ending⟩

end Command

end Abacus
