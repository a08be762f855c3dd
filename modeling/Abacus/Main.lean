import Abacus.Command

/-!
# The program

Reads the words of the command line, the user name and the standard input, and leaves the rest to the command.
A session is answered line by line, so that it can be held at a terminal.
-/

namespace Abacus.Terminal

/-- Reads bytes up to a line feed or the end of a stream, behind those read before, held backwards; there is no line
once the stream has ended. -/
partial def readLine? (stream : IO.FS.Stream) (read : List UInt8) : IO (Option (List UInt8)) := do
  let bytes ← stream.read 1
  match bytes.toList with
  | [] => return if read.isEmpty then none else some read.reverse
  | byte :: _ => if byte == 10 then return some (byte :: read).reverse else readLine? stream (byte :: read)

/-- Goes through the rounds of a session, each behind its prompt, until one of them ends it. -/
partial def holdSession (options : Options) (input output : IO.FS.Stream) : IO Command.Exit := do
  output.putStr Session.prompt
  output.flush
  let reply := Session.respond options (← readLine? input [])
  output.putStr reply.output
  match reply.ending? with
  | some ending => return Command.exitOf ending
  | none => holdSession options input output

end Abacus.Terminal

open Abacus

def main (words : List String) : IO UInt32 := do
  match Command.request words with
  | .line options source =>
    let outcome := Command.answer options source
    (← IO.getStdout).write outcome.output
    (← IO.getStderr).putStr outcome.errors
    return outcome.exit.code
  | .session options =>
    let output ← IO.getStdout
    output.putStr (Command.greeting (← IO.getEnv "USER"))
    let exit ← Terminal.holdSession options (← IO.getStdin) output
    return exit.code
