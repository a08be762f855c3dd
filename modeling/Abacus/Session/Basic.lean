import Abacus.Session.Line
import Abacus.Session.Sink

/-!
# Sessions

A session prompts for a line, answers it, and goes on until the input ends. The input is bytes, cut after every
line feed; a line that is no text ends the session, as do a full sink and a diagnostic that cannot be shown.
-/

namespace Abacus

namespace Session

/-- What a session writes before each line. -/
def prompt : String := "\n>> "

inductive Ending where
  | finished
  | invalidText
  | sinkFull
  | unshowable
  deriving DecidableEq, Inhabited

/-- How a session takes one line of bytes: it passes over a blank line, answers a text, or ends. -/
inductive Reply where
  | skip
  | answer (text : String) (records : List Record)
  | stop (ending : Ending) (records : List Record)

namespace Reply

/-- What is written for a reply. -/
def output : Reply → String
  | answer text _ => text ++ "\n"
  | skip | stop _ _ => ""

def records : Reply → List Record
  | skip => []
  | answer _ records | stop _ records => records

/-- How the session ends with a reply, unless it goes on. -/
def ending? : Reply → Option Ending
  | stop ending _ => some ending
  | skip | answer _ _ => none

end Reply

def reply (options : Options) (bytes : List UInt8) : Reply :=
  match String.fromUTF8? bytes.toByteArray with
  | none => .stop .invalidText []
  | some text =>
    let line := Text.dropLineEnd text.toList
    if Text.isBlankText line then .skip
    else
      let line := String.ofList line
      let answer := renderLine options line
      let records := .ofLine line :: answer.records
      match answer.text? with
      | some text => .answer text records
      | none => .stop .unshowable records

/-- How a session takes what is read behind a prompt, a line or the end of the input. -/
def respond (options : Options) : Option (List UInt8) → Reply
  | some line => reply options line
  | none => .stop .finished []

/-- What a session leaves behind: the bytes written, the records in order, and how it ended. -/
structure Transcript where
  output : ByteArray
  records : List Record
  ending : Ending

/-- What a round leaves: the sink, the records so far held backwards, and how the session ended, unless it goes on. -/
structure Round where
  sink : Sink
  records : List Record
  ending? : Option Ending

/-- Writes the prompt, and what there is to write for what is read behind it. -/
def round (options : Options) (sink : Sink) (records : List Record) (line? : Option (List UInt8)) : Round :=
  match sink.write prompt with
  | (false, sink) => ⟨sink, records, some .sinkFull⟩
  | (true, sink) =>
    let reply := respond options line?
    let records := reply.records.reverse ++ records
    match sink.write reply.output with
    | (false, sink) => ⟨sink, records, some .sinkFull⟩
    | (true, sink) => ⟨sink, records, reply.ending?⟩

/-- Goes through lines of bytes up to the end of the input, with the records so far held backwards. -/
def converse (options : Options) (sink : Sink) (records : List Record) : List (List UInt8) → Transcript
  | [] =>
    let last := round options sink records none
    ⟨last.sink.written, last.records.reverse, last.ending?.getD .finished⟩
  | line :: lines =>
    let next := round options sink records (some line)
    match next.ending? with
    | some ending => ⟨next.sink.written, next.records.reverse, ending⟩
    | none => converse options next.sink next.records lines

/-- A whole session on an input that writes to a sink. -/
def run (options : Options) (input : List UInt8) (sink : Sink) : Transcript :=
  converse options sink [] (Text.segments (· == 10) input)

end Session

end Abacus
