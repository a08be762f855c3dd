/-!
# Sinks

A sink takes what a session writes. It may have room for a limited number of bytes only.
-/

namespace Abacus

/-- What has been written, and the room that is left; without a number there is always room. -/
structure Sink where
  written : ByteArray
  room? : Option Nat

namespace Sink

def empty (room? : Option Nat) : Sink :=
  ⟨.empty, room?⟩

/-- Writes a text, or as many of its bytes as there is room for, and tells whether all was written. -/
def write (sink : Sink) (text : String) : Bool × Sink :=
  let bytes := text.toUTF8
  match sink.room? with
  | none => (true, { sink with written := sink.written ++ bytes })
  | some room =>
    if bytes.size ≤ room then (true, ⟨sink.written ++ bytes, some (room - bytes.size)⟩)
    else (false, ⟨sink.written ++ bytes.extract 0 room, some 0⟩)

end Sink

end Abacus
