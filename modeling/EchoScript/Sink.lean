/-!
# EchoScript.Sink

Where output goes: bytes in the order they were written, up to a limit if there is one. A write that
does not fit is taken as far as it fits, and then refused.
-/

namespace EchoScript

/-- How a full sink refuses more bytes: it says that it is closed, or it takes none of them. -/
inductive Refusal where
  | closed
  | takesNothing
deriving DecidableEq

def Refusal.words : Refusal → String
  | .closed => "closed"
  | .takesNothing => "failed to write whole buffer"

/-- An output sink: what was written, how much it takes in all, and how it refuses more. -/
structure Sink where
  written : ByteArray
  limit : Option Nat
  refusal : Refusal

namespace Sink

def unlimited : Sink := ⟨.empty, none, .closed⟩

def limited (limit : Nat) (refusal : Refusal) : Sink := ⟨.empty, some limit, refusal⟩

/-- The sink after a write, and the refusal if not all bytes were taken. -/
def write (sink : Sink) (bytes : ByteArray) : Sink × Option Refusal :=
  match sink.limit with
  | none => ({ sink with written := sink.written ++ bytes }, none)
  | some limit =>
    let room := limit - sink.written.size
    ({ sink with written := sink.written ++ bytes.extract 0 room },
      if bytes.size ≤ room then none else some sink.refusal)

end Sink

end EchoScript
