import Framing.Cursor.Operation
import Framing.Strategy.Attempt

/-!
Scripted strategies: a list of entries, one for each invocation, says what to do with the cursor and
what to return. What each invocation saw and did is written to a journal.
-/

namespace Framing

open Cursor (Operation Reading)

namespace Script

-- What an entry returns. The pieces are the bytes that its operations took out.
inductive Reply where
  | nothing
  | joined
  | pieces
  | frame (bytes : Bytes)
  | group (frames : List Bytes)
  | error (text : String)
  | fault (text : String)
  deriving DecidableEq, Repr

-- An entry waits until `need` bytes remain.
structure Entry where
  need       : Nat            := 0
  operations : List Operation := []
  reply      : Reply          := .nothing
  deriving DecidableEq, Repr

-- What an invocation did.
inductive Conduct where
  | exhausted
  | waited
  | performed (readings : List Reading)
  deriving DecidableEq, Repr

-- An invocation as the script saw it.
structure Record where
  name    : String
  context : Context
  length  : Nat
  conduct : Conduct
  deriving DecidableEq, Repr

-- How far the script got, and its journal, the latest invocation first.
structure Progress where
  next    : Nat         := 0
  journal : List Record := []
  deriving DecidableEq, Repr

end Script

-- After its last entry a script is over, or it repeats that entry.
structure Script where
  entries : List Script.Entry
  repeats : Bool   := false
  name    : String := ""
  deriving DecidableEq, Repr

namespace Script

variable {unread : Bytes}

def entry? (script : Script) (next : Nat) : Option Entry :=
  script.entries[next]? <|> if script.repeats then script.entries.getLast? else none

def record (script : Script) (context : Context) (conduct : Conduct) :
    Attempt Progress String unread Unit := do
  let progress ← Attempt.state
  let record := { name := script.name, context, length := unread.length, conduct }
  Attempt.setState { progress with journal := record :: progress.journal }

-- Performs the operations in order, up to the first fault, and collects what they show and take.
def perform : List Operation → Cursor unread →
    List Reading × List Bytes × Option Fault × Cursor unread
  | [], cursor                      => ([], [], none, cursor)
  | operation :: operations, cursor =>
    let step := cursor.perform operation
    match step.reading with
    | .fault fault => ([step.reading], step.taken.toList, some fault, step.cursor)
    | reading      =>
      let (readings, taken, fault, cursor) := perform operations step.cursor
      (reading :: readings, step.taken.toList ++ taken, fault, cursor)

def Reply.give (taken : List Bytes) : Reply → Attempt Progress String unread (Found Bytes)
  | .nothing     => return .nothing
  | .joined      => return .frame taken.flatten
  | .pieces      => return .group taken
  | .frame bytes => return .frame bytes
  | .group list  => return .group list
  | .error text  => Attempt.fail text
  | .fault text  => Attempt.fault (.raised text)

def decode (script : Script) (context : Context) :
    Attempt Progress String unread (Found Bytes) := do
  let progress ← Attempt.state
  let cursor ← Attempt.cursor
  match script.entry? progress.next with
  | none       =>
    script.record context .exhausted
    return .nothing
  | some entry =>
    if cursor.remaining < entry.need then
      script.record context .waited
      return .nothing
    else
      Attempt.setState { progress with next := progress.next + 1 }
      let (readings, taken, fault, cursor) := perform entry.operations cursor
      Attempt.setCursor cursor
      script.record context (.performed readings)
      match fault with
      | some fault => Attempt.fault fault
      | none       => entry.reply.give taken

def strategy (script : Script) : Strategy Progress Bytes String :=
  .ofAttempts (fun context _ => script.decode context) (fun context _ => script.decode context)

end Script
end Framing
