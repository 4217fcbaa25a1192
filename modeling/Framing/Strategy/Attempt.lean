import Framing.Strategy

/-!
Attempts: invocations written step by step. A step reads or moves the cursor, reads or sets the
state, or writes a notice; an error or a fault ends the attempt there and then.
-/

namespace Framing

variable {σ φ ε α β : Type} {bytes : Bytes}

-- What an attempt works on.
structure Attempt.Bench (σ : Type) (bytes : Bytes) where
  state   : σ
  cursor  : Cursor bytes
  notices : List Notice := []

def Attempt (σ ε : Type) (bytes : Bytes) (α : Type) : Type :=
  Attempt.Bench σ bytes → Outcome ε α × Attempt.Bench σ bytes

namespace Attempt

instance : Monad (Attempt σ ε bytes) where
  pure value := fun bench => (.done value, bench)
  bind attempt next := fun bench =>
    match attempt bench with
    | (.done value, bench)    => next value bench
    | (.failed error, bench)  => (.failed error, bench)
    | (.faulted fault, bench) => (.faulted fault, bench)

def fail (error : ε) : Attempt σ ε bytes α :=
  fun bench => (.failed error, bench)

def fault (fault : Fault) : Attempt σ ε bytes α :=
  fun bench => (.faulted fault, bench)

def state : Attempt σ ε bytes σ :=
  fun bench => (.done bench.state, bench)

def setState (state : σ) : Attempt σ ε bytes Unit :=
  fun bench => (.done (), { bench with state })

def cursor : Attempt σ ε bytes (Cursor bytes) :=
  fun bench => (.done bench.cursor, bench)

def setCursor (cursor : Cursor bytes) : Attempt σ ε bytes Unit :=
  fun bench => (.done (), { bench with cursor })

def note (notice : Notice) : Attempt σ ε bytes Unit :=
  fun bench => (.done (), { bench with notices := bench.notices ++ [notice] })

def advance (count : Nat) : Attempt σ ε bytes Unit :=
  fun bench =>
    match bench.cursor.advance count with
    | .ok cursor   => (.done (), { bench with cursor })
    | .error fault => (.faulted fault, bench)

def copy (count : Nat) : Attempt σ ε bytes Bytes :=
  fun bench =>
    match bench.cursor.copy count with
    | .ok (copied, cursor) => (.done copied, { bench with cursor })
    | .error fault         => (.faulted fault, bench)

end Attempt

-- The invocation that makes `attempt` on all of `unread`.
def Invocation.ofAttempt {unread : Bytes} (attempt : Attempt σ ε unread (Found φ)) (state : σ) :
    Invocation σ φ ε :=
  let (outcome, bench) := attempt { state, cursor := .start unread }
  { outcome, consumed := bench.cursor.position, state := bench.state, notices := bench.notices }

theorem Invocation.ofAttempt_consumed_le {unread : Bytes}
    (attempt : Attempt σ ε unread (Found φ)) (state : σ) :
    (ofAttempt attempt state).consumed ≤ unread.length :=
  Cursor.position_le _

-- The strategy that makes one attempt while the stream lasts and another one at its end.
def Strategy.ofAttempts
    (decode conclude : Context → (unread : Bytes) → Attempt σ ε unread (Found φ)) :
    Strategy σ φ ε where
  decode     := fun state context unread => .ofAttempt (decode context unread) state
  conclude   := fun state context unread => .ofAttempt (conclude context unread) state
  decode_consumed_le   := fun _ _ _ => Invocation.ofAttempt_consumed_le _ _
  conclude_consumed_le := fun _ _ _ => Invocation.ofAttempt_consumed_le _ _

end Framing
