import Framing.Proofs.Stage
import Framing.Strategy.Attempt

/-!
Attempts step by step. Simplification carries out an attempt on a bench, as far as it is known which
way each step goes.
-/

namespace Framing

namespace Cursor

variable {bytes : Bytes}

@[simp]
theorem position_start : (start bytes).position = 0 := rfl

@[simp]
theorem remaining_start : (start bytes).remaining = bytes.length :=
  Nat.sub_zero _

@[simp]
theorem unread_start : (start bytes).unread = bytes := rfl

variable {cursor : Cursor bytes} {count : Nat} (h : count ≤ cursor.remaining)

@[simp]
theorem position_skip : (cursor.skip count h).position = cursor.position + count := rfl

@[simp]
theorem unread_skip : (cursor.skip count h).unread = cursor.unread.drop count :=
  List.drop_drop.symm

@[simp]
theorem remaining_skip : (cursor.skip count h).remaining = cursor.remaining - count :=
  Nat.sub_add_eq ..

@[simp]
theorem skip_skip {more : Nat} (h' : more ≤ (cursor.skip count h).remaining) :
    (cursor.skip count h).skip more h' = cursor.skip (count + more) (by
      rw [remaining_skip] at h'
      omega) := by
  simp [skip, Nat.add_assoc]

end Cursor

namespace Attempt

variable {σ ε α β : Type} {bytes : Bytes} (bench : Bench σ bytes)

@[simp]
theorem pure_apply (value : α) : (pure value : Attempt σ ε bytes α) bench = (.done value, bench) :=
  rfl

section Bind

variable {bench} {attempt : Attempt σ ε bytes α} (next : α → Attempt σ ε bytes β)
variable {bench' : Bench σ bytes}

theorem bind_of_done {value : α} (h : attempt bench = (.done value, bench')) :
    (attempt >>= next) bench = next value bench' := by
  simp only [bind, h]

theorem bind_of_failed {error : ε} (h : attempt bench = (.failed error, bench')) :
    (attempt >>= next) bench = (.failed error, bench') := by
  simp only [bind, h]

end Bind

@[simp]
theorem fail_apply (error : ε) :
    (fail error : Attempt σ ε bytes α) bench = (.failed error, bench) :=
  rfl

@[simp]
theorem bind_state (next : σ → Attempt σ ε bytes β) :
    (state >>= next) bench = next bench.state bench :=
  rfl

@[simp]
theorem bind_setState (state : σ) (next : Unit → Attempt σ ε bytes β) :
    (setState state >>= next) bench = next () { bench with state } :=
  rfl

@[simp]
theorem bind_cursor (next : Cursor bytes → Attempt σ ε bytes β) :
    (cursor >>= next) bench = next bench.cursor bench :=
  rfl

@[simp]
theorem bind_note (notice : Notice) (next : Unit → Attempt σ ε bytes β) :
    (note notice >>= next) bench = next () { bench with notices := bench.notices ++ [notice] } :=
  rfl

variable {bench} {count : Nat}

@[simp]
theorem bind_advance (h : count ≤ bench.cursor.remaining) (next : Unit → Attempt σ ε bytes β) :
    (advance count >>= next) bench = next () { bench with cursor := bench.cursor.skip count h } :=
  bind_of_done _ (by simp [advance, Cursor.advance, h])

@[simp]
theorem bind_copy (h : count ≤ bench.cursor.remaining) (next : Bytes → Attempt σ ε bytes β) :
    (copy count >>= next) bench = next (bench.cursor.unread.take count)
      { bench with cursor := bench.cursor.skip count h } :=
  bind_of_done _ (by simp [copy, Cursor.copy, h])

end Attempt

theorem Invocation.ofAttempt_eq {σ φ ε : Type} {unread : Bytes} {state : σ}
    {attempt : Attempt σ ε unread (Found φ)} {outcome : Outcome ε (Found φ)}
    {bench : Attempt.Bench σ unread}
    (h : attempt { state, cursor := .start unread } = (outcome, bench)) :
    ofAttempt attempt state = ⟨outcome, bench.cursor.position, bench.state, bench.notices⟩ := by
  rw [ofAttempt, h]

namespace Decoder

variable {σ φ ε μ : Type} {decoder : Decoder σ φ ε μ} {unread : Bytes}
variable {decode conclude : Context → (unread : Bytes) → Attempt σ ε unread (Found φ)}
variable {outcome : Outcome ε (Found φ)} {bench : Attempt.Bench σ unread}

section Invoke

variable (same : decoder.strategy = .ofAttempts decode conclude) (stage : Stage σ φ ε μ)
include same

theorem invoke_of_decode
    (h : decode stage.context unread { state := stage.strategyState, cursor := .start unread } =
      (outcome, bench)) :
    ∃ after, decoder.invoke false unread stage = (outcome, bench.cursor.position, after) ∧
      after.strategyState = bench.state := by
  apply invoke_of_eq
  rw [invocation_false, same]
  exact Invocation.ofAttempt_eq h

theorem invoke_of_conclude
    (h : conclude stage.context unread { state := stage.strategyState, cursor := .start unread } =
      (outcome, bench)) :
    ∃ after, decoder.invoke true unread stage = (outcome, bench.cursor.position, after) ∧
      after.strategyState = bench.state := by
  apply invoke_of_eq
  rw [invocation_true, same]
  exact Invocation.ofAttempt_eq h

end Invoke

namespace Uses

variable (uses : decoder.Uses (.ofAttempts decode conclude)) (stage : Stage σ φ ε μ)
include uses

theorem invoke_decode
    (h : decode stage.context unread { state := stage.strategyState, cursor := .start unread } =
      (outcome, bench)) :
    ∃ after, decoder.invoke false unread stage = (outcome, bench.cursor.position, after) ∧
      after.strategyState = bench.state :=
  invoke_of_decode uses.strategy stage h

theorem invoke_conclude
    (h : conclude stage.context unread { state := stage.strategyState, cursor := .start unread } =
      (outcome, bench)) :
    ∃ after, decoder.invoke true unread stage = (outcome, bench.cursor.position, after) ∧
      after.strategyState = bench.state :=
  invoke_of_conclude uses.strategy stage h

end Uses
end Decoder
end Framing
