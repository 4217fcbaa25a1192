import Framing.Decoder

/-!
Passes: the strategy is invoked over the unread bytes until it needs more of them or none are left.
-/

namespace Framing.Decoder

variable {σ φ ε μ : Type}

-- How a pass comes out: with the number of results, if it went well. `position` is where the pass
-- has come to and `unread` is what follows it; an invocation that fails has consumed nothing.
structure Pass (σ φ ε μ : Type) where
  outcome  : Outcome (DecodeError ε) Nat
  position : Nat
  unread   : Bytes
  stage    : Stage σ φ ε μ

variable (decoder : Decoder σ φ ε μ)

-- The pass over `unread`, which starts at `position`, after `results` results. Every round but the
-- last consumes a byte at least.
def pass (unread : Bytes) (position results : Nat) (stage : Stage σ φ ε μ) : Pass σ φ ε μ :=
  if unread = [] then
    finish stage
  else
    match decoder.invoke false unread stage with
    | (.failed error, _, stage)  => { outcome := .failed (.strategy error), position, unread, stage }
    | (.faulted fault, _, stage) => { outcome := .faulted fault, position, unread, stage }
    | (.done .nothing, 0, stage) => finish stage
    | (.done .nothing, skipped + 1, stage) =>
      pass (unread.drop (skipped + 1)) (position + (skipped + 1)) results
        (stage.note (.skipped (skipped + 1)))
    | (.done _, 0, stage) =>
      { outcome := .failed (.stalled results), position, unread
        stage   := stage.note (.stalled position unread.length results) }
    | (.done found, consumed + 1, stage) =>
      let rest := unread.drop (consumed + 1)
      match decoder.dispatch found stage.context.source stage with
      | (none, stage)       => pass rest (position + (consumed + 1)) (results + 1) stage
      | (some fault, stage) =>
        { outcome := .faulted fault, position := position + (consumed + 1), unread := rest, stage }
termination_by unread.length
decreasing_by
  all_goals
    have := List.length_pos_iff.mpr ‹unread ≠ []›
    rw [List.length_drop]
    omega
where
  finish (stage : Stage σ φ ε μ) : Pass σ φ ε μ :=
    { outcome := .done results, position, unread
      stage   := stage.note (.passFinished results unread.length) }

end Framing.Decoder
