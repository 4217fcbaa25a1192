import Framing.Proofs.Allocation
import Framing.Proofs.Lifecycle

/-!
The two paths of a chunk to the strategy: behind the retained bytes, or where it lies. Bytes that
take either path are decoded alike, but if a fault cuts the call short, only the buffer on the first
path still holds what is unread.
-/

namespace Framing

variable {σ φ ε μ : Type}

theorem Retention.ne_none_of_unread {retention : Retention} (retains : retention.unread ≠ []) :
    retention.buffer ≠ none := by
  intro absent
  simp [unread, absent] at retains

namespace Decoder

variable {decoder : Decoder σ φ ε μ} {state : State σ φ ε μ} {chunk : Bytes}

-- The same decoder, except that it retains nothing.
def State.forgetful (state : State σ φ ε μ) : State σ φ ε μ :=
  { state with retention := state.retention.release }

-- Whatever the retained bytes are, they could as well come with the chunk.
theorem feed_forgetful (runs : state.ended = false) (sound : state.retention.Sound)
    (retains : state.retention.unread ≠ []) (nonempty : chunk ≠ []) (source : Source) :
    let appended := decoder.feed chunk source state
    let direct   := decoder.feed (state.retention.unread ++ chunk) source state.forgetful
    Concur .dealings appended direct ∧
      direct.2.retention.unread =
        if appended.1.returns then appended.2.retention.unread else [] := by
  intro appended direct
  have sound' : state.forgetful.retention.Sound := nofun
  have ⟨pass, fed⟩   := decoder.feed_fed nonempty source runs sound
  have ⟨pass', fed'⟩ := decoder.feed_fed (List.append_ne_nil_of_left_ne_nil retains chunk) source
    (show state.forgetful.ended = false from runs) sound'
  have same : (decoder.allocating decoder.allocator).Fed (state.retention.unread ++ chunk) source
    state.forgetful pass' direct := fed'
  have ⟨concur, outcome, unread⟩ : Concur .dealings appended direct ∧
      pass.outcome = pass'.outcome ∧ pass.unread = pass'.unread := fed.concur same rfl (.refl _)
  refine ⟨concur, ?_⟩
  rw [fed.returns]
  cases returns : pass.outcome.returns
  case true =>
    have rests  := fed.rests returns
    have rests' := fed'.rests (outcome ▸ returns)
    exact rests'.unread_eq.trans (unread.symm.trans rests.unread_eq.symm)
  case false => exact (fed'.survives (outcome ▸ returns)).unread_eq

-- Whatever was called before, the two paths of the retained bytes and the next chunk part at a
-- fault only, and only in what they retain.
theorem run_feed_forgetful (decoder : Decoder σ φ ε μ) (start : σ) (calls : List (Call μ))
    (chunk : Bytes) (source : Source) :
    let state    := (decoder.run calls (.initial start)).2
    let appended := decoder.feed chunk source state
    let direct   := decoder.feed (state.retention.unread ++ chunk) source state.forgetful
    state.retention.unread ≠ [] → chunk ≠ [] →
    appended.1 = direct.1 ∧ appended.2.trace.dealings = direct.2.trace.dealings ∧
    direct.2.retention.unread = if appended.1.returns then appended.2.retention.unread else [] := by
  intro state appended direct retains nonempty
  have sound : state.retention.Sound := decoder.run_sound start calls
  have runs : state.ended = false := by
    cases ended : state.ended
    case false => rfl
    case true  =>
      exact absurd (decoder.run_over start calls ended).absent (Retention.ne_none_of_unread retains)
  have ⟨concur, unread⟩ := decoder.feed_forgetful runs sound retains nonempty source
  exact ⟨concur.outcome, concur.stage.trace, unread⟩

-- Two bytes are retained when the third completes a frame and leads to an error behind it.
theorem run_feed_forgetful_across_error :
    let script : Script := { entries := [
      { need := 3, operations := [.take 2], reply := .joined }, { reply := .error "bad" } ] }
    let decoder : Decoder _ _ _ Unit := { strategy := script.strategy, receiver := .collecting }
    let state := (decoder.run [.feed [1] none, .feed [2] none] (.initial {})).2
    let appended := decoder.feed [3] none state
    let direct   := decoder.feed (state.retention.unread ++ [3]) none state.forgetful
    state.retention.unread = [1, 2] ∧
    appended.1 = .failed (.strategy "bad") ∧ appended.1 = direct.1 ∧
    appended.2.trace.dealings = direct.2.trace.dealings ∧
    direct.2.retention.unread = appended.2.retention.unread ∧ direct.2.retention.unread = [3] := by
  intro script decoder state appended direct
  have retained : state.retention.unread = [1, 2] := by decide +kernel
  have failed : appended.1 = .failed (.strategy "bad") := by decide +kernel
  have ⟨outcome, dealings, unread⟩ := run_feed_forgetful decoder {}
    [.feed [1] none, .feed [2] none] [3] none (by decide +kernel) nofun
  have returns : appended.1.returns := by rw [failed]; rfl
  exact ⟨retained, failed, outcome, dealings, unread.trans (if_pos returns), by decide +kernel⟩

-- Where the strategy faults, the bytes are lost on the one path and kept on the other.
theorem feed_forgetful_loses_bytes :
    let script : Script := { entries := [{ need := 2, reply := .fault "broken" }] }
    let decoder : Decoder _ _ _ Unit := { strategy := script.strategy, receiver := .collecting }
    let state := (decoder.run [.feed [1] none] (.initial {})).2
    let appended := decoder.feed [2] none state
    let direct   := decoder.feed [1, 2] none state.forgetful
    state.retention.unread = [1] ∧
    appended.1 = .faulted (.raised "broken") ∧ direct.1 = .faulted (.raised "broken") ∧
    appended.2.retention.unread = [1, 2] ∧ direct.2.retention.unread = [] := by
  decide +kernel

end Decoder
end Framing
