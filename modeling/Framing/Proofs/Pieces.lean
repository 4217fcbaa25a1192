import Framing.Proofs.Ending
import Framing.Proofs.Run
import Framing.Strategy.Elementary

/-!
The cut into pieces of one size. However a stream is split into chunks, each piece becomes a frame as
soon as it is complete, and what is left at the end becomes the last one, unless nothing is left.
-/

namespace Framing

namespace Bytes

variable (size : Nat) (bytes : Bytes)

-- The complete pieces of `size` bytes, one after the other.
def pieces : List Bytes :=
  (List.range (bytes.length / size)).map fun index => (bytes.drop (index * size)).take size

-- What is left behind the last complete piece.
def remnant : Bytes :=
  bytes.drop (bytes.length / size * size)

theorem length_remnant : (bytes.remnant size).length = bytes.length % size := by
  rw [remnant, List.length_drop, Nat.mod_eq_sub_div_mul]

variable {size} {bytes}

theorem pieces_of_short (short : bytes.length < size) : bytes.pieces size = [] := by
  rw [pieces, Nat.div_eq_of_lt short]
  rfl

theorem remnant_of_short (short : bytes.length < size) : bytes.remnant size = bytes := by
  rw [remnant, Nat.div_eq_of_lt short, Nat.zero_mul, List.drop_zero]

theorem length_of_mem_pieces {piece : Bytes} (h : piece ∈ bytes.pieces size) :
    piece.length = size := by
  obtain ⟨index, lt, rfl⟩ := List.mem_map.mp h
  have complete : (index + 1) * size ≤ bytes.length :=
    Nat.le_trans (Nat.mul_le_mul_right size (List.mem_range.mp lt)) (Nat.div_mul_le_self ..)
  rw [Nat.add_mul, Nat.one_mul] at complete
  rw [List.length_take_of_le]
  rw [List.length_drop]
  omega

variable (positive : 0 < size)
include positive

theorem length_remnant_lt (bytes : Bytes) : (bytes.remnant size).length < size := by
  rw [length_remnant]
  exact Nat.mod_lt _ positive

section Enough

variable (enough : size ≤ bytes.length)
include enough

theorem pieces_of_enough :
    bytes.pieces size = bytes.take size :: pieces size (bytes.drop size) := by
  simp only [pieces, List.length_drop, Nat.div_eq_sub_div positive enough,
    List.range_succ_eq_map, List.map_cons, List.map_map, Nat.zero_mul, List.drop_zero]
  congr 1
  refine List.map_congr_left fun index _ => ?_
  rw [Function.comp_apply, List.drop_drop, Nat.succ_mul, Nat.add_comm size]

theorem remnant_of_enough : bytes.remnant size = remnant size (bytes.drop size) := by
  rw [remnant, remnant, List.length_drop, List.drop_drop, Nat.div_eq_sub_div positive enough,
    Nat.succ_mul, Nat.add_comm size]

end Enough

theorem flatten_pieces (bytes : Bytes) :
    (bytes.pieces size).flatten ++ bytes.remnant size = bytes := by
  induction length : bytes.length using Nat.strongRecOn generalizing bytes
  case ind ih =>
    by_cases enough : size ≤ bytes.length
    case pos =>
      have rest := ih (bytes.drop size).length (by rw [List.length_drop]; omega) _ rfl
      rw [pieces_of_enough positive enough, remnant_of_enough positive enough, List.flatten_cons,
        List.append_assoc, rest, List.take_append_drop]
    case neg =>
      have short := Nat.lt_of_not_le enough
      rw [pieces_of_short short, remnant_of_short short]
      rfl

-- Cutting can be broken off anywhere and taken up again with what was left.
theorem pieces_append (bytes more : Bytes) :
    pieces size (bytes ++ more) =
        bytes.pieces size ++ pieces size (bytes.remnant size ++ more) ∧
      remnant size (bytes ++ more) = remnant size (bytes.remnant size ++ more) := by
  induction length : bytes.length using Nat.strongRecOn generalizing bytes
  case ind ih =>
    by_cases enough : size ≤ bytes.length
    case pos =>
      have enough' : size ≤ (bytes ++ more).length := by
        rw [List.length_append]
        omega
      have ⟨pieces, remnant⟩ := ih (bytes.drop size).length (by rw [List.length_drop]; omega) _ rfl
      rw [pieces_of_enough positive enough', remnant_of_enough positive enough',
        List.drop_append_of_le_length enough, List.take_append_of_le_length enough, pieces, remnant,
        pieces_of_enough positive enough, remnant_of_enough positive enough]
      exact ⟨rfl, rfl⟩
    case neg =>
      have short := Nat.lt_of_not_le enough
      rw [pieces_of_short short, remnant_of_short short]
      exact ⟨rfl, rfl⟩

end Bytes

-- How the cut into pieces decodes `unread`, and how many of the bytes that consumes.
inductive Strategy.Cuts {ε : Type} (size : Nat) (unread : Bytes) :
    Outcome ε (Found Bytes) → (consumed : Nat) → Prop
  | waits (short : unread.length < size) : Cuts size unread (.done .nothing) 0
  | piece (enough : size ≤ unread.length) : Cuts size unread (.done (.frame (unread.take size))) size

namespace Decoder

variable {ε μ : Type} {size : Nat} {decoder : Decoder Unit Bytes ε μ} {bytes : Bytes}
variable {position results : Nat} {stage after : Stage Unit Bytes ε μ} {pass : Pass Unit Bytes ε μ}

-- What a pass over `bytes` comes to: the complete pieces are handed over, and the rest is left.
structure CutsUp (size : Nat) (bytes : Bytes) (stage : Stage Unit Bytes ε μ)
    (pass : Pass Unit Bytes ε μ) : Prop where
  done   : ∃ total, pass.outcome = .done total
  unread : pass.unread = bytes.remnant size
  frames : ∃ made handed, Stage.Grows made handed stage pass.stage ∧
    handed.map Event.frame? = (bytes.pieces size).map some

-- A decoder to which `bytes` were delivered.
structure State.Cut (size : Nat) (bytes : Bytes) (state : State Unit Bytes ε μ) : Prop where
  runs   : state.ended = false
  rests  : state.retention.Rests (bytes.remnant size)
  frames : state.trace.events.map Event.frame? = (bytes.pieces size).map some

-- The frame that is left at the end of a stream of `bytes`, if they are not all in pieces.
def lastPiece (size : Nat) (bytes : Bytes) : List (Event Bytes μ) :=
  if size ∣ bytes.length then [] else [.frame (bytes.remnant size) none]

-- No bytes are left that are not in it.
theorem flatten_lastPiece (size : Nat) (bytes : Bytes) :
    ((lastPiece size bytes : List (Event Bytes μ)).filterMap Event.frame?).flatten =
      bytes.remnant size := by
  rw [lastPiece]
  split
  case isTrue whole =>
    have none : (bytes.remnant size).length = 0 :=
      (Bytes.length_remnant ..).trans (Nat.mod_eq_zero_of_dvd whole)
    exact (List.eq_nil_of_length_eq_zero none).symm
  case isFalse => exact List.append_nil _

section Uses

variable (uses : decoder.Uses (.pieces ε size))
include uses

theorem invoke_cuts {outcome : Outcome ε (Found Bytes)} {consumed : Nat}
    (h : decoder.invoke false bytes stage = (outcome, consumed, after)) :
    Strategy.Cuts size bytes outcome consumed := by
  have ⟨_, eq⟩ := invoke_eq h
  rw [invocation_false, uses.strategy] at eq
  by_cases enough : size ≤ bytes.length
  case pos =>
    simp only [Strategy.pieces, Strategy.nextPiece, if_pos enough, Invocation.mk.injEq] at eq
    obtain ⟨rfl, rfl, _⟩ := eq
    exact .piece enough
  case neg =>
    simp only [Strategy.pieces, Strategy.nextPiece, if_neg enough, if_true, Invocation.mk.injEq] at eq
    obtain ⟨rfl, rfl, _⟩ := eq
    exact .waits (Nat.lt_of_not_le enough)

-- At the end, what is less than a piece is one by itself.
theorem conclude_remnant (short : bytes.length < size) (stage : Stage Unit Bytes ε μ) :
    ∃ after, decoder.conclude bytes stage = (.done (), after) ∧
      after.trace.events = stage.trace.events ++ lastPiece size bytes := by
  rcases invoked : decoder.invoke true bytes stage with ⟨outcome, consumed, after⟩
  have ⟨_, eq⟩ := invoke_eq invoked
  rw [invocation_true, uses.strategy] at eq
  by_cases empty : bytes = []
  case pos =>
    simp only [Strategy.pieces, Strategy.nextPiece, if_neg (Nat.not_le_of_lt short), if_pos empty,
      Invocation.mk.injEq] at eq
    obtain ⟨rfl, rfl, _⟩ := eq
    have ⟨_, concluded⟩ := conclude_of_nothing invoked
    exact ⟨_, concluded, by simp [(invoke_grows invoked).events, lastPiece, empty]⟩
  case neg =>
    simp only [Strategy.pieces, Strategy.nextPiece, if_neg (Nat.not_le_of_lt short), if_neg empty,
      Invocation.mk.injEq] at eq
    obtain ⟨rfl, rfl, _⟩ := eq
    have partly : ¬size ∣ bytes.length :=
      Nat.not_dvd_of_pos_of_lt (List.length_pos_iff.mpr empty) short
    rw [lastPiece, if_neg partly, Bytes.remnant_of_short short]
    exact conclude_of_result uses.steady rfl invoked

variable (positive : 0 < size)
include positive

theorem Rounds.cutsUp (rounds : decoder.Rounds bytes position results stage pass) :
    CutsUp size bytes stage pass := by
  induction rounds
  case exhausted =>
    refine ⟨⟨_, rfl⟩, ?_, [], [], (Stage.Grows.refl _).act _, ?_⟩
    · exact (Bytes.remnant_of_short positive).symm
    · rw [Bytes.pieces_of_short positive]
      rfl
  case waiting invoked =>
    cases invoke_cuts uses invoked
    case waits short =>
      refine ⟨⟨_, rfl⟩, ?_, _, [], (invoke_grows invoked).act _, ?_⟩
      · exact (Bytes.remnant_of_short short).symm
      · rw [Bytes.pieces_of_short short]
        rfl
  case failed invoked | faulted invoked => cases invoke_cuts uses invoked
  case stalled invoked isResult =>
    cases invoke_cuts uses invoked
    case waits => exact absurd isResult Found.not_isResult_nothing
    case piece => exact absurd positive (Nat.lt_irrefl 0)
  case skipped invoked progress _ _ =>
    cases invoke_cuts uses invoked
    exact absurd progress (Nat.lt_irrefl 0)
  case refused dispatched =>
    exact absurd (congrArg Prod.fst dispatched) (by simp [dispatch_fault_of_steady uses.steady])
  case dispatched invoked isResult progress dispatched rest ih =>
    cases invoke_cuts uses invoked
    case waits => exact absurd isResult Found.not_isResult_nothing
    case piece enough =>
      have ⟨_, _, all, grows⟩ := dispatch_grows dispatched
      have ⟨done, unread, _, _, grows', frames⟩ := ih
      refine ⟨done, ?_, _, _, ((invoke_grows invoked).trans grows).trans grows', ?_⟩
      · rw [unread, Bytes.remnant_of_enough positive enough]
      · simp [all rfl, Found.events, Event.frame?, frames, Bytes.pieces_of_enough positive enough]

namespace State.Cut

variable {state : State Unit Bytes ε μ}

omit uses in
theorem initial : Cut size [] (.initial () : State Unit Bytes ε μ) where
  runs   := rfl
  rests  := by
    rw [Bytes.remnant_of_short positive]
    exact Retention.initial_rests
  frames := by
    rw [Bytes.pieces_of_short positive]
    rfl

theorem feed (cut : Cut size bytes state) (chunk : Bytes) (source : Source) :
    (decoder.feed chunk source state).1 = .done () ∧
      Cut size (bytes ++ chunk) (decoder.feed chunk source state).2 := by
  obtain ⟨runs, rests, frames⟩ := cut
  by_cases nonempty : chunk = []
  case pos =>
    subst nonempty
    rw [List.append_nil, feed_nil]
    refine ⟨rfl, runs, rests, ?_⟩
    simpa [State.note, Stage.note] using frames
  case neg =>
    obtain ⟨pass, fed⟩ := decoder.feed_fed nonempty source runs rests.sound
    obtain ⟨_, _, rounds⟩ := fed.rounds
    obtain ⟨⟨total, done⟩, unread, _, _, grows, frames'⟩ := rounds.cutsUp uses positive
    rw [rests.unread_eq] at unread frames'
    obtain ⟨pieces, remnant⟩ := Bytes.pieces_append positive bytes chunk
    refine ⟨by rw [fed.outcome, done]; rfl, fed.ended, ?_, ?_⟩
    · rw [remnant, ← unread]
      exact fed.rests (by rw [done]; rfl)
    · rw [(fed.grows grows).events, List.map_append, frames, frames', pieces, List.map_append]

theorem run_feeding (cut : Cut size bytes state) (deliveries : List (Bytes × Source)) :
    (decoder.run (feeding deliveries) state).1 = (deliveries.map fun _ => .done .unit) ∧
      Cut size (bytes ++ delivered deliveries) (decoder.run (feeding deliveries) state).2 := by
  induction deliveries generalizing bytes state
  case nil => exact ⟨rfl, (List.append_nil bytes).symm ▸ cut⟩
  case cons delivery deliveries ih =>
    obtain ⟨chunk, source⟩ := delivery
    have ⟨done, cut'⟩ := cut.feed uses positive chunk source
    have ⟨rest, cut''⟩ := ih cut'
    have first : (decoder.perform (.feed chunk source) state).1 = .done .unit :=
      congrArg perform.unit done
    rw [run_feeding_cons, delivered_cons, ← List.append_assoc]
    exact ⟨List.cons_eq_cons.mpr ⟨first, rest⟩, cut''⟩

-- The pass over what is left hands over nothing, as it is less than a piece.
theorem finish (cut : Cut size bytes state) (signal : EndSignal) :
    (decoder.finish signal state).1 = .done () ∧
      (decoder.finish signal state).2.trace.events =
        state.trace.events ++ lastPiece size bytes ++ [.ended signal] := by
  have short := Bytes.length_remnant_lt positive bytes
  have rounds := decoder.rounds_pass (bytes.remnant size)
    (state.retention.buffer.elim 0 Buffer.consumed) 0
    (state.beginEnding.note (.ending state.retention.unread.length))
  have ⟨⟨total, done⟩, unread, _, handed, grows, frames⟩ := rounds.cutsUp uses positive
  rw [Bytes.pieces_of_short short] at frames
  rw [List.map_eq_nil_iff.mp frames] at grows
  rw [Bytes.remnant_of_short short] at unread
  have last : (lastPiece size (bytes.remnant size) : List (Event Bytes μ)) =
      lastPiece size bytes := by
    simp only [lastPiece, Bytes.length_remnant, Bytes.remnant_of_short short,
      Nat.dvd_iff_mod_eq_zero, Nat.mod_mod]
  refine finish_of_silent uses.steady cut.runs (cut.rests.unread_eq.symm ▸ rounds) done grows
    (fun before _ _ => ?_) signal
  rw [unread, ← last]
  exact conclude_remnant uses short before

end State.Cut

-- The chunks may come from different sources, and may be empty. No frame is short but the last one, which
-- only the end of the stream brings out.
theorem run_cuts_up (deliveries : List (Bytes × Source)) (signal : EndSignal) :
    let bytes := delivered deliveries
    let calls := feeding deliveries ++ [.finish signal]
    let fed   := decoder.run (feeding deliveries) (.initial ())
    let run   := decoder.run calls (.initial ())
    run.1 = (calls.map fun _ => .done .unit) ∧
    fed.2.trace.events.map Event.frame? = (bytes.pieces size).map some ∧
    (∀ piece ∈ bytes.pieces size, piece.length = size) ∧
    run.2.trace.events = fed.2.trace.events ++
      (if size ∣ bytes.length then [] else [.frame (bytes.remnant size) none]) ++ [.ended signal] ∧
    (bytes.remnant size).length < size ∧
    (run.2.trace.events.filterMap Event.frame?).flatten = bytes ∧
    ∀ before, before <+: deliveries →
      (decoder.run (feeding before) (.initial ())).2.retention.unread.length < size := by
  intro bytes calls fed run
  have fresh : State.Cut size [] (.initial ()) := State.Cut.initial (ε := ε) (μ := μ) positive
  have ⟨outcomes, cut⟩ := fresh.run_feeding uses positive deliveries
  have ⟨done, finished⟩ := cut.finish uses positive signal
  have last : (decoder.perform (.finish signal) fed.2).1 = .done .unit := congrArg perform.unit done
  have run_eq : run = (fed.1 ++ [(decoder.perform (.finish signal) fed.2).1],
      (decoder.finish signal fed.2).2) := run_append ..
  have events : run.2.trace.events =
      fed.2.trace.events ++ lastPiece size bytes ++ [.ended signal] := run_eq ▸ finished
  have frames : fed.2.trace.events.map Event.frame? = (bytes.pieces size).map some := cut.frames
  refine ⟨?_, frames, fun _ => Bytes.length_of_mem_pieces, events,
    Bytes.length_remnant_lt positive _, ?_, fun before _ => ?_⟩
  · rw [run_eq, last, outcomes, List.map_append, feeding, List.map_map]
    rfl
  · have pieces : fed.2.trace.events.filterMap Event.frame? = bytes.pieces size := by
      have := congrArg (List.filterMap id) frames
      simpa only [List.filterMap_map, Function.id_comp, Function.comp_def, id, List.filterMap_some]
        using this
    rw [events, List.filterMap_append, List.filterMap_append, pieces, List.flatten_append,
      List.flatten_append, flatten_lastPiece, Bytes.flatten_pieces positive]
    exact List.append_nil bytes
  · have ⟨_, cut'⟩ := fresh.run_feeding uses positive before
    rw [cut'.rests.unread_eq]
    exact Bytes.length_remnant_lt positive _

end Uses

-- Three pieces of three bytes, the last of them out of two chunks, and one byte more.
theorem run_cuts_up_with_remnant :
    let decoder : Decoder _ _ _ Unit :=
      { strategy := .pieces FramingError 3, receiver := .collecting }
    let deliveries : List (Bytes × Source) :=
      [([1, 2], none), ([3, 4, 5, 6, 7], some "a"), ([], none), ([8, 9, 10], none)]
    let fed := decoder.run (feeding deliveries) (.initial ())
    let run := decoder.run (feeding deliveries ++ [.finish .closed]) (.initial ())
    decoder.Uses (.pieces FramingError 3) ∧ 0 < 3 ∧
    run.1 = [.done .unit, .done .unit, .done .unit, .done .unit, .done .unit] ∧
    fed.2.trace.events =
      [.frame [1, 2, 3] (some "a"), .frame [4, 5, 6] (some "a"), .frame [7, 8, 9] none] ∧
    run.2.trace.events = fed.2.trace.events ++ [.frame [10] none, .ended .closed] ∧
    deliveries.take 2 <+: deliveries ∧
    (decoder.run (feeding (deliveries.take 2)) (.initial ())).2.retention.unread.length < 3 := by
  intro decoder deliveries fed run
  have uses : decoder.Uses (.pieces FramingError 3) := ⟨rfl, Receiver.collecting_steady⟩
  have ⟨outcomes, _, _, events, _, _, short⟩ := run_cuts_up uses (by decide) deliveries .closed
  have last : (lastPiece 3 (delivered deliveries) : List (Event Bytes Unit)) =
      [.frame [10] none] := by
    decide +kernel
  rw [← lastPiece, last, List.append_assoc] at events
  exact ⟨uses, by decide, outcomes, by decide +kernel, events, List.take_prefix .., short _
    (List.take_prefix ..)⟩

end Decoder
end Framing
