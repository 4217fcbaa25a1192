import Framing.Proofs.Delimited
import Framing.Proofs.Ending

/-!
Delimited streams of which oversized frames are skipped. However a stream is split into chunks,
nothing fails before its end, and each segment that a delimiter ends becomes a frame or is skipped, by
its size alone where there is room for all of the delimiter but its last byte.
-/

namespace Framing
namespace Delimited

-- A stream cut at its delimiters: the segments that they end, and the tail behind the last of them.
@[ext]
structure Cut where
  segments : List Bytes
  tail     : Bytes
  deriving DecidableEq, Repr

variable (format : Delimited)

-- Cuts at the first delimiter, at the first one behind it, and so on.
def cut (bytes : Bytes) : Cut :=
  match _ : bytes.offsetOf? format.delimiter with
  | none       => { segments := [], tail := bytes }
  | some index =>
    let rest := cut (bytes.drop (index + format.delimiter.length))
    { rest with segments := bytes.take index :: rest.segments }
termination_by bytes.length
decreasing_by
  have le := Bytes.length_le_of_offsetOf? format.delimiter_ne_nil ‹_›
  have positive := List.length_pos_iff.mpr format.delimiter_ne_nil
  rw [List.length_drop]
  omega

variable {format} {bytes more tail : Bytes} {index : Nat} {segments : List Bytes}

theorem cut_of_none (nowhere : bytes.offsetOf? format.delimiter = none) :
    format.cut bytes = { segments := [], tail := bytes } := by
  rw [cut]
  split <;> simp_all

theorem cut_of_some (somewhere : bytes.offsetOf? format.delimiter = some index) :
    format.cut bytes =
      { format.cut (bytes.drop (index + format.delimiter.length)) with
        segments := bytes.take index ::
          (format.cut (bytes.drop (index + format.delimiter.length))).segments } := by
  rw [cut]
  split <;> simp_all

-- There is one way to cut a stream such that no delimiter begins before the one that ends a segment,
-- and none is left in the tail.
theorem cut_eq_iff : format.cut bytes = { segments, tail } ↔
    format.encode segments ++ tail = bytes ∧
    (∀ segment ∈ segments,
      Bytes.offsetOf? (segment ++ format.delimiter) format.delimiter = some segment.length) ∧
    tail.offsetOf? format.delimiter = none := by
  constructor
  case mp =>
    rintro h
    fun_induction format.cut bytes generalizing segments
    case case1 nowhere =>
      cases h
      exact ⟨rfl, nofun, nowhere⟩
    case case2 bytes index somewhere rest ih =>
      cases h
      have ⟨whole, first, nowhere⟩ := ih rfl
      refine ⟨?_, List.forall_mem_cons.mpr ⟨?_, first⟩, nowhere⟩
      · rw [encode_cons, List.append_assoc, whole]
        exact Bytes.take_append_drop_of_offsetOf? format.delimiter_ne_nil somewhere
      · exact Bytes.offsetOf?_take_append format.delimiter_ne_nil somewhere
  case mpr =>
    rintro ⟨rfl, first, nowhere⟩
    induction segments
    case nil => exact cut_of_none nowhere
    case cons segment segments ih =>
      have ⟨here, later⟩ := List.forall_mem_cons.mp first
      have size : (segment ++ format.delimiter).length = segment.length + format.delimiter.length :=
        List.length_append
      have somewhere :
          Bytes.offsetOf? (segment ++ format.delimiter ++ (format.encode segments ++ tail))
            format.delimiter = some segment.length :=
        Bytes.offsetOf?_of_complete format.delimiter_ne_nil here (Nat.zero_le _)
          (List.prefix_append _ _)
      rw [encode_cons, List.append_assoc, cut_of_some somewhere, List.drop_left' size, ih later,
        List.append_assoc, List.take_left]

-- What more bytes add to a stream is found in them and the tail before them.
theorem cut_append (bytes more : Bytes) : format.cut (bytes ++ more) =
    { segments := (format.cut bytes).segments ++
        (format.cut ((format.cut bytes).tail ++ more)).segments
      tail     := (format.cut ((format.cut bytes).tail ++ more)).tail } := by
  have ⟨whole, first, _⟩ := cut_eq_iff.mp (Eq.refl (format.cut bytes))
  have ⟨whole', first', nowhere⟩ :=
    cut_eq_iff.mp (Eq.refl (format.cut ((format.cut bytes).tail ++ more)))
  rw [cut_eq_iff]
  refine ⟨?_, List.forall_mem_append.mpr ⟨first, first'⟩, nowhere⟩
  rw [encode_append, List.append_assoc, whole', ← List.append_assoc, whole]

theorem offsetOf?_tail (format : Delimited) (bytes : Bytes) :
    (format.cut bytes).tail.offsetOf? format.delimiter = none :=
  (cut_eq_iff.mp (Eq.refl (format.cut bytes))).2.2

-- Which of the segments become frames. Those over the limit do not, and the others may be skipped
-- only if they are over it together with their delimiter but its last byte.
inductive Admits (format : Delimited) : (segments frames : List Bytes) → Prop
  | nil : Admits format [] []
  | kept {segment segments frames}
    (within : segment.length ≤ format.limit)
    (rest : Admits format segments frames) :
    Admits format (segment :: segments) (segment :: frames)
  | skipped {segment segments frames}
    (excess : format.limit < segment.length + (format.delimiter.length - 1))
    (rest : Admits format segments frames) :
    Admits format (segment :: segments) frames

namespace Admits

variable {frames segments' frames' : List Bytes}

theorem append (admits : format.Admits segments frames) (admits' : format.Admits segments' frames') :
    format.Admits (segments ++ segments') (frames ++ frames') := by
  induction admits
  case nil               => exact admits'
  case kept within _ ih  => exact .kept within ih
  case skipped excess _ ih => exact .skipped excess ih

theorem sublist (admits : format.Admits segments frames) :
    frames.Sublist (segments.filter (·.length ≤ format.limit)) := by
  induction admits
  case nil => exact .slnil
  case kept within _ ih =>
    rw [List.filter_cons_of_pos (by simpa using within)]
    exact ih.cons_cons _
  case skipped segment _ _ _ _ ih =>
    rw [List.filter_cons]
    split
    case isTrue  => exact ih.cons _
    case isFalse => exact ih

theorem filter_sublist (admits : format.Admits segments frames) :
    (segments.filter fun segment =>
      segment.length + (format.delimiter.length - 1) ≤ format.limit).Sublist frames := by
  induction admits
  case nil => exact .slnil
  case kept _ _ ih =>
    rw [List.filter_cons]
    split
    case isTrue  => exact ih.cons_cons _
    case isFalse => exact ih.cons _
  case skipped excess _ ih =>
    rw [List.filter_cons_of_neg (by simpa using excess)]
    exact ih

end Admits

variable (format)

-- Whether what there is of a frame is over the limit, so that the frame is being skipped.
def overruns (tail : Bytes) : Bool :=
  format.limit < tail.length

-- What is kept of the tail of a stream. While it is skipped, that is what may belong to a delimiter.
def held (tail : Bytes) : Bytes :=
  if format.overruns tail then tail.drop (tail.length - (format.delimiter.length - 1)) else tail

variable {format}

theorem held_of_overruns (overruns : format.overruns tail) :
    format.held tail = tail.drop (tail.length - (format.delimiter.length - 1)) :=
  if_pos overruns

theorem held_of_within (within : format.overruns tail = false) : format.held tail = tail :=
  if_neg (by simp [within])

-- As much stays of a tail that is skipped, whichever part of it was passed over before.
theorem held_append (overruns : format.overruns tail) (more : Bytes) :
    format.held (tail ++ more) = (format.held tail ++ more).drop
      ((format.held tail ++ more).length - (format.delimiter.length - 1)) := by
  have overruns' : format.overruns (tail ++ more) := by
    simp only [Delimited.overruns, decide_eq_true_eq, List.length_append] at *
    omega
  rw [held_of_overruns overruns, held_of_overruns overruns',
    ← List.drop_append_of_le_length (Nat.sub_le ..), List.drop_drop]
  congr 1
  simp only [List.length_append, List.length_drop]
  omega

section Attempts

variable (nowhere : Bytes.offsetOf? bytes format.delimiter = none)

include nowhere in
theorem conclude_of_lost :
    ∃ bench, format.conclude { state := true, cursor := .start bytes } = (.done .nothing, bench) := by
  have ⟨bench, decoded, state, _⟩ := decode_of_lost nowhere true nofun
  refine ⟨bench, ?_⟩
  rw [conclude, Attempt.bind_of_done _ decoded]
  simp [state, Found.isResult]

theorem conclude_of_empty (format : Delimited) :
    format.conclude { state := false, cursor := .start [] } =
      (.done .nothing, { state := false, cursor := .start [] }) := by
  have nowhere := Bytes.offsetOf?_nil format.delimiter_ne_nil
  rw [conclude, Attempt.bind_of_done _ (decode_of_within nowhere (Nat.zero_le _))]
  simp [Found.isResult]

section Tail

variable (nonempty : bytes ≠ []) (within : bytes.length ≤ format.limit)
include nowhere nonempty within

theorem conclude_of_tail (accepts : format.acceptTail) :
    ∃ bench, format.conclude { state := false, cursor := .start bytes } =
      (.done (.frame bytes), bench) := by
  rw [conclude, Attempt.bind_of_done _ (decode_of_within nowhere within)]
  simp [Found.isResult, nonempty, accepts]

theorem conclude_of_unterminated (strict : format.acceptTail = false) :
    ∃ bench, format.conclude { state := false, cursor := .start bytes } =
      (.failed (.unterminated bytes.length), bench) := by
  rw [conclude, Attempt.bind_of_done _ (decode_of_within nowhere within)]
  simp [Found.isResult, nonempty, strict]

end Tail
end Attempts

section Decoding

open Decoder (Stage Pass State Rounds)

variable {μ : Type} {decoder : Decoder Bool Bytes FramingError μ}
variable {stage : Stage Bool Bytes FramingError μ} {pass : Pass Bool Bytes FramingError μ}
variable {state : State Bool Bytes FramingError μ}

-- The pass went well over all that there is behind the last delimiter before it, `bytes`.
structure Skims (format : Delimited) (bytes : Bytes) (stage : Stage Bool Bytes FramingError μ)
    (pass : Pass Bool Bytes FramingError μ) : Prop where
  passed : ∃ frames, format.Admits (format.cut bytes).segments frames ∧
    format.Passed frames (format.overruns (format.cut bytes).tail) stage pass
  unread : pass.unread = format.held (format.cut bytes).tail

theorem skims_of_none (nowhere : bytes.offsetOf? format.delimiter = none)
    (passed : format.Passed [] (format.overruns bytes) stage pass)
    (unread : pass.unread = format.held bytes) : format.Skims bytes stage pass := by
  constructor
  all_goals rw [cut_of_none nowhere]
  case passed => exact ⟨[], .nil, passed⟩
  case unread => exact unread

theorem Skims.kept (somewhere : bytes.offsetOf? format.delimiter = some index)
    (within : index ≤ format.limit) {next : Stage Bool Bytes FramingError μ}
    (grows : ∃ made handed, Stage.Grows made handed stage next ∧
      handed.map Event.frame? = [some (format.shape (bytes.take index))])
    (rest : format.Skims (bytes.drop (index + format.delimiter.length)) next pass) :
    format.Skims bytes stage pass := by
  have ⟨⟨frames, admits, passed⟩, unread⟩ := rest
  have within : (bytes.take index).length ≤ format.limit :=
    Nat.le_trans (List.length_take_le ..) within
  constructor
  all_goals rw [cut_of_some somewhere]
  case passed => exact ⟨_, .kept within admits, passed.of_dispatched grows⟩
  case unread => exact unread

theorem Skims.skipped (somewhere : bytes.offsetOf? format.delimiter = some index)
    (excess : format.limit < index + (format.delimiter.length - 1)) {unread : Bytes}
    {consumed : Nat} {after : Stage Bool Bytes FramingError μ}
    (invoked : decoder.invoke false unread stage = (.done .nothing, consumed, after))
    (rest : format.Skims (bytes.drop (index + format.delimiter.length))
      (after.note (.skipped consumed)) pass) : format.Skims bytes stage pass := by
  have ⟨⟨frames, admits, passed⟩, unread⟩ := rest
  have le := Bytes.length_le_of_offsetOf? format.delimiter_ne_nil somewhere
  have size : (bytes.take index).length = index := List.length_take_of_le (by omega)
  constructor
  all_goals rw [cut_of_some somewhere]
  case passed => exact ⟨_, .skipped (size.symm ▸ excess) admits, passed.of_skipped invoked⟩
  case unread => exact unread

theorem passed_of_held (uses : decoder.Uses format.strategy)
    (nowhere : tail.offsetOf? format.delimiter = none)
    (state : stage.strategyState = format.overruns tail) (position results : Nat) :
    format.Passed [] (format.overruns tail) stage
        (decoder.pass (format.held tail) position results stage) ∧
      (decoder.pass (format.held tail) position results stage).unread = format.held tail := by
  cases overruns : format.overruns tail
  case false =>
    rw [held_of_within overruns]
    exact passed_of_within uses nowhere (by simpa [Delimited.overruns] using overruns)
      (state.trans overruns) position results
  case true =>
    have positive := List.length_pos_iff.mpr format.delimiter_ne_nil
    have nowhere' := Bytes.offsetOf?_drop_eq_none format.delimiter_ne_nil nowhere
      (tail.length - (format.delimiter.length - 1))
    rw [held_of_overruns overruns]
    refine passed_of_lost_short uses nowhere' ?_ (state.trans overruns) position results
    rw [List.length_drop]
    omega

section Uses

variable (uses : decoder.Uses format.strategy) (lenient : format.skipOversized)
include uses lenient

-- By induction on the segments: each takes a round, whether it is handed over or skipped.
theorem skims_of_fresh (bytes : Bytes) (state : stage.strategyState = false)
    (position results : Nat) :
    format.Skims bytes stage (decoder.pass bytes position results stage) := by
  fun_induction format.cut bytes generalizing stage position results
  case case1 bytes nowhere =>
    cases overruns : format.overruns bytes
    case false =>
      have ⟨passed, unread⟩ := passed_of_within uses nowhere
        (by simpa [Delimited.overruns] using overruns) state position results
      exact skims_of_none nowhere (overruns ▸ passed) (unread.trans (held_of_within overruns).symm)
    case true =>
      have excess : format.limit < bytes.length := by simpa [Delimited.overruns] using overruns
      have nonempty : bytes ≠ [] := List.ne_nil_of_length_pos (Nat.zero_lt_of_lt excess)
      have ⟨passed, unread⟩ := passed_of_lost uses nowhere nonempty state
        (fun _ => ⟨excess, lenient⟩) position results
      exact skims_of_none nowhere (overruns ▸ passed)
        (unread.trans (held_of_overruns overruns).symm)
  case case2 bytes index somewhere rest ih =>
    by_cases within : index ≤ format.limit
    case pos =>
      have ⟨_, _, _, eq, state', grows⟩ :=
        pass_of_first uses somewhere within state position results
      rw [eq]
      exact (ih state' _ _).kept somewhere within grows
    case neg =>
      have excess := Nat.lt_of_not_le within
      have ⟨after, invoked, state'⟩ :=
        invoke_of_decode uses state (decode_of_oversized somewhere excess lenient)
      have le := Bytes.length_le_of_offsetOf? format.delimiter_ne_nil somewhere
      have nonempty : bytes ≠ [] := List.ne_nil_of_length_pos (by omega)
      rw [(Rounds.skipped nonempty invoked (by omega) (Decoder.rounds_pass ..)).eq_pass]
      refine Skims.skipped somewhere (Nat.lt_add_right _ excess) invoked (ih ?_ _ _)
      exact state'

-- What is kept of a tail that is skipped is enough to find the delimiter behind it.
theorem skims_of_held (nowhere : tail.offsetOf? format.delimiter = none) (more : Bytes)
    (state : stage.strategyState = format.overruns tail) (position results : Nat) :
    format.Skims (tail ++ more) stage
      (decoder.pass (format.held tail ++ more) position results stage) := by
  cases overruns : format.overruns tail
  case false =>
    rw [held_of_within overruns]
    exact skims_of_fresh uses lenient _ (state.trans overruns) position results
  case true =>
    let passed := tail.length - (format.delimiter.length - 1)
    have passed_le : passed ≤ tail.length := Nat.sub_le ..
    have excess : format.limit < tail.length := by simpa [Delimited.overruns] using overruns
    have shift := Bytes.offsetOf?_append_of_none format.delimiter_ne_nil nowhere (Nat.le_refl passed)
      more
    have behind (count : Nat) : (tail.drop passed ++ more).drop count =
        (tail ++ more).drop (passed + count) := by
      rw [← List.drop_append_of_le_length passed_le, List.drop_drop]
    have held := held_append overruns more
    rw [overruns] at state
    rw [held_of_overruns overruns] at held ⊢
    cases somewhere : Bytes.offsetOf? (tail.drop passed ++ more) format.delimiter
    case none =>
      rw [somewhere] at shift
      have overruns' : format.overruns (tail ++ more) := by
        simp only [Delimited.overruns, decide_eq_true_eq, List.length_append]
        omega
      by_cases nonempty : tail.drop passed ++ more = []
      case pos =>
        have ⟨passed', unread⟩ := passed_of_exhausted format decoder state position results
        rw [nonempty, List.drop_nil] at held
        rw [nonempty]
        exact skims_of_none shift (overruns' ▸ passed') (unread.trans held.symm)
      case neg =>
        have ⟨passed', unread⟩ := passed_of_lost uses somewhere nonempty state nofun position results
        exact skims_of_none shift (overruns' ▸ passed') (unread.trans held.symm)
    case some index =>
      rw [somewhere] at shift
      have ⟨after, invoked, state'⟩ := invoke_of_decode uses state (decode_of_skipped somewhere)
      have positive := List.length_pos_iff.mpr format.delimiter_ne_nil
      have le := Bytes.length_le_of_offsetOf? format.delimiter_ne_nil somewhere
      have lt := Bytes.lt_of_offsetOf?_append format.delimiter_ne_nil nowhere shift
      have nonempty : tail.drop passed ++ more ≠ [] := List.ne_nil_of_length_pos (by omega)
      rw [(Rounds.skipped nonempty invoked (by omega) (Decoder.rounds_pass ..)).eq_pass, behind,
        ← Nat.add_assoc]
      refine Skims.skipped shift (by omega) invoked (skims_of_fresh uses lenient _ ?_ _ _)
      exact state'

end Uses

-- How a stream with that tail ends: how the call comes out, and what it hands over before the signal.
def ending (format : Delimited) (tail : Bytes) :
    Outcome (DecodeError FramingError) Unit × List (Event Bytes μ) :=
  if tail = [] ∨ format.overruns tail then
    (.done (), [])
  else if format.acceptTail then
    (.done (), [.frame tail none])
  else
    (.failed (.strategy (.unterminated tail.length)), [])

section Ending

theorem ending_of_silent (silent : tail = [] ∨ format.overruns tail) :
    (format.ending tail : _ × List (Event Bytes μ)) = (.done (), []) :=
  if_pos silent

variable (nonempty : tail ≠ []) (within : format.overruns tail = false)
include nonempty within

theorem ending_of_tail (accepts : format.acceptTail) :
    (format.ending tail : _ × List (Event Bytes μ)) = (.done (), [.frame tail none]) := by
  rw [ending, if_neg (by simp [nonempty, within]), if_pos accepts]

theorem ending_of_unterminated (strict : format.acceptTail = false) :
    (format.ending tail : _ × List (Event Bytes μ)) =
      (.failed (.strategy (.unterminated tail.length)), []) := by
  rw [ending, if_neg (by simp [nonempty, within]), if_neg (by simp [strict])]

end Ending

theorem conclude_held (uses : decoder.Uses format.strategy)
    (nowhere : tail.offsetOf? format.delimiter = none)
    (state : stage.strategyState = format.overruns tail) :
    ∃ after, decoder.conclude (format.held tail) stage =
        ((format.ending tail : _ × List (Event Bytes μ)).1, after) ∧
      after.trace.events = stage.trace.events ++ (format.ending tail).2 := by
  have concluded {bytes : Bytes} {skipping : Bool} (state : stage.strategyState = skipping)
      {bench : Attempt.Bench Bool bytes} {outcome : Outcome FramingError (Found Bytes)}
      (h : format.conclude { state := skipping, cursor := .start bytes } = (outcome, bench)) :
      ∃ after, decoder.invoke true bytes stage = (outcome, bench.cursor.position, after) := by
    rw [← state] at h
    have ⟨after, invoked, _⟩ := uses.invoke_conclude stage h
    exact ⟨after, invoked⟩
  have nothing {bytes : Bytes} {consumed : Nat} {after : Stage Bool Bytes FramingError μ}
      (invoked : decoder.invoke true bytes stage = (.done .nothing, consumed, after)) :
      ∃ after, decoder.conclude bytes stage = (.done (), after) ∧
        after.trace.events = stage.trace.events ++ [] := by
    have ⟨discarding, eq⟩ := Decoder.conclude_of_nothing invoked
    exact ⟨_, eq, by rw [Stage.events_act, (Decoder.invoke_grows invoked).events]⟩
  cases overruns : format.overruns tail
  case true =>
    have nowhere' := Bytes.offsetOf?_drop_eq_none format.delimiter_ne_nil nowhere
      (tail.length - (format.delimiter.length - 1))
    have ⟨_, read⟩ := conclude_of_lost nowhere'
    have ⟨_, invoked⟩ := concluded (state.trans overruns) read
    rw [held_of_overruns overruns, ending_of_silent (.inr overruns)]
    exact nothing invoked
  case false =>
    have within : tail.length ≤ format.limit := by simpa [Delimited.overruns] using overruns
    rw [held_of_within overruns]
    by_cases nonempty : tail = []
    case pos =>
      subst nonempty
      have ⟨_, invoked⟩ := concluded (state.trans overruns) format.conclude_of_empty
      rw [ending_of_silent (.inl rfl)]
      exact nothing invoked
    case neg =>
      cases accepts : format.acceptTail
      case true =>
        rw [ending_of_tail nonempty overruns accepts]
        have ⟨_, read⟩ := conclude_of_tail nowhere nonempty within accepts
        have ⟨_, invoked⟩ := concluded (state.trans overruns) read
        exact Decoder.conclude_of_result uses.steady rfl invoked
      case false =>
        rw [ending_of_unterminated nonempty overruns accepts]
        have ⟨_, read⟩ := conclude_of_unterminated nowhere nonempty within accepts
        have ⟨_, invoked⟩ := concluded (state.trans overruns) read
        refine ⟨_, Decoder.conclude_of_failed invoked, ?_⟩
        exact (Decoder.invoke_grows invoked).events

-- A tail that has been passed over once gives nothing new when it is passed over again, so that the
-- end of the stream depends on the tail alone.
theorem finish_of_held (uses : decoder.Uses format.strategy) (runs : state.ended = false)
    (rests : state.retention.Rests (format.held tail))
    (nowhere : tail.offsetOf? format.delimiter = none)
    (strategyState : state.strategyState = format.overruns tail) (signal : EndSignal) :
    (decoder.finish signal state).1 = (format.ending tail : _ × List (Event Bytes μ)).1 ∧
      (decoder.finish signal state).2.trace.events =
        state.trace.events ++ (format.ending tail).2 ++ [.ended signal] := by
  let position := state.retention.buffer.elim 0 Buffer.consumed
  let stage := state.beginEnding.note (.ending state.retention.unread.length)
  let pass := decoder.pass state.retention.unread position 0 stage
  have begun : stage.strategyState = format.overruns tail := strategyState
  have ⟨passed, left⟩ : format.Passed [] (format.overruns tail) stage pass ∧
      pass.unread = format.held tail := by
    have passed := passed_of_held uses nowhere begun position 0
    rwa [← rests.unread_eq] at passed ⊢
  have ⟨⟨made, handed, grows, silent⟩, done, strategyState'⟩ := passed
  rw [List.map_eq_nil_iff.mp silent] at grows
  have ⟨total, done⟩ := Outcome.eq_done_of_map done
  refine Decoder.finish_of_silent uses.steady runs (decoder.rounds_pass ..) done grows ?_ signal
  intro last passing settled
  rw [left]
  refine conclude_held uses nowhere ?_
  rwa [settled] at strategyState'

-- A decoder to which `bytes` were delivered. Which bytes are retained and whether the strategy is
-- skipping can be told from the tail.
structure Skimmed (format : Delimited) (bytes : Bytes) (state : State Bool Bytes FramingError μ) :
    Prop where
  runs          : state.ended = false
  rests         : state.retention.Rests (format.held (format.cut bytes).tail)
  strategyState : state.strategyState = format.overruns (format.cut bytes).tail
  frames        : ∃ frames, format.Admits (format.cut bytes).segments frames ∧
    state.trace.events.map Event.frame? = frames.map fun frame => some (format.shape frame)

theorem initial_skimmed (format : Delimited) :
    format.Skimmed [] (.initial false : State Bool Bytes FramingError μ) := by
  have nothing : format.cut [] = { segments := [], tail := [] } :=
    cut_of_none (Bytes.offsetOf?_nil format.delimiter_ne_nil)
  have within : format.overruns [] = false := by simp [overruns]
  constructor
  case runs => rfl
  all_goals rw [nothing]
  case rests         => exact (held_of_within within).symm ▸ Retention.initial_rests
  case strategyState => exact within.symm
  case frames        => exact ⟨[], .nil, rfl⟩

namespace Skimmed

variable (uses : decoder.Uses format.strategy) (lenient : format.skipOversized)
include uses lenient

theorem feed (skimmed : format.Skimmed bytes state) (chunk : Bytes) (source : Source) :
    (decoder.feed chunk source state).1 = .done () ∧
      format.Skimmed (bytes ++ chunk) (decoder.feed chunk source state).2 := by
  obtain ⟨runs, rests, strategyState, frames, admits, handed⟩ := skimmed
  by_cases nonempty : chunk = []
  case pos =>
    subst nonempty
    rw [List.append_nil, Decoder.feed_nil]
    refine ⟨rfl, runs, rests, strategyState, frames, admits, ?_⟩
    simpa [State.note, Stage.note] using handed
  case neg =>
    obtain ⟨pass, fed⟩ := decoder.feed_fed nonempty source runs rests.sound
    obtain ⟨position, merging, rounds⟩ := fed.rounds
    let stage := (state.toStage.hearing source).act merging
    have skims : format.Skims ((format.cut bytes).tail ++ chunk) stage
        (decoder.pass (format.held (format.cut bytes).tail ++ chunk) position 0 stage) := by
      refine skims_of_held uses lenient (format.offsetOf?_tail bytes) chunk ?_ position 0
      exact strategyState
    rw [← rests.unread_eq, rounds.eq_pass] at skims
    obtain ⟨⟨found, admits', passed⟩, left⟩ := skims
    obtain ⟨delivers, unread⟩ := passed.delivers fed
    refine ⟨delivers.done, delivers.runs, ?_, ?_, ?_⟩ <;> rw [cut_append]
    · rw [← left, ← unread]
      exact delivers.rests
    · exact delivers.strategyState
    · refine ⟨frames ++ found, admits.append admits', ?_⟩
      rw [delivers.frames, handed, List.map_append]

theorem feedEach (skimmed : format.Skimmed bytes state) (deliveries : List (Bytes × Source)) :
    (decoder.feedEach deliveries state).1 = .done () ∧
      format.Skimmed (bytes ++ Decoder.delivered deliveries)
        (decoder.feedEach deliveries state).2 := by
  induction deliveries generalizing bytes state
  case nil => exact ⟨rfl, (List.append_nil bytes).symm ▸ skimmed⟩
  case cons delivery deliveries ih =>
    obtain ⟨chunk, source⟩ := delivery
    have ⟨done, skimmed'⟩ := skimmed.feed uses lenient chunk source
    rw [Decoder.feedEach_cons_of_done done, Decoder.delivered_cons, ← List.append_assoc]
    exact ih skimmed'

omit lenient in
theorem finish (skimmed : format.Skimmed bytes state) (signal : EndSignal) :
    (decoder.finish signal state).1 =
        (format.ending (format.cut bytes).tail : _ × List (Event Bytes μ)).1 ∧
      (decoder.finish signal state).2.trace.events =
        state.trace.events ++ (format.ending (format.cut bytes).tail).2 ++ [.ended signal] :=
  finish_of_held uses skimmed.runs skimmed.rests (format.offsetOf?_tail bytes) skimmed.strategyState
    signal

end Skimmed

-- Nothing fails before the end, and the segments become frames or are skipped as a whole. Between the
-- bounds it depends on where the deliveries end, as more may be there of a segment and its delimiter
-- than the limit before all of the delimiter is. A tail is the last frame, or an error, only if it is
-- not skipped itself.
theorem feedEach_cut (uses : decoder.Uses format.strategy) (lenient : format.skipOversized)
    (deliveries : List (Bytes × Source)) (signal : EndSignal) :
    let cut   := format.cut (Decoder.delivered deliveries)
    let fed   := decoder.feedEach deliveries (.initial false)
    let ended := decoder.finish signal fed.2
    fed.1 = .done () ∧
    (∃ frames,
      fed.2.trace.events.map Event.frame? = (frames.map fun frame => some (format.shape frame)) ∧
      frames.Sublist (cut.segments.filter (·.length ≤ format.limit)) ∧
      (cut.segments.filter fun segment =>
        segment.length + (format.delimiter.length - 1) ≤ format.limit).Sublist frames ∧
      (format.delimiter.length = 1 → frames = cut.segments.filter (·.length ≤ format.limit))) ∧
    (cut.tail = [] ∨ format.limit < cut.tail.length →
      ended.1 = .done () ∧ ended.2.trace.events = fed.2.trace.events ++ [.ended signal]) ∧
    (cut.tail ≠ [] → cut.tail.length ≤ format.limit →
      (format.acceptTail = true → ended.1 = .done () ∧
        ended.2.trace.events = fed.2.trace.events ++ [.frame cut.tail none, .ended signal]) ∧
      (format.acceptTail = false →
        ended.1 = .failed (.strategy (.unterminated cut.tail.length)) ∧
        ended.2.trace.events = fed.2.trace.events ++ [.ended signal])) := by
  intro cut fed ended
  have initial : format.Skimmed [] (.initial false) := initial_skimmed (μ := μ) format
  have ⟨done, skimmed⟩ := initial.feedEach uses lenient deliveries
  rw [List.nil_append] at skimmed
  have ⟨outcome, events⟩ := skimmed.finish uses signal
  have ⟨frames, admits, handed⟩ := skimmed.frames
  have sublist  := admits.sublist
  have sublist' := admits.filter_sublist
  refine ⟨done, ⟨frames, handed, sublist, sublist', fun width => ?_⟩, fun excess => ?_,
    fun nonempty within => ⟨fun accepts => ?_, fun strict => ?_⟩⟩
  case refine_1 =>
    rw [width] at sublist'
    exact sublist.antisymm sublist'
  case refine_2 =>
    have excess : cut.tail = [] ∨ format.overruns cut.tail := by simpa [overruns] using excess
    rw [ending, if_pos excess, List.append_nil] at events
    rw [ending, if_pos excess] at outcome
    exact ⟨outcome, events⟩
  all_goals
    have due : ¬(cut.tail = [] ∨ format.overruns cut.tail) := by
      simp [overruns, nonempty, Nat.not_lt_of_le within]
    rw [ending, if_neg due] at outcome events
  case refine_3 =>
    rw [if_pos accepts] at outcome events
    exact ⟨outcome, events.trans (List.append_assoc ..)⟩
  case refine_4 =>
    rw [if_neg (by simp [strict])] at outcome events
    exact ⟨outcome, events.trans (congrArg (· ++ _) (List.append_nil _))⟩

-- Two segments are skipped: one that is over the limit, and one that is within it but is cut off in
-- the middle of its delimiter.
theorem feedEach_cut_between_delimiters :
    let format : Delimited :=
      { delimiter := [13, 10], delimiter_ne_nil := nofun, limit := 3, skipOversized := true
        acceptTail := true }
    let decoder : Decoder Bool Bytes FramingError Unit :=
      { strategy := format.strategy, receiver := .collecting }
    let deliveries : List (Bytes × Source) :=
      [([97, 98, 13], none), ([10, 97, 98, 99, 100, 13], some "a"), ([10, 120, 121, 122, 13], none),
        ([10, 13], none)]
    let cut   := format.cut (Decoder.delivered deliveries)
    let fed   := decoder.feedEach deliveries (.initial false)
    let ended := decoder.finish .closed fed.2
    decoder.Uses format.strategy ∧ format.skipOversized ∧
    cut = { segments := [[97, 98], [97, 98, 99, 100], [120, 121, 122]], tail := [13] } ∧
    fed.1 = .done () ∧ fed.2.trace.events = [.frame [97, 98] (some "a")] ∧ ended.1 = .done () ∧
    ended.2.trace.events = fed.2.trace.events ++ [.frame [13] none, .ended .closed] := by
  intro format decoder deliveries cut fed ended
  have uses : decoder.Uses format.strategy := ⟨rfl, Receiver.collecting_steady⟩
  have cut_eq : cut =
      { segments := [[97, 98], [97, 98, 99, 100], [120, 121, 122]], tail := [13] } := by
    decide +kernel
  have ⟨done, _, _, last⟩ := feedEach_cut uses rfl deliveries .closed
  have ⟨done', events⟩ := (last (by decide +kernel) (by decide +kernel)).1 rfl
  rw [show (format.cut (Decoder.delivered deliveries)).tail = [13] from congrArg Cut.tail cut_eq]
    at events
  exact ⟨uses, rfl, cut_eq, done, by decide +kernel, done', events⟩

end Decoding
end Delimited
end Framing
