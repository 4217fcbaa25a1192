import Framing.Proofs.Attempt
import Framing.Proofs.Ending
import Framing.Proofs.Run
import Framing.Strategy.LengthPrefixed

/-!
The length-prefixed format. However a stream is split into chunks, exactly its complete payloads are
decoded, up to a header that announces too much; and what is left at the end tells how it ends.
-/

namespace Framing
namespace LengthPrefixed

-- The payload length that `bytes` start with, if all of the header is there.
def announced? (bytes : Bytes) : Option Nat :=
  if headerSize ≤ bytes.length then some (Bytes.toNat (bytes.take headerSize)) else none

theorem ne_nil_of_announced {bytes : Bytes} {size : Nat} (announced : announced? bytes = some size) :
    bytes ≠ [] := by
  rintro rfl
  cases announced

theorem headerSize_le_of_announced {bytes : Bytes} {size : Nat}
    (announced : announced? bytes = some size) : headerSize ≤ bytes.length := by
  simp only [announced?, Option.ite_none_right_eq_some] at announced
  exact announced.1

variable (format : LengthPrefixed)

-- What `bytes` may start with.
inductive Starts (bytes : Bytes) : Prop
  | partialHeader (announced : announced? bytes = none)
  | oversized {size} (announced : announced? bytes = some size) (exceeds : format.limit < size)
  | partialPayload {size} (announced : announced? bytes = some size) (within : size ≤ format.limit)
    (short : bytes.length < headerSize + size)
  | frame {size} (announced : announced? bytes = some size) (within : size ≤ format.limit)
    (enough : headerSize + size ≤ bytes.length)

theorem starts (bytes : Bytes) : format.Starts bytes := by
  cases announced : announced? bytes
  case none => exact .partialHeader announced
  case some size =>
    by_cases within : size ≤ format.limit
    case neg => exact .oversized announced (Nat.lt_of_not_le within)
    case pos =>
      by_cases enough : headerSize + size ≤ bytes.length
      case pos => exact .frame announced within enough
      case neg => exact .partialPayload announced within (Nat.lt_of_not_le enough)

section Attempts

variable {format} {bytes : Bytes} {size : Nat} {bench : Attempt.Bench Unit bytes}

theorem announced_of_none (h : announced? bench.cursor.unread = none) :
    format.announced bench = (.done none, bench) := by
  simp_all [announced, announced?, Cursor.peek?, Nat.not_le_of_lt]

theorem announced_of_within (h : announced? bench.cursor.unread = some size)
    (within : size ≤ format.limit) : format.announced bench = (.done (some size), bench) := by
  simp_all [announced, announced?, Cursor.peek?]

theorem announced_of_exceeds (h : announced? bench.cursor.unread = some size)
    (exceeds : format.limit < size) :
    format.announced bench = (.failed (.oversized size format.limit), bench) := by
  simp_all [announced, announced?, Cursor.peek?, Nat.not_le_of_lt]

theorem decode_of_partialHeader (h : announced? bench.cursor.unread = none) :
    format.decode bench = (.done .nothing, bench) :=
  Attempt.bind_of_done _ (announced_of_none h)

theorem decode_of_oversized (h : announced? bench.cursor.unread = some size)
    (exceeds : format.limit < size) :
    format.decode bench = (.failed (.oversized size format.limit), bench) :=
  Attempt.bind_of_failed _ (announced_of_exceeds h exceeds)

theorem decode_of_partialPayload (h : announced? bench.cursor.unread = some size)
    (within : size ≤ format.limit) (short : bench.cursor.remaining < headerSize + size) :
    format.decode bench = (.done .nothing, bench) := by
  rw [decode, Attempt.bind_of_done _ (announced_of_within h within)]
  simp [short]

theorem decode_of_frame (h : announced? bench.cursor.unread = some size)
    (within : size ≤ format.limit) (enough : headerSize + size ≤ bench.cursor.remaining) :
    format.decode bench =
      (.done (.frame ((bench.cursor.unread.drop headerSize).take size)),
        { bench with cursor := bench.cursor.skip _ enough }) := by
  rw [decode, Attempt.bind_of_done _ (announced_of_within h within)]
  have header  : headerSize ≤ bench.cursor.remaining := by omega
  have payload : size ≤ bench.cursor.remaining - headerSize := by omega
  simp [Nat.not_lt_of_le enough, header, payload]

theorem decode_start_of_frame (h : announced? bytes = some size) (within : size ≤ format.limit)
    (enough : headerSize + size ≤ bytes.length) :
    ∃ cursor : Cursor bytes, cursor.position = headerSize + size ∧
      format.decode { state := (), cursor := .start bytes } =
        (.done (.frame ((bytes.drop headerSize).take size)), { state := (), cursor }) := by
  have enough : headerSize + size ≤ (Cursor.start bytes).remaining := enough
  have read :=
    @decode_of_frame format bytes size { state := (), cursor := .start bytes } h within enough
  exact ⟨_, by simp, read⟩

theorem conclude_of_empty (h : bench.cursor.remaining = 0) :
    format.conclude bench = (.done .nothing, bench) := by
  simp [conclude, h]

theorem conclude_of_partialHeader (nonempty : bench.cursor.remaining ≠ 0)
    (h : announced? bench.cursor.unread = none) : format.conclude bench =
      (.failed (.partialHeader bench.cursor.remaining headerSize), bench) := by
  simp only [conclude, Attempt.bind_cursor, if_neg nonempty]
  rw [Attempt.bind_of_done _ (decode_of_partialHeader h)]
  rw [if_neg Found.not_isResult_nothing, Attempt.bind_cursor,
    Attempt.bind_of_done _ (announced_of_none h)]
  rfl

theorem conclude_of_partialPayload (h : announced? bench.cursor.unread = some size)
    (within : size ≤ format.limit) (short : bench.cursor.remaining < headerSize + size)
    (nonempty : bench.cursor.remaining ≠ 0) : format.conclude bench =
      (.failed (.partialPayload (bench.cursor.remaining - headerSize) size), bench) := by
  simp only [conclude, Attempt.bind_cursor, if_neg nonempty]
  rw [Attempt.bind_of_done _ (decode_of_partialPayload h within short)]
  rw [if_neg Found.not_isResult_nothing, Attempt.bind_cursor,
    Attempt.bind_of_done _ (announced_of_within h within)]
  rfl

end Attempts

-- What a stream comes to: complete payloads, and what is `left` behind them.
@[ext]
structure Parsed where
  payloads : List Bytes
  left     : Bytes
  deriving DecidableEq, Repr

-- Reads payloads up to a header that announces more than there may be or more than there is.
def parse (bytes : Bytes) : Parsed :=
  match announced? bytes with
  | none      => { payloads := [], left := bytes }
  | some size =>
    if size ≤ format.limit ∧ headerSize + size ≤ bytes.length then
      let rest := parse (bytes.drop (headerSize + size))
      { rest with payloads := (bytes.drop headerSize).take size :: rest.payloads }
    else
      { payloads := [], left := bytes }
termination_by bytes.length
decreasing_by
  simp only [List.length_drop, headerSize] at *
  omega

-- The payload length that `bytes` start with, if that is too much.
def excess? (bytes : Bytes) : Option Nat :=
  (announced? bytes).filter (format.limit < ·)

variable {format} {bytes : Bytes} {size : Nat}

theorem excess?_eq_some_iff :
    format.excess? bytes = some size ↔ announced? bytes = some size ∧ format.limit < size := by
  simp [excess?, Option.filter_eq_some_iff]

theorem excess?_of_within (announced : announced? bytes = some size) (within : size ≤ format.limit) :
    format.excess? bytes = none := by
  simp [excess?, announced, within]

theorem parse_of_frame (announced : announced? bytes = some size) (within : size ≤ format.limit)
    (enough : headerSize + size ≤ bytes.length) : format.parse bytes =
      { format.parse (bytes.drop (headerSize + size)) with
        payloads := (bytes.drop headerSize).take size ::
          (format.parse (bytes.drop (headerSize + size))).payloads } := by
  rw [parse, announced]
  simp [within, enough]

theorem parse_of_partialHeader (announced : announced? bytes = none) :
    format.parse bytes = { payloads := [], left := bytes } := by
  rw [parse, announced]

theorem parse_of_partialPayload (announced : announced? bytes = some size)
    (short : bytes.length < headerSize + size) :
    format.parse bytes = { payloads := [], left := bytes } := by
  rw [parse, announced]
  simp [Nat.not_le_of_lt short]

theorem parse_of_excess (excess : format.excess? bytes = some size) :
    format.parse bytes = { payloads := [], left := bytes } := by
  have ⟨announced, exceeds⟩ := excess?_eq_some_iff.mp excess
  rw [parse, announced]
  simp [Nat.not_le_of_lt exceeds]

-- Complete headers stay complete.
theorem announced?_append (announced : announced? bytes = some size) (more : Bytes) :
    announced? (bytes ++ more) = some size := by
  simp only [announced?, Option.ite_none_right_eq_some] at announced ⊢
  have ⟨enough, size_eq⟩ := announced
  have enough' : headerSize ≤ (bytes ++ more).length := by
    rw [List.length_append]
    omega
  exact ⟨enough', by rwa [List.take_append_of_le_length enough]⟩

theorem excess?_append (excess : format.excess? bytes = some size) (more : Bytes) :
    format.excess? (bytes ++ more) = some size := by
  rw [excess?_eq_some_iff] at excess ⊢
  exact ⟨announced?_append excess.1 more, excess.2⟩

-- Reading can be broken off anywhere and taken up again with what was left.
theorem parse_append (bytes more : Bytes) :
    format.parse (bytes ++ more) =
      { payloads := (format.parse bytes).payloads ++
          (format.parse ((format.parse bytes).left ++ more)).payloads
        left := (format.parse ((format.parse bytes).left ++ more)).left } := by
  fun_induction format.parse bytes
  case case2 bytes size announced h rest ih =>
    have ⟨within, enough⟩ := h
    have enough' : headerSize + size ≤ (bytes ++ more).length := by
      rw [List.length_append]
      omega
    rw [parse_of_frame (announced?_append announced more) within enough',
      List.drop_append_of_le_length enough, ih]
    have header : headerSize ≤ bytes.length := by omega
    have payload : size ≤ (bytes.drop headerSize).length := by
      rw [List.length_drop]
      omega
    rw [List.drop_append_of_le_length header, List.take_append_of_le_length payload]
    rfl
  all_goals simp

theorem parse_left (format : LengthPrefixed) (bytes : Bytes) :
    format.parse (format.parse bytes).left =
      { payloads := [], left := (format.parse bytes).left } := by
  have again := format.parse_append bytes []
  rw [List.append_nil, List.append_nil] at again
  have payloads : (format.parse (format.parse bytes).left).payloads = [] := by
    have := congrArg Parsed.payloads again
    simpa using this
  have left := congrArg Parsed.left again
  exact Parsed.ext payloads left.symm

-- Nothing is parsed behind a header that announces too much.
theorem parse_append_of_excess (excess : format.excess? (format.parse bytes).left = some size)
    (more : Bytes) : format.parse (bytes ++ more) =
      { payloads := (format.parse bytes).payloads, left := (format.parse bytes).left ++ more } := by
  rw [parse_append, parse_of_excess (excess?_append excess more), List.append_nil]

theorem parse_left_suffix (bytes : Bytes) : (format.parse bytes).left <:+ bytes := by
  fun_induction format.parse bytes
  case case2 ih => exact ih.trans (List.drop_suffix _ _)
  all_goals exact List.suffix_refl _

-- A frame is not left, and neither is a header that announces too much if none was there before.
theorem left_short (announced : announced? (format.parse bytes).left = some size)
    (within : size ≤ format.limit) : (format.parse bytes).left.length < headerSize + size := by
  apply Nat.lt_of_not_le
  intro enough
  have payloads := congrArg Parsed.payloads (format.parse_left bytes)
  rw [parse_of_frame announced within enough] at payloads
  cases payloads

-- A header that announces too much was not complete before.
theorem excess_recent {chunk : Bytes} (within : format.excess? (format.parse bytes).left = none)
    (excess : format.excess? (format.parse (bytes ++ chunk)).left = some size) :
    (format.parse (bytes ++ chunk)).left.length < headerSize + chunk.length := by
  rw [parse_append] at excess ⊢
  let left := (format.parse bytes).left
  have suffix := (format.parse_left_suffix (left ++ chunk)).length_le
  rw [List.length_append] at suffix
  cases format.starts left
  case partialHeader announced =>
    have short : left.length < headerSize := by
      simpa [announced?] using announced
    simp only [left] at *
    omega
  case oversized announced exceeds =>
    rw [excess?_eq_some_iff.mpr ⟨announced, exceeds⟩] at within
    cases within
  case partialPayload size' announced within' short =>
    have announced' := announced?_append announced chunk
    by_cases enough : headerSize + size' ≤ (left ++ chunk).length
    case pos =>
      have suffix := (format.parse_left_suffix ((left ++ chunk).drop (headerSize + size'))).length_le
      rw [List.length_drop, List.length_append] at suffix
      rw [parse_of_frame announced' within' enough]
      simp only [left, List.length_append] at *
      omega
    case neg =>
      rw [parse_of_partialPayload announced' (Nat.lt_of_not_le enough),
        excess?_of_within announced' within'] at excess
      cases excess
  case frame announced within' enough =>
    exact absurd enough (Nat.not_le_of_lt (left_short announced within'))

-- How a delivery comes out that leaves `left`: it fails as soon as too much is announced.
def admission (format : LengthPrefixed) (left : Bytes) : Outcome (DecodeError FramingError) Unit :=
  match format.excess? left with
  | none      => .done ()
  | some size => .failed (.strategy (.oversized size format.limit))

theorem admission_eq_done_iff : format.admission bytes = .done () ↔ format.excess? bytes = none := by
  rw [admission]
  split <;> simp_all

theorem admission_of_excess (excess : format.excess? bytes = some size) :
    format.admission bytes = .failed (.strategy (.oversized size format.limit)) := by
  rw [admission, excess]

section Decoding

open Decoder (Stage Pass State Rounds)

variable {μ : Type}

-- A pass hands over the payloads as frames, and leaves the rest.
structure ReadsOff (format : LengthPrefixed) (parsed : Parsed)
    (stage : Stage Unit Bytes FramingError μ) (pass : Pass Unit Bytes FramingError μ) : Prop where
  outcome : (pass.outcome.map fun _ => ()) = format.admission parsed.left
  unread  : pass.unread = parsed.left
  frames  : ∃ made handed, Stage.Grows made handed stage pass.stage ∧
    handed.map Event.frame? = parsed.payloads.map some

variable {decoder : Decoder Unit Bytes FramingError μ} {stage : Stage Unit Bytes FramingError μ}
variable {outcome : Outcome FramingError (Found Bytes)} {bench : Attempt.Bench Unit bytes}

theorem readsOff_of_waiting (uses : decoder.Uses format.strategy)
    (waits : format.decode { state := (), cursor := .start bytes } =
      (.done .nothing, { state := (), cursor := .start bytes }))
    (within : format.excess? bytes = none) (position results : Nat) :
    format.ReadsOff { payloads := [], left := bytes } stage
      (decoder.pass bytes position results stage) := by
  by_cases nonempty : bytes = []
  case pos =>
    subst nonempty
    rw [Rounds.exhausted.eq_pass]
    exact ⟨(admission_eq_done_iff.mpr within).symm, rfl, [], [], (Stage.Grows.refl _).act _, rfl⟩
  case neg =>
    have ⟨_, invoked, _⟩ := uses.invoke_decode stage waits
    rw [(Rounds.waiting nonempty invoked).eq_pass]
    exact ⟨(admission_eq_done_iff.mpr within).symm, rfl,
      _, [], (Decoder.invoke_grows invoked).act _, rfl⟩

theorem readsOff (uses : decoder.Uses format.strategy) (bytes : Bytes) (position results : Nat)
    (stage : Stage Unit Bytes FramingError μ) :
    format.ReadsOff (format.parse bytes) stage (decoder.pass bytes position results stage) := by
  fun_induction format.parse bytes generalizing position results stage
  case case1 bytes announced =>
    have within : format.excess? bytes = none := by simp [excess?, announced]
    exact readsOff_of_waiting uses (decode_of_partialHeader announced) within _ _
  case case2 bytes size announced h rest ih =>
    have ⟨within, enough⟩ := h
    have ⟨cursor, position_eq, read⟩ := decode_start_of_frame announced within enough
    have ⟨after, invoked, _⟩ := uses.invoke_decode stage read
    rw [position_eq] at invoked
    have nonempty : bytes ≠ [] := ne_nil_of_announced announced
    have progress : 0 < headerSize + size := Nat.lt_of_lt_of_le (by decide) (Nat.le_add_right ..)
    rcases dispatched : decoder.dispatch (.frame ((bytes.drop headerSize).take size))
      after.context.source after with ⟨fault, next⟩
    have accepted := Decoder.dispatch_fault_of_steady uses.steady
      (.frame ((bytes.drop headerSize).take size)) after.context.source after
    rw [dispatched] at accepted
    subst accepted
    have ⟨_, _, all, grows⟩ := Decoder.dispatch_grows dispatched
    have ⟨outcome, unread, _, _, grows', frames⟩ :=
      ih (position + (headerSize + size)) (results + 1) next
    rw [(Rounds.dispatched nonempty invoked rfl progress dispatched (Decoder.rounds_pass ..)).eq_pass]
    refine ⟨outcome, unread, _, _, ((Decoder.invoke_grows invoked).trans grows).trans grows', ?_⟩
    simp [all rfl, Found.events, Event.frame?, frames, rest]
  case case3 bytes size announced h =>
    cases format.starts bytes
    case partialHeader announced' => cases announced.symm.trans announced'
    case oversized announced' exceeds =>
      have excess := excess?_eq_some_iff.mpr ⟨announced', exceeds⟩
      have read := @decode_of_oversized format bytes _ { state := (), cursor := .start bytes }
        announced' exceeds
      have ⟨_, invoked, _⟩ := uses.invoke_decode stage read
      rw [(Rounds.failed (ne_nil_of_announced announced) invoked).eq_pass]
      exact ⟨(admission_of_excess excess).symm, rfl, _, [], Decoder.invoke_grows invoked, rfl⟩
    case partialPayload announced' within short =>
      exact readsOff_of_waiting uses (decode_of_partialPayload announced' within short)
        (excess?_of_within announced' within) _ _
    case frame announced' within enough =>
      cases announced.symm.trans announced'
      exact absurd ⟨within, enough⟩ h

-- What is left when a stream ends must be nothing.
def conclusion (left : Bytes) : Outcome (DecodeError FramingError) Unit :=
  if left = [] then
    .done ()
  else
    match announced? left with
    | none      => .failed (.strategy (.partialHeader left.length headerSize))
    | some size => .failed (.strategy (.partialPayload (left.length - headerSize) size))

theorem conclude_left {decoder : Decoder Unit Bytes FramingError μ}
    (uses : decoder.Uses format.strategy) (within : format.excess? (format.parse bytes).left = none)
    (stage : Stage Unit Bytes FramingError μ) :
    ∃ after, decoder.conclude (format.parse bytes).left stage =
        (conclusion (format.parse bytes).left, after) ∧
      after.trace.events = stage.trace.events := by
  let left := (format.parse bytes).left
  by_cases empty : left = []
  case pos =>
    have read : format.conclude { state := (), cursor := .start left } = _ :=
      conclude_of_empty (by simp [empty])
    have ⟨_, invoked, _⟩ := uses.invoke_conclude stage read
    have ⟨_, concluded⟩ := Decoder.conclude_of_nothing invoked
    refine ⟨_, by rw [concluded, conclusion, if_pos empty], ?_⟩
    simp [(Decoder.invoke_grows invoked).events]
  case neg =>
    have nonempty : left.length ≠ 0 := by simpa using empty
    have failed {error bench} (h : format.conclude { state := (), cursor := .start left } =
        (.failed error, bench)) : ∃ after, decoder.conclude left stage =
          (.failed (.strategy error), after) ∧ after.trace.events = stage.trace.events := by
      have ⟨_, invoked, _⟩ := uses.invoke_conclude stage h
      refine ⟨_, Decoder.conclude_of_failed invoked, ?_⟩
      simp [(Decoder.invoke_grows invoked).events]
    rw [conclusion, if_neg empty]
    cases format.starts left
    case partialHeader announced =>
      rw [announced]
      exact failed (conclude_of_partialHeader nonempty announced)
    case oversized announced exceeds =>
      rw [excess?_eq_some_iff.mpr ⟨announced, exceeds⟩] at within
      cases within
    case partialPayload announced within' short =>
      rw [announced]
      exact failed (conclude_of_partialPayload announced within' short nonempty)
    case frame announced within' enough =>
      exact absurd enough (Nat.not_le_of_lt (left_short announced within'))

-- What a decoder has come to that was delivered `bytes`.
structure Reads (format : LengthPrefixed) (bytes : Bytes) (state : State Unit Bytes FramingError μ) :
    Prop where
  runs   : state.ended = false
  rests  : state.retention.Rests (format.parse bytes).left
  frames : state.trace.events.map Event.frame? = (format.parse bytes).payloads.map some

theorem initial_reads (format : LengthPrefixed) :
    format.Reads [] (.initial () : State Unit Bytes FramingError μ) := by
  have nothing : format.parse [] = { payloads := [], left := [] } := parse_of_partialHeader rfl
  constructor
  case runs   => rfl
  case rests  => exact nothing ▸ Retention.initial_rests
  case frames => rw [nothing]; rfl

namespace Reads

variable {decoder : Decoder Unit Bytes FramingError μ} {state : State Unit Bytes FramingError μ}

theorem feed (uses : decoder.Uses format.strategy) (reads : format.Reads bytes state)
    (within : format.excess? (format.parse bytes).left = none) (chunk : Bytes) (source : Source) :
    format.Reads (bytes ++ chunk) (decoder.feed chunk source state).2 ∧
      (decoder.feed chunk source state).1 =
        format.admission (format.parse (bytes ++ chunk)).left := by
  obtain ⟨runs, rests, frames⟩ := reads
  by_cases nonempty : chunk = []
  case pos =>
    subst nonempty
    rw [List.append_nil, Decoder.feed_nil]
    refine ⟨⟨runs, rests, ?_⟩, (admission_eq_done_iff.mpr within).symm⟩
    simpa [State.note, Stage.note] using frames
  case neg =>
    obtain ⟨pass, fed⟩ := decoder.feed_fed nonempty source runs rests.sound
    obtain ⟨position, merging, rounds⟩ := fed.rounds
    have readsOff := readsOff uses (state.retention.unread ++ chunk) position 0
      ((state.toStage.hearing source).act merging)
    rw [rounds.eq_pass, rests.unread_eq] at readsOff
    obtain ⟨outcome, unread, _, _, grows, frames'⟩ := readsOff
    have returns : pass.outcome.returns := by
      rw [← Outcome.returns_map, outcome, admission]
      split <;> rfl
    have parsed := format.parse_append bytes chunk
    constructor
    case right => rw [fed.outcome, outcome, parsed]
    case left  =>
      refine ⟨fed.ended, ?_, ?_⟩
      · rw [parsed, ← unread]
        exact fed.rests returns
      · rw [parsed, (fed.grows grows).events, List.map_append, frames, frames', List.map_append]

-- A delivery that does not go well brings a header that announces too much.
theorem feed_broken (uses : decoder.Uses format.strategy) (reads : format.Reads bytes state)
    (within : format.excess? (format.parse bytes).left = none) {chunk : Bytes} {source : Source}
    (broken : (decoder.feed chunk source state).1 ≠ .done ()) :
    ∃ size, format.excess? (format.parse (bytes ++ chunk)).left = some size ∧
      (decoder.feed chunk source state).1 = .failed (.strategy (.oversized size format.limit)) := by
  have ⟨_, outcome⟩ := reads.feed uses within chunk source
  cases excess : format.excess? (format.parse (bytes ++ chunk)).left
  case none      => exact absurd (outcome.trans (admission_eq_done_iff.mpr excess)) broken
  case some size => exact ⟨size, rfl, outcome.trans (admission_of_excess excess)⟩

theorem feedEach (uses : decoder.Uses format.strategy) (reads : format.Reads bytes state)
    (within : format.excess? (format.parse bytes).left = none) (deliveries : List (Bytes × Source))
    (done : (decoder.feedEach deliveries state).1 = .done ()) :
    format.Reads (bytes ++ Decoder.delivered deliveries) (decoder.feedEach deliveries state).2 ∧
      format.excess? (format.parse (bytes ++ Decoder.delivered deliveries)).left = none := by
  induction deliveries generalizing bytes state
  case nil => simpa [Decoder.delivered, Decoder.feedEach] using ⟨reads, within⟩
  case cons delivery deliveries ih =>
    obtain ⟨chunk, source⟩ := delivery
    obtain ⟨reads', outcome⟩ := reads.feed uses within chunk source
    by_cases went : (decoder.feed chunk source state).1 = .done ()
    case neg =>
      rw [Decoder.feedEach_cons_of_ne went] at done
      exact absurd done went
    case pos =>
      rw [Decoder.feedEach_cons_of_done went] at done ⊢
      rw [Decoder.delivered_cons, ← List.append_assoc]
      exact ih reads' (admission_eq_done_iff.mp (outcome.symm.trans went)) done

theorem finish (uses : decoder.Uses format.strategy) (reads : format.Reads bytes state)
    (within : format.excess? (format.parse bytes).left = none) (signal : EndSignal) :
    (decoder.finish signal state).1 = conclusion (format.parse bytes).left ∧
      (decoder.finish signal state).2.trace.events = state.trace.events ++ [.ended signal] := by
  let left := (format.parse bytes).left
  have unread : state.retention.unread = left := reads.rests.unread_eq
  let position := state.retention.buffer.elim 0 Buffer.consumed
  let stage := state.beginEnding.note (.ending state.retention.unread.length)
  have again : format.parse left = { payloads := [], left } := format.parse_left bytes
  have ⟨outcome, unread', _, handed, grows, frames⟩ := readsOff uses left position 0 stage
  rw [again] at outcome unread' frames
  rw [List.map_eq_nil_iff.mp frames] at grows
  have ⟨total, done⟩ := Outcome.eq_done_of_map (outcome.trans (admission_eq_done_iff.mpr within))
  have finished := Decoder.finish_of_silent uses.steady reads.runs
    (unread ▸ decoder.rounds_pass left position 0 stage) done grows (fun last _ _ => by
      have ⟨after, concluded, events⟩ := conclude_left uses within last
      rw [unread']
      exact ⟨after, concluded, events.trans (List.append_nil _).symm⟩) signal
  rwa [List.append_nil] at finished

end Reads

-- Where something announces too much, the delivery fails that completes its header; the bytes before
-- the header are as good as ever.
theorem feedEach_parse {decoder : Decoder Unit Bytes FramingError μ}
    (uses : decoder.Uses format.strategy) (deliveries : List (Bytes × Source)) (signal : EndSignal) :
    let parsed := format.parse (Decoder.delivered deliveries)
    let start  := (Decoder.delivered deliveries).length - parsed.left.length
    let fed    := decoder.feedEach deliveries (.initial ())
    fed.2.trace.events.map Event.frame? = parsed.payloads.map some ∧
    (∀ size, format.excess? parsed.left = some size →
      fed.1 = .failed (.strategy (.oversized size format.limit)) ∧
      parsed.left.take headerSize <+: fed.2.retention.unread ∧
      ∃ before chunk source after, deliveries = before ++ (chunk, source) :: after ∧
        (Decoder.delivered before).length < start + headerSize ∧
        start + headerSize ≤ (Decoder.delivered before).length + chunk.length ∧
        (decoder.feedEach before (.initial ())).1 = .done () ∧
        fed = decoder.feed chunk source (decoder.feedEach before (.initial ())).2) ∧
    (format.excess? parsed.left = none →
      fed.1 = .done () ∧ (decoder.finish signal fed.2).1 = conclusion parsed.left ∧
      (decoder.finish signal fed.2).2.trace.events = fed.2.trace.events ++ [.ended signal]) := by
  have initial := initial_reads (μ := μ) format
  have nothing : format.excess? (format.parse []).left = none := by
    rw [parse_of_partialHeader rfl]
    rfl
  intro parsed start fed
  by_cases done : fed.1 = .done ()
  case pos =>
    have ⟨reads, within⟩ := initial.feedEach uses nothing deliveries done
    refine ⟨reads.frames, fun size excess => ?_, fun _ => ⟨done, reads.finish uses within signal⟩⟩
    exact absurd (within.symm.trans excess) nofun
  case neg =>
    have ⟨before, chunk, source, after, split, done', eq⟩ := Decoder.feedEach_broken done
    have ⟨reads, within⟩ := initial.feedEach uses nothing before done'
    rw [List.nil_append] at reads within
    have ⟨reads', _⟩ := reads.feed uses within chunk source
    have ⟨size, excess, outcome⟩ := reads.feed_broken uses within fun done' =>
      done ((congrArg Prod.fst eq).trans done')
    let left := (format.parse (Decoder.delivered before ++ chunk)).left
    have header  := headerSize_le_of_announced (excess?_eq_some_iff.mp excess).1
    have recent  := excess_recent within excess
    have suffix  := (format.parse_left_suffix (Decoder.delivered before ++ chunk)).length_le
    have bytes   : Decoder.delivered deliveries =
        Decoder.delivered before ++ chunk ++ Decoder.delivered after := by
      rw [split]
      simp
    have parsed_eq : parsed =
        { payloads := (format.parse (Decoder.delivered before ++ chunk)).payloads
          left     := left ++ Decoder.delivered after } := by
      simp only [parsed]
      rw [bytes, parse_append_of_excess excess]
    have exceeds := excess?_append excess (Decoder.delivered after)
    rw [show fed = _ from eq, parsed_eq]
    refine ⟨reads'.frames, fun size' excess' => ?_, fun within' => ?_⟩
    · cases exceeds.symm.trans excess'
      refine ⟨outcome, ?_, before, chunk, source, after, split, ?_, ?_, done', rfl⟩
      · rw [List.take_append_of_le_length header, reads'.rests.unread_eq]
        exact List.take_prefix ..
      all_goals
        simp only [start, parsed_eq, bytes, List.length_append, left] at *
        omega
    · exact absurd (exceeds.symm.trans within') nofun

-- A payload that arrives in three chunks, the last of which brings a header that announces too much.
theorem feedEach_parse_oversized :
    let format : LengthPrefixed := { limit := 4 }
    let decoder : Decoder Unit Bytes FramingError Unit :=
      { strategy := format.strategy, receiver := .collecting }
    let deliveries : List (Bytes × Source) :=
      [([0, 0], none), ([0, 2, 7], some "a"), ([8, 0, 0, 0, 9, 1], none)]
    let fed := decoder.feedEach deliveries (.initial ())
    decoder.Uses format.strategy ∧ fed.1 = .failed (.strategy (.oversized 9 4)) ∧
    fed.2.trace.events.map Event.frame? = [some [7, 8]] ∧
    [0, 0, 0, 9] <+: fed.2.retention.unread := by
  intro format decoder deliveries fed
  have uses : decoder.Uses format.strategy := ⟨rfl, Receiver.collecting_steady⟩
  have parsed : format.parse (Decoder.delivered deliveries) =
      { payloads := [[7, 8]], left := [0, 0, 0, 9, 1] } := by
    decide +kernel
  have ⟨frames, exceeds, _⟩ := feedEach_parse uses deliveries .closed
  rw [parsed] at frames exceeds
  have ⟨failed, header, _⟩ := exceeds 9 (by decide +kernel)
  exact ⟨uses, failed, frames, header⟩

end Decoding

end LengthPrefixed
end Framing
