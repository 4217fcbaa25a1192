import Framing.Proofs.Delimited.Pass
import Framing.Proofs.Run

/-!
Deliveries of delimited frames within the limit. Whether all of them are found depends on where the
deliveries end: the size of a frame that is cut off counts the part of its delimiter that is there.
-/

namespace Framing
namespace Delimited

open Decoder (Stage Pass State)

variable {μ : Type} {format : Delimited} {decoder : Decoder Bool Bytes FramingError μ}
variable {pass : Pass Bool Bytes FramingError μ}
variable {state : State Bool Bytes FramingError μ} {chunk : Bytes} {source : Source}
variable {result : Outcome (DecodeError FramingError) Unit × State Bool Bytes FramingError μ}

-- A call that went well, which found frames and left the strategy `skipping` or not.
structure Delivers (format : Delimited) (found : List Bytes) (skipping : Bool)
    (state : State Bool Bytes FramingError μ)
    (result : Outcome (DecodeError FramingError) Unit × State Bool Bytes FramingError μ) : Prop where
  done          : result.1 = .done ()
  runs          : result.2.ended = false
  rests         : result.2.retention.Rests result.2.retention.unread
  strategyState : result.2.strategyState = skipping
  frames        : result.2.trace.events.map Event.frame? =
    state.trace.events.map Event.frame? ++ found.map fun frame => some (format.shape frame)

-- A delivery that brings more of `frames`.
def FeedProceeds (format : Delimited) (frames : List Bytes) (received : Nat) (rest : Bytes)
    (state : State Bool Bytes FramingError μ)
    (result : Outcome (DecodeError FramingError) Unit × State Bool Bytes FramingError μ) : Prop :=
  format.Proceeds frames received result.2.retention.unread rest result.1
    fun found skipping => format.Delivers found skipping state result

theorem Passed.delivers (fed : decoder.Fed chunk source state pass result)
    {found : List Bytes} {skipping : Bool} {merging : List Activity}
    (passed : format.Passed found skipping ((state.toStage.hearing source).act merging) pass) :
    format.Delivers found skipping state result ∧ result.2.retention.unread = pass.unread := by
  have ⟨⟨_, _, grows, frames⟩, done, strategyState⟩ := passed
  have ⟨_, stage⟩ := fed.stage
  have ⟨_, total⟩ := Outcome.eq_done_of_map done
  have rests := fed.rests (by rw [total]; rfl)
  have unread := rests.unread_eq
  refine ⟨⟨fed.outcome.trans done, fed.ended, unread.symm ▸ rests, ?_, ?_⟩, unread⟩
  · rw [stage]
    exact strategyState
  · rw [(fed.grows grows).events, List.map_append, frames]

theorem PassProceeds.feed (fed : decoder.Fed chunk source state pass result) {frames : List Bytes}
    {received : Nat} {rest : Bytes} {merging : List Activity}
    (proceeds : format.PassProceeds frames received rest
      ((state.toStage.hearing source).act merging) pass) :
    format.FeedProceeds frames received rest state result := by
  cases proceeds
  case fresh split passed fresh =>
    have ⟨delivers, unread⟩ := passed.delivers fed
    exact .fresh split delivers (unread.symm ▸ fresh)
  case lost split late passed lost =>
    have ⟨delivers, unread⟩ := passed.delivers fed
    exact .lost split late delivers (unread.symm ▸ lost)
  case broken late broken =>
    exact .broken late (fed.outcome.symm ▸ broken)

-- A decoder to which `rest` is still to be delivered, and which may still find `due`.
structure Follows (format : Delimited) (rest : Bytes) (due : List Bytes)
    (state : State Bool Bytes FramingError μ) : Prop where
  runs  : state.ended = false
  rests : state.retention.Rests state.retention.unread
  stage : (state.strategyState = false ∧ format.Fresh state.retention.unread rest due) ∨
    (state.strategyState = true ∧ format.Lost state.retention.unread rest due)

theorem Delivers.events {found : List Bytes} {skipping : Bool}
    (delivers : format.Delivers found skipping state result) :
    result.2.trace.events.length = state.trace.events.length + found.length := by
  simpa using congrArg List.length delivers.frames

-- A delivery finds frames that were due, and each only once.
theorem FeedProceeds.follows {rest : Bytes} {due : List Bytes} {received : Nat}
    (done : result.1 = .done ())
    (proceeds : format.FeedProceeds due received rest state result) :
    ∃ later, format.Follows rest later result.2 ∧
      result.2.trace.events.length + later.length ≤ state.trace.events.length + due.length := by
  cases proceeds
  case fresh later split delivers fresh =>
    refine ⟨later, ⟨delivers.runs, delivers.rests, .inl ⟨delivers.strategyState, fresh⟩⟩, ?_⟩
    rw [split, List.length_append, delivers.events]
    omega
  case lost later split _ delivers lost =>
    refine ⟨later, ⟨delivers.runs, delivers.rests, .inr ⟨delivers.strategyState, lost⟩⟩, ?_⟩
    rw [split, List.length_append, List.length_cons, delivers.events]
    omega
  case broken broken => exact absurd done broken

section Uses

variable (uses : decoder.Uses format.strategy) {rest : Bytes} {due : List Bytes}
include uses

theorem feed_of_fresh (nonempty : chunk ≠ []) (source : Source) (runs : state.ended = false)
    (rests : state.retention.Rests state.retention.unread)
    (strategyState : state.strategyState = false)
    (fresh : format.Fresh state.retention.unread (chunk ++ rest) due) :
    format.FeedProceeds due (state.retention.unread.length + chunk.length) rest state
      (decoder.feed chunk source state) := by
  have ⟨pass, fed⟩ := decoder.feed_fed nonempty source runs rests.sound
  have ⟨position, merging, rounds⟩ := fed.rounds
  have bytes := fresh.bytes
  rw [← List.append_assoc] at bytes
  have proceeds (stage : Stage Bool Bytes FramingError μ) (h : stage.strategyState = false) :=
    pass_proceeds uses fresh.legal bytes h position 0
  have proceeds := proceeds ((state.toStage.hearing source).act merging) strategyState
  rw [rounds.eq_pass, List.length_append] at proceeds
  exact proceeds.feed fed

theorem feed_of_lost (nonempty : chunk ≠ []) (source : Source) (runs : state.ended = false)
    (rests : state.retention.Rests state.retention.unread)
    (strategyState : state.strategyState = true)
    (lost : format.Lost state.retention.unread (chunk ++ rest) due) :
    (format.Delivers [] true state (decoder.feed chunk source state) ∧
      format.Lost (decoder.feed chunk source state).2.retention.unread rest due) ∨
    ∃ received, format.FeedProceeds due received rest state (decoder.feed chunk source state) := by
  have ⟨pass, fed⟩ := decoder.feed_fed nonempty source runs rests.sound
  have ⟨position, merging, rounds⟩ := fed.rounds
  have lost : format.Lost (state.retention.unread ++ chunk) rest due :=
    { lost with bytes := by simpa only [List.append_assoc] using lost.bytes }
  have proceeds (stage : Stage Bool Bytes FramingError μ) (h : stage.strategyState = true) :=
    pass_of_lost uses lost h position 0
  have proceeds := proceeds ((state.toStage.hearing source).act merging) strategyState
  rw [rounds.eq_pass] at proceeds
  cases proceeds
  case inl still =>
    have ⟨delivers, unread⟩ := still.1.delivers fed
    exact .inl ⟨delivers, unread.symm ▸ still.2⟩
  case inr proceeds =>
    have ⟨received, proceeds⟩ := proceeds
    exact .inr ⟨received, proceeds.feed fed⟩

theorem Follows.feed (follows : format.Follows (chunk ++ rest) due state)
    (done : (decoder.feed chunk source state).1 = .done ()) :
    ∃ later, format.Follows rest later (decoder.feed chunk source state).2 ∧
      (decoder.feed chunk source state).2.trace.events.length + later.length ≤
        state.trace.events.length + due.length := by
  obtain ⟨runs, rests, stage⟩ := follows
  by_cases nonempty : chunk = []
  case pos =>
    subst nonempty
    refine ⟨due, ⟨runs, rests, stage⟩, ?_⟩
    simp [Decoder.feed_nil, State.note, Stage.note]
  case neg =>
    cases stage
    case inl stage =>
      exact (feed_of_fresh uses nonempty source runs rests stage.1 stage.2).follows done
    case inr stage =>
      cases feed_of_lost uses nonempty source runs rests stage.1 stage.2
      case inl still =>
        obtain ⟨delivers, lost⟩ := still
        refine ⟨due, ⟨delivers.runs, delivers.rests, .inr ⟨delivers.strategyState, lost⟩⟩, ?_⟩
        simp [delivers.events]
      case inr resumed =>
        obtain ⟨_, resumed⟩ := resumed
        exact resumed.follows done

-- Whatever is lost, no more is found than was due.
theorem Follows.feedEach {deliveries : List (Bytes × Source)}
    (follows : format.Follows (Decoder.delivered deliveries) due state)
    (done : (decoder.feedEach deliveries state).1 = .done ()) :
    (decoder.feedEach deliveries state).2.trace.events.length ≤
      state.trace.events.length + due.length := by
  induction deliveries generalizing state due
  case nil => exact Nat.le_add_right ..
  case cons delivery deliveries ih =>
    have ⟨chunk, source⟩ := delivery
    by_cases went : (decoder.feed chunk source state).1 = .done ()
    case pos =>
      rw [Decoder.feedEach_cons_of_done went] at done ⊢
      have ⟨_, follows, le⟩ := Follows.feed uses follows went
      exact Nat.le_trans (ih follows done) le
    case neg =>
      rw [Decoder.feedEach_cons_of_ne went] at done
      exact absurd done went

end Uses

-- A run that goes well, finds `frames` and nothing else, and leaves nothing behind.
structure Recovers (format : Delimited) (frames : List Bytes)
    (state : State Bool Bytes FramingError μ)
    (result : Outcome (DecodeError FramingError) Unit × State Bool Bytes FramingError μ) : Prop where
  done   : result.1 = .done ()
  frames : result.2.trace.events.map Event.frame? =
    state.trace.events.map Event.frame? ++ frames.map fun frame => some (format.shape frame)
  buffer : result.2.retention.buffer = none

-- What is `found` already need not be found again.
theorem recovers_append_iff {found due : List Bytes} {next : State Bool Bytes FramingError μ}
    (frames : next.trace.events.map Event.frame? =
      state.trace.events.map Event.frame? ++ found.map fun frame => some (format.shape frame)) :
    format.Recovers (found ++ due) state result ↔ format.Recovers due next result := by
  constructor
  all_goals
    rintro ⟨done, all, buffer⟩
    refine ⟨done, ?_, buffer⟩
    simpa [frames] using all

-- No delivery ends where more than the limit is pending, `received` bytes of `frames` being there
-- before the first of them.
def Timely (format : Delimited) (frames : List Bytes) (received : Nat)
    (deliveries : List (Bytes × Source)) : Prop :=
  ∀ before, before <+: deliveries →
    format.pending frames (received + (Decoder.delivered before).length) ≤ format.limit

section Timely

variable {due : List Bytes} {received : Nat} {deliveries : List (Bytes × Source)}

theorem Timely.here (timely : format.Timely due received deliveries) :
    format.pending due received ≤ format.limit :=
  timely [] List.nil_prefix

theorem timely_nil_iff :
    format.Timely due received [] ↔ format.pending due received ≤ format.limit := by
  simp [Timely, Decoder.delivered]

theorem timely_cons_iff : format.Timely due received ((chunk, source) :: deliveries) ↔
    format.pending due received ≤ format.limit ∧
      format.Timely due (received + chunk.length) deliveries := by
  constructor
  case mp =>
    intro timely
    refine ⟨timely.here, fun before prefixed => ?_⟩
    have le := timely ((chunk, source) :: before) (List.cons_prefix_cons.mpr ⟨rfl, prefixed⟩)
    rwa [Decoder.delivered_cons, List.length_append, ← Nat.add_assoc] at le
  case mpr =>
    rintro ⟨here, later⟩ before prefixed
    cases before
    case nil => exact here
    case cons delivery before =>
      have ⟨first, tail⟩ := List.cons_prefix_cons.mp prefixed
      subst first
      rw [Decoder.delivered_cons, List.length_append, ← Nat.add_assoc]
      exact later before tail

theorem timely_append_iff (found : List Bytes) :
    format.Timely (found ++ due) ((format.encode found).length + received) deliveries ↔
      format.Timely due received deliveries := by
  simp only [Timely, Nat.add_assoc, pending_append]

-- Frames that leave room for all of the delimiter but its last byte may be cut anywhere.
theorem timely_of_room (room : ∀ frame ∈ due,
    frame.length + format.delimiter.length ≤ format.limit + 1) :
    format.Timely due received deliveries := by
  intro before _
  generalize received + (Decoder.delivered before).length = count
  induction due generalizing count
  case nil => exact Nat.zero_le _
  case cons frame due ih =>
    have ⟨here, later⟩ := List.forall_mem_cons.mp room
    simp only [pending]
    split
    case isTrue  => exact ih later _
    case isFalse => omega

end Timely

theorem not_recovers_of_lost (uses : decoder.Uses format.strategy) {found later : List Bytes}
    {lost : Bytes} {deliveries : List (Bytes × Source)}
    (delivers : format.Delivers found true state (decoder.feed chunk source state))
    (follows : format.Follows (Decoder.delivered deliveries) later
      (decoder.feed chunk source state).2) :
    ¬format.Recovers (found ++ lost :: later) state
      (decoder.feedEach ((chunk, source) :: deliveries) state) := by
  rw [Decoder.feedEach_cons_of_done delivers.done]
  intro recovers
  have le := follows.feedEach uses recovers.done
  have all := congrArg List.length recovers.frames
  simp only [List.length_map, List.length_append, List.length_cons, delivers.events] at all le
  omega

-- By induction on the deliveries: up to the first that ends late, each leaves the decoder such that
-- no frame is lost.
theorem recovers_iff_timely (uses : decoder.Uses format.strategy) {due : List Bytes}
    {deliveries : List (Bytes × Source)} (runs : state.ended = false)
    (rests : state.retention.Rests state.retention.unread)
    (strategyState : state.strategyState = false)
    (fresh : format.Fresh state.retention.unread (Decoder.delivered deliveries) due) :
    format.Recovers due state (decoder.feedEach deliveries state) ↔
      format.Timely due state.retention.unread.length deliveries := by
  induction deliveries generalizing state due
  case nil =>
    obtain ⟨nothing, empty⟩ := fresh.of_exhausted
    subst nothing
    have recovers : format.Recovers [] state (decoder.feedEach [] state) :=
      ⟨rfl, by simp [Decoder.feedEach], rests.buffer_eq_none_iff.mpr empty⟩
    exact iff_of_true recovers (timely_nil_iff.mpr (Nat.zero_le _))
  case cons delivery deliveries ih =>
    obtain ⟨chunk, source⟩ := delivery
    have here : format.pending due state.retention.unread.length ≤ format.limit := by
      rw [fresh.pending_eq]
      exact fresh.within
    rw [timely_cons_iff, and_iff_right here]
    by_cases nonempty : chunk = []
    case pos =>
      subst nonempty
      let noted := state.note .emptyChunkIgnored
      have frames : noted.trace.events.map Event.frame? = state.trace.events.map Event.frame? ++
          ([] : List Bytes).map fun frame => some (format.shape frame) := by
        simp [noted, State.note, Stage.note]
      rw [Decoder.feedEach_cons_of_done rfl, Decoder.feed_nil, ← List.nil_append due,
        recovers_append_iff frames]
      exact ih runs rests strategyState fresh
    case neg =>
      have proceeds : format.FeedProceeds due (state.retention.unread.length + chunk.length)
          (Decoder.delivered deliveries) state (decoder.feed chunk source state) :=
        feed_of_fresh uses nonempty source runs rests strategyState fresh
      cases proceeds
      case fresh found later split delivers fresh' =>
        subst split
        rw [Decoder.feedEach_cons_of_done delivers.done, fresh.length_add_eq fresh',
          recovers_append_iff delivers.frames, timely_append_iff]
        exact ih delivers.runs delivers.rests delivers.strategyState fresh'
      case lost found lost later split late delivers lost' =>
        have follows : format.Follows (Decoder.delivered deliveries) later
            (decoder.feed chunk source state).2 :=
          ⟨delivers.runs, delivers.rests, .inr ⟨delivers.strategyState, lost'⟩⟩
        subst split
        exact iff_of_false (not_recovers_of_lost uses delivers follows)
          fun timely => Nat.not_le_of_lt late timely.here
      case broken late broken =>
        refine iff_of_false (fun recovers => ?_) fun timely => Nat.not_le_of_lt late timely.here
        have done := recovers.done
        rw [Decoder.feedEach_cons_of_ne broken] at done
        exact broken done

-- All of the frames are found, and nothing else is, if and only if no delivery ends where more than
-- the limit is pending. That may be so of a frame within the limit, when it is cut off in the middle
-- of its delimiter.
theorem feedEach_recovers_iff (uses : decoder.Uses format.strategy) {frames : List Bytes}
    (legal : ∀ frame ∈ frames, format.Legal frame) {deliveries : List (Bytes × Source)}
    (split : Decoder.delivered deliveries = format.encode frames) :
    let fed := decoder.feedEach deliveries (.initial false)
    (fed.1 = .done () ∧
      fed.2.trace.events.map Event.frame? = (frames.map fun frame => some (format.shape frame)) ∧
      fed.2.retention.buffer = none) ↔
    ∀ before, before <+: deliveries →
      format.pending frames (Decoder.delivered before).length ≤ format.limit := by
  intro fed
  let initial : State Bool Bytes FramingError μ := .initial false
  have fresh : format.Fresh initial.retention.unread (Decoder.delivered deliveries) frames := by
    refine ⟨legal, split, fun _ _ _ => ?_, Nat.zero_le _⟩
    exact Nat.add_pos_right _ (List.length_pos_iff.mpr format.delimiter_ne_nil)
  have rests : initial.retention.Rests initial.retention.unread := Retention.initial_rests
  have recovers := recovers_iff_timely uses rfl rests rfl fresh
  have timely : format.Timely frames initial.retention.unread.length deliveries ↔
      ∀ before, before <+: deliveries →
        format.pending frames (Decoder.delivered before).length ≤ format.limit := by
    simp [Timely, initial, State.initial, Retention.unread]
  rw [← timely, ← recovers]
  constructor
  all_goals
    rintro ⟨done, all, buffer⟩
    exact ⟨done, all, buffer⟩

-- A delimiter that is cut in two behind a frame with a byte to spare, and one behind a frame with
-- none that is not.
theorem feedEach_recovers_of_room :
    let format : Delimited := { delimiter := [13, 10], delimiter_ne_nil := nofun, limit := 3 }
    let decoder : Decoder Bool Bytes FramingError Unit :=
      { strategy := format.strategy, receiver := .collecting }
    let deliveries : List (Bytes × Source) :=
      [([97], none), ([98, 13], none), ([10, 99, 100], some "a"), ([101], none), ([13, 10], none)]
    let fed := decoder.feedEach deliveries (.initial false)
    decoder.Uses format.strategy ∧ (∀ frame ∈ [[97, 98], [99, 100, 101]], format.Legal frame) ∧
    Decoder.delivered deliveries = format.encode [[97, 98], [99, 100, 101]] ∧
    fed.1 = .done () ∧
    fed.2.trace.events.map Event.frame? = [some [97, 98], some [99, 100, 101]] ∧
    fed.2.retention.buffer = none := by
  intro format decoder deliveries fed
  have uses : decoder.Uses format.strategy := ⟨rfl, Receiver.collecting_steady⟩
  have legal : ∀ frame ∈ [[97, 98], [99, 100, 101]], format.Legal frame := by
    simp only [List.forall_mem_cons]
    exact ⟨⟨by decide, by decide⟩, ⟨by decide, by decide⟩, nofun⟩
  have split : Decoder.delivered deliveries = format.encode [[97, 98], [99, 100, 101]] := by decide
  have timely : ∀ before ∈ deliveries.inits,
      format.pending [[97, 98], [99, 100, 101]] (Decoder.delivered before).length ≤ format.limit := by
    decide
  have recovers := (feedEach_recovers_iff uses legal split).mpr fun before prefixed =>
    timely before ((List.mem_inits _ _).mpr prefixed)
  exact ⟨uses, legal, split, recovers⟩

-- Where a frame has no byte to spare, the first byte of its delimiter counts as one too many.
theorem feedEach_oversized_of_cut :
    let format : Delimited := { delimiter := [13, 10], delimiter_ne_nil := nofun, limit := 3 }
    let decoder : Decoder Bool Bytes FramingError Unit :=
      { strategy := format.strategy, receiver := .collecting }
    let deliveries : List (Bytes × Source) := [([97, 98, 99, 13], none), ([10], none)]
    let fed := decoder.feedEach deliveries (.initial false)
    decoder.Uses format.strategy ∧ (∀ frame ∈ [[97, 98, 99]], format.Legal frame) ∧
    Decoder.delivered deliveries = format.encode [[97, 98, 99]] ∧
    fed.1 = .failed (.strategy (.oversized 4 3)) ∧ fed.2.trace.events = [] := by
  intro format decoder deliveries fed
  have uses : decoder.Uses format.strategy := ⟨rfl, Receiver.collecting_steady⟩
  have legal : ∀ frame ∈ [[97, 98, 99]], format.Legal frame := by
    simp only [List.forall_mem_singleton]
    exact ⟨by decide, by decide⟩
  have split : Decoder.delivered deliveries = format.encode [[97, 98, 99]] := by decide
  exact ⟨uses, legal, split, by decide +kernel, by decide +kernel⟩

end Delimited
end Framing
