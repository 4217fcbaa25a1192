import Framing.Decoder.Consuming
import Framing.Proofs.Lifecycle
import Framing.Strategy.Elementary

/-!
Transports that are consumed. A decoder comes to what feeding it the chunks by hand and then ending
the stream makes of it, and the stream ends exactly once, whatever brings that about.
-/

namespace Framing

namespace Transport

-- The item that a poll for a chunk has come to, if it has come to one.
def item? : Option (Option (Except TransportError Bytes)) → Option Item
  | none                       => some .pending
  | some none                  => none
  | some (some (.ok bytes))    => some (.data bytes)
  | some (some (.error error)) => some (.error error)

-- The chunk that the item brings.
def Item.chunk? : Item → Option Bytes
  | data bytes => some bytes
  | _          => none

-- Whether the item says nothing about the end.
def Item.isQuiet : Item → Bool
  | data _ | pending => true
  | _                => false

-- The chunks that items bring, in order.
def chunks (items : List Item) : List Bytes :=
  items.filterMap Item.chunk?

-- A poll for a chunk takes the requests for the end that are in front, and one item more if there is
-- one.
theorem next_splits (items : List Item) :
    let poll := next items
    ∃ count, poll.cancelled = decide (0 < count) ∧
      items = List.replicate count .cancel ++ ((item? poll.ready).toList ++ poll.left) ∧
      (poll.ready = some none → poll.left = []) := by
  induction items
  case nil => exact ⟨0, rfl, rfl, fun _ => rfl⟩
  case cons item items ih =>
    cases item
    case data | error | pending => exact ⟨0, rfl, rfl, nofun⟩
    case cancel =>
      have ⟨count, _, split, finished⟩ := ih
      have requested : true = decide (0 < count + 1) := (decide_eq_true count.succ_pos).symm
      exact ⟨count + 1, requested, congrArg (.cancel :: ·) split, finished⟩

theorem next_popped {items : List Item} {item : Item}
    (popped : item? (next items).ready = some item) :
    ∃ count, (next items).cancelled = decide (0 < count) ∧
      items = List.replicate count .cancel ++ item :: (next items).left := by
  have ⟨count, requested, split, _⟩ := next_splits items
  rw [popped] at split
  exact ⟨count, requested, split⟩

theorem next_finished {items : List Item} (came : (next items).ready = some none) :
    ∃ count, items = List.replicate count .cancel ∧ (next items).left = [] := by
  have ⟨count, _, split, finished⟩ := next_splits items
  rw [came, finished came] at split
  exact ⟨count, split.trans (List.append_nil _), finished came⟩

end Transport

namespace Decoder

open Transport (Item chunks)

variable {σ φ ε μ : Type}

section Ends

variable {s₁ s₂ s₃ : Stage σ φ ε μ} {last : Nat} {signal : EndSignal}

-- From `before` on there was some decoding, and at the very end the stream was ended.
def Stage.Ends (signal : EndSignal) (before after : Stage σ φ ε μ) : Prop :=
  ∃ decoded, (∀ event ∈ decoded, event.isDecoded) ∧
    after.trace.events = before.trace.events ++ decoded ++ [.ended signal]

theorem Stage.Decodes.ends (decodes : Stage.Decodes last s₁ s₂) (ends : Stage.Ends signal s₂ s₃) :
    Stage.Ends signal s₁ s₃ :=
  have ⟨_, handed, grows, _, decoded⟩ := decodes
  have ⟨handed', decoded', events⟩ := ends
  ⟨handed ++ handed', List.forall_mem_append.mpr ⟨decoded, decoded'⟩,
    by simp [events, grows.events]⟩

theorem Stage.Ends.act (ends : Stage.Ends signal s₁ s₂) (activities : List Activity) :
    Stage.Ends signal s₁ (s₂.act activities) :=
  have ⟨handed, decoded, events⟩ := ends
  ⟨handed, decoded, by simp [events]⟩

theorem Stage.Grows.ends {made : List (Trace.Invoked φ ε)}
    (grows : Stage.Grows made [.ended signal] s₁ s₂) : Stage.Ends signal s₁ s₂ :=
  ⟨[], nofun, by simp [grows.events]⟩

end Ends

variable {decoder : Decoder σ φ ε μ} {source : Source} {state fed : State σ φ ε μ}

theorem finish_ends (signal : EndSignal) (state : State σ φ ε μ) :
    Stage.Ends signal state.toStage (decoder.finish signal state).2.toStage :=
  have ⟨_, decodes, grows⟩ := decoder.finish_decodes signal state
  decodes.ends grows.ends

theorem feedAll_singleton {chunk : Bytes}
    (went : decoder.feed chunk source state = (.done (), fed)) :
    decoder.feedAll source [chunk] state = (.done (), fed) := by
  simp only [feedAll, went]

theorem feedAll_append_of_done {before : List Bytes}
    (went : decoder.feedAll source before state = (.done (), fed)) (more : List Bytes) :
    decoder.feedAll source (before ++ more) state = decoder.feedAll source more fed := by
  induction before generalizing state
  case nil =>
    cases went
    rfl
  case cons chunk before ih =>
    simp only [List.cons_append, feedAll] at went ⊢
    split at went
    case h_1          => exact ih went
    case h_2 broken _ => exact (broken (congrArg Prod.fst went)).elim

theorem feedAll_decodes {chunks : List Bytes} {outcome : Outcome (DecodeError ε) Unit}
    (eq : decoder.feedAll source chunks state = (outcome, fed)) :
    Stage.Decodes 0 state.toStage fed.toStage := by
  induction chunks generalizing state
  case nil =>
    cases eq
    exact .refl _
  case cons chunk chunks ih =>
    have first := decoder.feed_decodes chunk source state
    rw [feedAll] at eq
    split at eq <;> simp only [*] at first
    case h_1 => exact first.trans (ih eq)
    case h_2 =>
      cases eq
      exact first

-- The state after a flush that a failure has led to. Should it fail, too, that only goes on record.
def State.flushed (source : Source) (outcome : Outcome (DecodeError ε) Unit)
    (state : State σ φ ε μ) : State σ φ ε μ :=
  match outcome with
  | .failed second => state.note (.flushFailedToo second.kind source)
  | _              => state

-- How `items` were consumed by a decoder in the state `before`, and the signal that it ended the
-- stream with. Unless the end had already been asked for, the chunks of the `quiet` items are fed,
-- all with success. The next poll, which may come past `count` requests for the end, finds that
-- there are no more items, or that the transport has failed, or a chunk that is rejected; or it has
-- seen to its item when the end turns out to have been asked for.
inductive Driven (decoder : Decoder σ φ ε μ) (source : Source) (before : State σ φ ε μ) :
    (cancelled : Bool) → List Item → EndSignal → Consumed σ φ ε μ → Prop
  | stopped {items outcome after}
    (finished : decoder.finish .closed (before.note (.transportClosing .closed source)) =
      (outcome, after)) :
    Driven decoder source before true items .closed
      { outcome := outcome.map fun _ => .closed, left := items, state := after }
  | exhausted {items quiet count fed outcome after}
    (split : items = quiet ++ List.replicate count .cancel)
    (calm : ∀ item ∈ quiet, item.isQuiet)
    (went : decoder.feedAll source (chunks quiet) before = (.done (), fed))
    (finished : decoder.finish .disconnected (fed.note (.transportClosing .disconnected source)) =
      (outcome, after)) :
    Driven decoder source before false items .disconnected
      { outcome := outcome.map fun _ => .disconnected, left := [], state := after }
  | cancelled {items quiet count item left fed outcome after}
    (split : items = quiet ++ (List.replicate (count + 1) .cancel ++ item :: left))
    (calm : ∀ item ∈ quiet, item.isQuiet)
    (last : item.isQuiet)
    (went : decoder.feedAll source (chunks (quiet ++ [item])) before = (.done (), fed))
    (finished : decoder.finish .closed (fed.note (.transportClosing .closed source)) =
      (outcome, after)) :
    Driven decoder source before false items .closed
      { outcome := outcome.map fun _ => .closed, left, state := after }
  | broken {items quiet count error left fed outcome after}
    (split : items = quiet ++ (List.replicate count .cancel ++ .error error :: left))
    (calm : ∀ item ∈ quiet, item.isQuiet)
    (went : decoder.feedAll source (chunks quiet) before = (.done (), fed))
    (finished : decoder.finish .disconnected (fed.note (.transportFailed source error)) =
      (outcome, after))
    (returns : outcome.returns) :
    Driven decoder source before false items .disconnected
      { outcome := .failed (.transport error), left, state := after.flushed source outcome }
  | rejected {items quiet count chunk left fed error failed discarded after}
    (split : items = quiet ++ (List.replicate count .cancel ++ .data chunk :: left))
    (calm : ∀ item ∈ quiet, item.isQuiet)
    (went : decoder.feedAll source (chunks quiet) before = (.done (), fed))
    (rejects : decoder.feed chunk source fed = (.failed error, failed))
    (aborted : decoder.abort .closed failed = (.done discarded, after))
    (silent : after.trace.invocations = failed.trace.invocations) :
    Driven decoder source before false items .closed
      { outcome := .failed error, left
        state   := after.note (.abortedAfterFailure source discarded) }

namespace Driven

variable {before next : State σ φ ε μ} {cancelled : Bool} {items : List Item} {signal : EndSignal}
variable {consumed : Consumed σ φ ε μ}

theorem ends (driven : decoder.Driven source before cancelled items signal consumed) :
    Stage.Ends signal before.toStage consumed.state.toStage := by
  have finish {fed after : State σ φ ε μ} {chunks : List Bytes} {notice : Notice}
      {signal : EndSignal} {outcome : Outcome (DecodeError ε) Unit}
      (went : decoder.feedAll source chunks before = (.done (), fed))
      (finished : decoder.finish signal (fed.note notice) = (outcome, after)) :
      Stage.Ends signal before.toStage after.toStage := by
    have ends := decoder.finish_ends signal (fed.note notice)
    rw [finished] at ends
    exact ((feedAll_decodes went).act [.noted notice]).ends ends
  have unfed : decoder.feedAll source [] before = (.done (), before) := rfl
  cases driven
  case stopped finished          => exact finish unfed finished
  case exhausted went finished _ => exact finish went finished
  case cancelled went finished _ => exact finish went finished
  case broken outcome _ _ went finished returns _ =>
    have ends := finish went finished
    cases outcome
    case done    => exact ends
    case failed  => exact ends.act _
    case faulted => cases returns
  case rejected chunk _ fed _ failed _ _ _ went rejects aborted _ _ =>
    have decodes := decoder.feed_decodes chunk source fed
    have grows   := decoder.abort_grows .closed failed
    rw [rejects] at decodes
    rw [aborted] at grows
    exact (((feedAll_decodes went).trans decodes).ends grows.ends).act _

-- An item that says nothing about the end may come first.
theorem cons {first : Item} (quiet : first.isQuiet)
    (fed : decoder.feedAll source (chunks [first]) before = (.done (), next))
    (driven : decoder.Driven source next false items signal consumed) :
    decoder.Driven source before false (first :: items) signal consumed := by
  have calms {quiets : List Item} (calm : ∀ item ∈ quiets, item.isQuiet) :
      ∀ item ∈ first :: quiets, item.isQuiet := List.forall_mem_cons.mpr ⟨quiet, calm⟩
  have goes {quiets : List Item} {after : State σ φ ε μ}
      (went : decoder.feedAll source (chunks quiets) next = (.done (), after)) :
      decoder.feedAll source (chunks (first :: quiets)) before = (.done (), after) := by
    have split : chunks (first :: quiets) = chunks [first] ++ chunks quiets :=
      List.filterMap_append (l := [first])
    rw [split, feedAll_append_of_done fed, went]
  cases driven
  case exhausted calm went finished split =>
    subst split
    exact .exhausted (List.cons_append ..).symm (calms calm) (goes went) finished
  case cancelled calm last went finished split =>
    subst split
    exact .cancelled (List.cons_append ..).symm (calms calm) last (goes went) finished
  case broken calm went finished returns split =>
    subst split
    exact .broken (List.cons_append ..).symm (calms calm) (goes went) finished returns
  case rejected calm went rejects aborted silent split =>
    subst split
    exact .rejected (List.cons_append ..).symm (calms calm) (goes went) rejects aborted silent

-- Where the end was asked for in front of an item that says nothing about it, that is the last.
theorem of_stopped {count : Nat} {item : Item} (quiet : item.isQuiet)
    (fed : decoder.feedAll source (chunks [item]) before = (.done (), next))
    (driven : decoder.Driven source next true items signal consumed) :
    decoder.Driven source before false (List.replicate (count + 1) .cancel ++ item :: items) signal
      consumed := by
  cases driven
  case stopped finished =>
    exact .cancelled (List.nil_append _).symm nofun quiet fed finished

-- Behind an item that says nothing about the end it matters whether that was asked for before it.
theorem of_polled {count : Nat} {item : Item} (quiet : item.isQuiet)
    (fed : decoder.feedAll source (chunks [item]) before = (.done (), next))
    (driven : decoder.Driven source next (decide (0 < count)) items signal consumed) :
    decoder.Driven source before false (List.replicate count .cancel ++ item :: items) signal
      consumed := by
  cases count
  case zero => exact driven.cons quiet fed
  case succ => exact driven.of_stopped quiet fed

end Driven

theorem State.flushed_events (source : Source) (outcome : Outcome (DecodeError ε) Unit)
    (state : State σ φ ε μ) : (state.flushed source outcome).trace.events = state.trace.events := by
  cases outcome
  case failed         => simp [flushed, note, Stage.note]
  case done | faulted => rfl

theorem closeAfter_of_finish {error : TransportError} {outcome : Outcome (DecodeError ε) Unit}
    {after : State σ φ ε μ}
    (finished : decoder.finish .disconnected (state.note (.transportFailed source error)) =
      (outcome, after))
    (returns : outcome.returns) :
    decoder.closeAfter source error state =
      (.failed (.transport error), after.flushed source outcome) := by
  simp only [closeAfter, finished]
  cases outcome
  case done | failed => rfl
  case faulted       => cases returns

-- Unless ending the stream is cut short by a fault, the error of the transport is what counts.
theorem closeAfter_of_returns {error : TransportError}
    (returns : (decoder.closeAfter source error state).1.returns) :
    ∃ outcome after,
      decoder.finish .disconnected (state.note (.transportFailed source error)) =
        (outcome, after) ∧ outcome.returns ∧
      decoder.closeAfter source error state =
        (.failed (.transport error), after.flushed source outcome) := by
  rcases finished : decoder.finish .disconnected (state.note (.transportFailed source error)) with
    ⟨outcome, after⟩
  refine ⟨outcome, after, rfl, ?_⟩
  simp only [closeAfter, finished] at returns ⊢
  cases outcome
  case done | failed => exact ⟨rfl, rfl⟩
  case faulted       => cases returns

theorem abortAfter_of_returns {error : DecodeError ε}
    (returns : (decoder.abortAfter source error state).1.returns) :
    ∃ discarded after, decoder.abort .closed state = (.done discarded, after) ∧
      decoder.abortAfter source error state =
        (.failed error, after.note (.abortedAfterFailure source discarded)) := by
  have unfailing := decoder.abort_ne_failed .closed state
  rcases aborted : decoder.abort .closed state with ⟨outcome, after⟩
  rw [aborted] at unfailing
  simp only [abortAfter, aborted] at returns ⊢
  cases outcome
  case done discarded => exact ⟨discarded, after, rfl, rfl⟩
  case failed second  => exact absurd rfl (unfailing second)
  case faulted        => cases returns

section Polls

variable {items : List Item} {bytes : Bytes} {error : TransportError}

theorem consumeChunks_of_cancelled (items : List Item) (state : State σ φ ε μ) :
    decoder.consumeChunks source true items state =
      .ofEnd items (decoder.close source .closed state) := by
  rw [consumeChunks, if_pos rfl]

theorem consumeChunks_of_pending (came : (Transport.next items).ready = none) :
    decoder.consumeChunks source false items state =
      decoder.consumeChunks source (Transport.next items).cancelled (Transport.next items).left
        state := by
  rw [consumeChunks, if_neg Bool.false_ne_true]
  dsimp only
  split <;> simp_all

theorem consumeChunks_of_finished (came : (Transport.next items).ready = some none) :
    decoder.consumeChunks source false items state =
      .ofEnd (Transport.next items).left (decoder.close source .disconnected state) := by
  rw [consumeChunks, if_neg Bool.false_ne_true]
  dsimp only
  split <;> simp_all

theorem consumeChunks_of_failed (came : (Transport.next items).ready = some (some (.error error))) :
    decoder.consumeChunks source false items state =
      .ofEnd (Transport.next items).left (decoder.closeAfter source error state) := by
  rw [consumeChunks, if_neg Bool.false_ne_true]
  dsimp only
  split <;> simp_all

section Chunk

variable (came : (Transport.next items).ready = some (some (.ok bytes)))
include came

theorem consumeChunks_of_fed (went : decoder.feed bytes source state = (.done (), fed)) :
    decoder.consumeChunks source false items state =
      decoder.consumeChunks source (Transport.next items).cancelled (Transport.next items).left
        fed := by
  rw [consumeChunks, if_neg Bool.false_ne_true]
  dsimp only
  split <;> simp_all

theorem consumeChunks_of_rejected {error : DecodeError ε}
    (rejects : decoder.feed bytes source state = (.failed error, fed)) :
    decoder.consumeChunks source false items state =
      .ofEnd (Transport.next items).left (decoder.abortAfter source error fed) := by
  rw [consumeChunks, if_neg Bool.false_ne_true]
  dsimp only
  split <;> simp_all

theorem consumeChunks_of_faulted {fault : Fault}
    (faulted : decoder.feed bytes source state = (.faulted fault, fed)) :
    decoder.consumeChunks source false items state =
      { outcome := .faulted fault, left := (Transport.next items).left, state := fed } := by
  rw [consumeChunks, if_neg Bool.false_ne_true]
  dsimp only
  split <;> simp_all

end Chunk
end Polls

theorem driven_consumeChunks (cancelled : Bool) (items : List Item) (before : State σ φ ε μ)
    (returns : (decoder.consumeChunks source cancelled items before).outcome.returns) :
    ∃ signal, decoder.Driven source before cancelled items signal
      (decoder.consumeChunks source cancelled items before) := by
  fun_induction decoder.consumeChunks source cancelled items before
  case case1 => exact ⟨.closed, .stopped rfl⟩
  all_goals cases eq_false_of_ne_true ‹_›
  case case2 items _ poll pending ih _ =>
    have ⟨signal, driven⟩ := ih returns
    have ⟨count, requested, split⟩ : ∃ count, poll.cancelled = decide (0 < count) ∧
      items = List.replicate count .cancel ++ .pending :: poll.left :=
      Transport.next_popped (congrArg Transport.item? pending)
    rw [requested] at driven ⊢
    rw [split]
    exact ⟨signal, driven.of_polled rfl rfl⟩
  case case3 items _ poll finished _ =>
    have ⟨count, split, empty⟩ : ∃ count, items = List.replicate count .cancel ∧ poll.left = [] :=
      Transport.next_finished finished
    rw [split, empty]
    exact ⟨.disconnected, .exhausted (List.nil_append _).symm nofun rfl rfl⟩
  case case4 items before poll bytes chunk _ fed went ih _ =>
    have ⟨signal, driven⟩ := ih returns
    have ⟨count, requested, split⟩ : ∃ count, poll.cancelled = decide (0 < count) ∧
      items = List.replicate count .cancel ++ .data bytes :: poll.left :=
      Transport.next_popped (congrArg Transport.item? chunk)
    rw [requested] at driven ⊢
    rw [split]
    exact ⟨signal, driven.of_polled rfl (feedAll_singleton went)⟩
  case case5 items before poll bytes chunk error failed rejects _ =>
    have ⟨count, _, split⟩ : ∃ count, poll.cancelled = decide (0 < count) ∧
      items = List.replicate count .cancel ++ .data bytes :: poll.left :=
      Transport.next_popped (congrArg Transport.item? chunk)
    have ⟨discarded, after, aborted, eq⟩ := abortAfter_of_returns returns
    have silent : after.trace.invocations = failed.trace.invocations := by
      have grows := decoder.abort_grows .closed failed
      rw [aborted] at grows
      exact grows.invocations.trans (List.append_nil _)
    rw [split, eq]
    exact ⟨.closed, .rejected (List.nil_append _).symm nofun rfl rejects aborted silent⟩
  case case6 => cases returns
  case case7 items before poll error failed _ =>
    have ⟨count, _, split⟩ : ∃ count, poll.cancelled = decide (0 < count) ∧
      items = List.replicate count .cancel ++ .error error :: poll.left :=
      Transport.next_popped (congrArg Transport.item? failed)
    have ⟨outcome, after, finished, returns, eq⟩ := closeAfter_of_returns returns
    rw [split, eq]
    exact ⟨.disconnected, .broken (List.nil_append _).symm nofun rfl finished returns⟩

-- A run that returns has done what feeding the chunks by hand and one call that ends the stream
-- would have done, and the end is the last that comes of it.
theorem consumeStream_ends_once (decoder : Decoder σ φ ε μ) (source : Source) (cancelled : Bool)
    (items : List Item) (state : State σ φ ε μ) :
    let opened   := state.note (.transportOpened source)
    let consumed := decoder.consumeStream source cancelled items state
    consumed.outcome.returns →
    ∃ signal, decoder.Driven source opened cancelled items signal consumed ∧
      Stage.Ends signal state.toStage consumed.state.toStage := by
  intro opened consumed returns
  have ⟨signal, driven⟩ := driven_consumeChunks cancelled items opened returns
  have noted : Stage.Decodes 0 state.toStage opened.toStage := (Stage.Decodes.refl _).act _
  exact ⟨signal, driven, noted.ends driven.ends⟩

-- The end is asked for in the poll that yields the last chunk, which is still fed. After that run
-- the decoder is driven once more, with a transport that fails at once, which only ends the stream
-- again.
theorem consumeStream_ends_once_each :
    let decoder : Decoder Unit Bytes FramingError Unit :=
      { strategy := .pieces FramingError 2, receiver := .collecting }
    let failure : TransportError := { kind := .timedOut, details := none }
    let items : List Item :=
      [.data [1], .pending, .data [2, 3], .cancel, .cancel, .data [4, 5], .error failure]
    let first  := decoder.consumeStream none false items (.initial ())
    let opened := first.state.note (.transportOpened none)
    let second := decoder.consumeStream none false first.left first.state
    first.outcome = .done .closed ∧ first.left = [.error failure] ∧
    first.state.trace.events =
      [.frame [1, 2] none, .frame [3, 4] none, .frame [5] none, .ended .closed] ∧
    second.outcome = .failed (.transport failure) ∧ second.left = [] ∧
    second.state.trace.events = first.state.trace.events ++ [.ended .disconnected] ∧
    ∃ signal, decoder.Driven none opened false [.error failure] signal second ∧
      Stage.Ends signal first.state.toStage second.state.toStage := by
  intro decoder failure items first opened second
  have left : first.left = [.error failure] := by decide +kernel
  have driven := consumeStream_ends_once decoder none false first.left first.state
    (by decide +kernel)
  refine ⟨by decide +kernel, left, by decide +kernel, by decide +kernel, by decide +kernel,
    by decide +kernel, ?_⟩
  rw [← left]
  exact driven

end Decoder
end Framing
