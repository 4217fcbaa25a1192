import Framing.Proofs.Delimited.Skipping

/-!
Delimited streams of which oversized frames are an error. With a delimiter of one byte a stream comes
to the same however it is split into chunks: each segment before the first that is over the limit
becomes a frame, and at that one feeding fails.
-/

namespace Framing
namespace Delimited

-- What a stream consists of, the tail being the last piece.
def Cut.pieces (cut : Cut) : List Bytes :=
  cut.segments ++ [cut.tail]

-- The first of the `pieces` that is over the limit, and the pieces before it.
structure Breaks (format : Delimited) (pieces before : List Bytes) (piece : Bytes) : Prop where
  split  : before ++ [piece] <+: pieces
  within : ∀ earlier ∈ before, earlier.length ≤ format.limit
  excess : format.limit < piece.length

variable {format : Delimited} {pieces before : List Bytes} {piece : Bytes} {bytes more tail : Bytes}
variable {index : Nat}

theorem Breaks.append (breaks : format.Breaks pieces before piece) {earlier : List Bytes}
    (within : ∀ piece ∈ earlier, piece.length ≤ format.limit) :
    format.Breaks (earlier ++ pieces) (earlier ++ before) piece where
  split  := by
    rw [List.append_assoc]
    exact (List.prefix_append_right_inj earlier).mpr breaks.split
  within := List.forall_mem_append.mpr ⟨within, breaks.within⟩
  excess := breaks.excess

theorem pieces_of_none (nowhere : bytes.offsetOf? format.delimiter = none) :
    (format.cut bytes).pieces = [bytes] := by
  rw [cut_of_none nowhere]
  rfl

theorem pieces_of_some (somewhere : bytes.offsetOf? format.delimiter = some index) :
    (format.cut bytes).pieces = bytes.take index ::
      (format.cut (bytes.drop (index + format.delimiter.length))).pieces := by
  rw [cut_of_some somewhere]
  rfl

theorem pieces_append (bytes more : Bytes) : (format.cut (bytes ++ more)).pieces =
    (format.cut bytes).segments ++ (format.cut ((format.cut bytes).tail ++ more)).pieces := by
  rw [cut_append]
  exact List.append_assoc ..

-- A delimiter of one byte is never there in part, so more bytes leave all of a tail in one piece.
theorem exists_first_piece (width : format.delimiter.length = 1)
    (nowhere : tail.offsetOf? format.delimiter = none) (more : Bytes) :
    ∃ first rest, (format.cut (tail ++ more)).pieces = first :: rest ∧
      tail.length ≤ first.length := by
  cases somewhere : Bytes.offsetOf? (tail ++ more) format.delimiter
  case none =>
    refine ⟨_, _, pieces_of_none somewhere, ?_⟩
    rw [List.length_append]
    exact Nat.le_add_right ..
  case some index =>
    have le := Bytes.length_le_of_offsetOf? format.delimiter_ne_nil somewhere
    have lt := Bytes.lt_of_offsetOf?_append format.delimiter_ne_nil nowhere somewhere
    refine ⟨_, _, pieces_of_some somewhere, ?_⟩
    rw [List.length_take]
    omega

-- The piece at which a stream breaks may only grow when more of it is there.
theorem Breaks.extend (width : format.delimiter.length = 1)
    (breaks : format.Breaks (format.cut bytes).pieces before piece) (more : Bytes) :
    ∃ whole, format.Breaks (format.cut (bytes ++ more)).pieces before whole ∧
      piece.length ≤ whole.length := by
  have ⟨split, within, excess⟩ := breaks
  rw [pieces_append]
  rcases List.prefix_concat_iff.mp split with last | earlier
  case inl =>
    obtain ⟨rfl, same⟩ := List.append_inj' last rfl
    obtain rfl := List.singleton_inj.mp same
    have ⟨first, rest, pieces, le⟩ :=
      exists_first_piece width (format.offsetOf?_tail bytes) more
    refine ⟨first, ⟨?_, within, Nat.lt_of_lt_of_le excess le⟩, le⟩
    rw [pieces]
    exact (List.prefix_append_right_inj _).mpr ⟨rest, rfl⟩
  case inr => exact ⟨piece, ⟨earlier.trans (List.prefix_append ..), within, excess⟩, Nat.le_refl _⟩

section Decoding

open Decoder (Stage Pass State Rounds)

variable {μ : Type} {decoder : Decoder Bool Bytes FramingError μ}
variable {stage : Stage Bool Bytes FramingError μ} {pass : Pass Bool Bytes FramingError μ}
variable {state : State Bool Bytes FramingError μ}

-- How a pass over `bytes` comes out: it goes well over all of the pieces, or it fails at the first
-- that is over the limit.
inductive Sifts (format : Delimited) (bytes : Bytes) (stage : Stage Bool Bytes FramingError μ)
    (pass : Pass Bool Bytes FramingError μ) : Prop
  | through
    (within : ∀ piece ∈ (format.cut bytes).pieces, piece.length ≤ format.limit)
    (passed : format.Passed (format.cut bytes).segments false stage pass)
    (unread : pass.unread = (format.cut bytes).tail)
  | broken {before : List Bytes} {piece : Bytes}
    (breaks : format.Breaks (format.cut bytes).pieces before piece)
    (frames : ∃ made handed, Stage.Grows made handed stage pass.stage ∧
      handed.map Event.frame? = before.map fun frame => some (format.shape frame))
    (failed : pass.outcome = .failed (.strategy (.oversized piece.length format.limit)))

theorem Sifts.cons (somewhere : bytes.offsetOf? format.delimiter = some index)
    (within : index ≤ format.limit) {next : Stage Bool Bytes FramingError μ}
    (grows : ∃ made handed, Stage.Grows made handed stage next ∧
      handed.map Event.frame? = [some (format.shape (bytes.take index))])
    (rest : format.Sifts (bytes.drop (index + format.delimiter.length)) next pass) :
    format.Sifts bytes stage pass := by
  have here : (bytes.take index).length ≤ format.limit :=
    Nat.le_trans (List.length_take_le ..) within
  cases rest
  case through within passed unread =>
    refine .through ?_ ?_ ?_
    · rw [pieces_of_some somewhere]
      exact List.forall_mem_cons.mpr ⟨here, within⟩
    · rw [cut_of_some somewhere]
      exact passed.of_dispatched grows
    · rw [cut_of_some somewhere]
      exact unread
  case broken before piece breaks frames failed =>
    have breaks' := breaks.append (List.forall_mem_singleton.mpr here)
    rw [List.singleton_append, ← pieces_of_some somewhere] at breaks'
    have ⟨_, _, first, shaped⟩ := grows
    have ⟨_, _, later, shaped'⟩ := frames
    refine .broken breaks' ⟨_, _, first.trans later, ?_⟩ failed
    rw [List.map_append, shaped, shaped']
    rfl

-- The first piece is over the limit already.
theorem sifts_of_rejected {later : List Bytes} {made : List (Trace.Invoked Bytes FramingError)}
    (pieces : (format.cut bytes).pieces = piece :: later) (excess : format.limit < piece.length)
    (grows : Stage.Grows made [] stage pass.stage)
    (failed : pass.outcome = .failed (.strategy (.oversized piece.length format.limit))) :
    format.Sifts bytes stage pass := by
  have breaks : format.Breaks (format.cut bytes).pieces [] piece :=
    ⟨pieces ▸ List.prefix_append [piece] later, nofun, excess⟩
  exact .broken breaks ⟨made, [], grows, rfl⟩ failed

section Uses

variable (uses : decoder.Uses format.strategy) (strict : format.skipOversized = false)
include uses strict

-- By induction on the pieces: each takes a round, and the first that is over the limit is the last.
theorem sifts_of_fresh (bytes : Bytes) (fresh : stage.strategyState = false)
    (position results : Nat) :
    format.Sifts bytes stage (decoder.pass bytes position results stage) := by
  fun_induction format.cut bytes generalizing stage position results
  case case1 bytes nowhere =>
    have alone : (format.cut bytes).pieces = [bytes] := pieces_of_none nowhere
    by_cases excess : format.limit < bytes.length
    case neg =>
      have within := Nat.le_of_not_lt excess
      obtain ⟨passed, unread⟩ := passed_of_within uses nowhere within fresh position results
      refine .through ?_ ?_ ?_
      · exact alone ▸ List.forall_mem_singleton.mpr within
      · rw [cut_of_none nowhere]
        exact passed
      · rw [cut_of_none nowhere]
        exact unread
    case pos =>
      obtain ⟨after, invoked, _⟩ := invoke_of_decode uses fresh
        ⟨_, decode_of_excess nowhere excess strict, rfl, rfl⟩
      have nonempty : bytes ≠ [] := List.ne_nil_of_length_pos (Nat.zero_lt_of_lt excess)
      rw [(Rounds.failed nonempty invoked).eq_pass]
      exact sifts_of_rejected alone excess (Decoder.invoke_grows invoked) rfl
  case case2 bytes index somewhere rest ih =>
    have le := Bytes.length_le_of_offsetOf? format.delimiter_ne_nil somewhere
    have size : (bytes.take index).length = index := List.length_take_of_le (by omega)
    by_cases within : index ≤ format.limit
    case pos =>
      obtain ⟨_, _, _, eq, fresh', grows⟩ :=
        pass_of_first uses somewhere within fresh position results
      rw [eq]
      exact (ih fresh' _ _).cons somewhere within grows
    case neg =>
      have excess := Nat.lt_of_not_le within
      obtain ⟨after, invoked, _⟩ := invoke_of_decode uses fresh
        ⟨_, decode_of_rejected somewhere excess strict, rfl, rfl⟩
      have positive := List.length_pos_iff.mpr format.delimiter_ne_nil
      have nonempty : bytes ≠ [] := List.ne_nil_of_length_pos (by omega)
      rw [(Rounds.failed nonempty invoked).eq_pass]
      exact sifts_of_rejected (pieces_of_some somewhere) (size.symm ▸ excess)
        (Decoder.invoke_grows invoked) (by rw [size])

end Uses

-- A decoder to which `bytes` were delivered, none of the pieces of which is over the limit.
structure Sifted (format : Delimited) (bytes : Bytes) (state : State Bool Bytes FramingError μ) :
    Prop where
  runs   : state.ended = false
  rests  : state.retention.Rests (format.cut bytes).tail
  fresh  : state.strategyState = false
  within : ∀ piece ∈ (format.cut bytes).pieces, piece.length ≤ format.limit
  frames : state.trace.events.map Event.frame? =
    (format.cut bytes).segments.map fun frame => some (format.shape frame)

-- A call that failed at the first piece of `bytes` over the limit, of which that much was there.
def Rejects (format : Delimited) (bytes : Bytes)
    (result : Outcome (DecodeError FramingError) Unit × State Bool Bytes FramingError μ) : Prop :=
  ∃ before piece, format.Breaks (format.cut bytes).pieces before piece ∧
    result.1 = .failed (.strategy (.oversized piece.length format.limit)) ∧
    result.2.trace.events.map Event.frame? = before.map fun frame => some (format.shape frame)

theorem initial_sifted (format : Delimited) :
    format.Sifted [] (.initial false : State Bool Bytes FramingError μ) := by
  have nothing : format.cut [] = { segments := [], tail := [] } :=
    cut_of_none (Bytes.offsetOf?_nil format.delimiter_ne_nil)
  constructor
  case runs  => rfl
  case fresh => rfl
  all_goals rw [nothing]
  case rests  => exact Retention.initial_rests
  case within => exact List.forall_mem_singleton.mpr (Nat.zero_le _)
  case frames => rfl

namespace Sifted

variable (uses : decoder.Uses format.strategy) (strict : format.skipOversized = false)
include uses strict

theorem feed (sifted : format.Sifted bytes state) (chunk : Bytes) (source : Source) :
    (decoder.feed chunk source state).1 = .done () ∧
        format.Sifted (bytes ++ chunk) (decoder.feed chunk source state).2 ∨
      format.Rejects (bytes ++ chunk) (decoder.feed chunk source state) := by
  have ⟨runs, rests, fresh, within, frames⟩ := sifted
  by_cases nonempty : chunk = []
  case pos =>
    subst nonempty
    rw [List.append_nil, Decoder.feed_nil]
    refine .inl ⟨rfl, runs, rests, fresh, within, ?_⟩
    simpa [State.note, Stage.note] using frames
  case neg =>
    obtain ⟨pass, fed⟩ := decoder.feed_fed nonempty source runs rests.sound
    obtain ⟨position, merging, rounds⟩ := fed.rounds
    let stage := (state.toStage.hearing source).act merging
    have begun : stage.strategyState = false := fresh
    have sifts := sifts_of_fresh uses strict ((format.cut bytes).tail ++ chunk) begun position 0
    rw [← rests.unread_eq, rounds.eq_pass] at sifts
    rw [rests.unread_eq] at sifts
    have earlier : ∀ piece ∈ (format.cut bytes).segments, piece.length ≤ format.limit :=
      fun piece mem => within piece (List.mem_append_left _ mem)
    cases sifts
    case through within' passed left =>
      obtain ⟨delivers, unread⟩ := passed.delivers fed
      refine .inl ⟨delivers.done, delivers.runs, ?_, delivers.strategyState, ?_, ?_⟩
      · rw [cut_append, ← left, ← unread]
        exact delivers.rests
      · rw [pieces_append]
        exact List.forall_mem_append.mpr ⟨earlier, within'⟩
      · rw [cut_append, delivers.frames, frames, List.map_append]
    case broken before piece breaks found failed =>
      obtain ⟨_, _, grows, shaped⟩ := found
      refine .inr ⟨(format.cut bytes).segments ++ before, piece, ?_, ?_, ?_⟩
      · rw [pieces_append]
        exact breaks.append earlier
      · rw [fed.outcome, failed]
        rfl
      · rw [(fed.grows grows).events, List.map_append, List.map_append, frames, shaped]

theorem feedEach (sifted : format.Sifted bytes state) (deliveries : List (Bytes × Source)) :
    (decoder.feedEach deliveries state).1 = .done () ∧
        format.Sifted (bytes ++ Decoder.delivered deliveries)
          (decoder.feedEach deliveries state).2 ∨
      ∃ seen, seen <+: bytes ++ Decoder.delivered deliveries ∧
        format.Rejects seen (decoder.feedEach deliveries state) := by
  induction deliveries generalizing bytes state
  case nil => exact .inl ⟨rfl, (List.append_nil bytes).symm ▸ sifted⟩
  case cons delivery deliveries ih =>
    obtain ⟨chunk, source⟩ := delivery
    rw [Decoder.delivered_cons, ← List.append_assoc]
    rcases sifted.feed uses strict chunk source with ⟨done, sifted'⟩ | rejects
    case inl =>
      rw [Decoder.feedEach_cons_of_done done]
      exact ih sifted'
    case inr =>
      have ⟨_, _, _, failed, _⟩ := rejects
      rw [Decoder.feedEach_cons_of_ne (failed ▸ nofun)]
      exact .inr ⟨bytes ++ chunk, List.prefix_append .., rejects⟩

end Sifted

-- The size that is reported depends on how much of the first piece over the limit has been delivered
-- when that is noticed, and nothing else depends on where the deliveries end.
theorem feedEach_pieces (uses : decoder.Uses format.strategy) (strict : format.skipOversized = false)
    (width : format.delimiter.length = 1) (deliveries : List (Bytes × Source)) (signal : EndSignal) :
    let cut   := format.cut (Decoder.delivered deliveries)
    let fed   := decoder.feedEach deliveries (.initial false)
    let ended := decoder.finish signal fed.2
    ((∀ piece ∈ cut.pieces, piece.length ≤ format.limit) →
      fed.1 = .done () ∧
      fed.2.trace.events.map Event.frame? =
        (cut.segments.map fun frame => some (format.shape frame)) ∧
      (cut.tail = [] →
        ended.1 = .done () ∧ ended.2.trace.events = fed.2.trace.events ++ [.ended signal]) ∧
      (cut.tail ≠ [] → format.acceptTail = true → ended.1 = .done () ∧
        ended.2.trace.events = fed.2.trace.events ++ [.frame cut.tail none, .ended signal]) ∧
      (cut.tail ≠ [] → format.acceptTail = false →
        ended.1 = .failed (.strategy (.unterminated cut.tail.length)) ∧
        ended.2.trace.events = fed.2.trace.events ++ [.ended signal])) ∧
    ((∃ piece ∈ cut.pieces, format.limit < piece.length) →
      ∃ before piece, format.Breaks cut.pieces before piece ∧
        fed.2.trace.events.map Event.frame? =
          (before.map fun frame => some (format.shape frame)) ∧
        ∃ size, fed.1 = .failed (.strategy (.oversized size format.limit)) ∧
          format.limit < size ∧ size ≤ piece.length) := by
  intro cut fed ended
  have initial : format.Sifted [] (.initial false) := initial_sifted (μ := μ) format
  have course := initial.feedEach uses strict deliveries
  rw [List.nil_append] at course
  rcases course with ⟨done, sifted⟩ | ⟨seen, delivered, rejects⟩
  case inl =>
    have ⟨runs, rests, fresh, within, frames⟩ := sifted
    have fits : cut.tail.length ≤ format.limit := within cut.tail (by simp [Cut.pieces, cut])
    have whole : format.overruns cut.tail = false := by simpa [overruns] using fits
    obtain ⟨outcome, events⟩ := finish_of_held uses runs ((held_of_within whole).symm ▸ rests)
      (format.offsetOf?_tail _) (fresh.trans whole.symm) signal
    refine ⟨fun _ => ⟨done, frames, fun empty => ?_, fun nonempty accepts => ?_,
      fun nonempty strict => ?_⟩, ?_⟩
    · rw [ending_of_silent (.inl empty), List.append_nil] at events
      rw [ending_of_silent (μ := μ) (.inl empty)] at outcome
      exact ⟨outcome, events⟩
    · rw [ending_of_tail nonempty whole accepts] at outcome events
      exact ⟨outcome, events.trans (List.append_assoc ..)⟩
    · rw [ending_of_unterminated nonempty whole strict] at outcome events
      exact ⟨outcome, events.trans (congrArg (· ++ _) (List.append_nil _))⟩
    · rintro ⟨piece, mem, excess⟩
      exact absurd (within piece mem) (Nat.not_le_of_lt excess)
  case inr =>
    obtain ⟨more, delivered⟩ := delivered
    obtain ⟨before, piece, breaks, failed, frames⟩ := rejects
    obtain ⟨whole, extended, le⟩ := breaks.extend width more
    rw [delivered] at extended
    refine ⟨fun within => ?_, fun _ => ?_⟩
    · have mem : whole ∈ cut.pieces := extended.split.subset (by simp)
      exact absurd (within whole mem) (Nat.not_le_of_lt extended.excess)
    · exact ⟨before, whole, extended, frames, piece.length, failed, breaks.excess, le⟩

-- The first stream has a segment of the limit and is cut in the middle of it. Of the second one, five
-- bytes of a segment of six have been delivered when it turns out to be over the limit.
theorem feedEach_pieces_across_chunks :
    let format : Delimited :=
      { delimiter := [10], delimiter_ne_nil := nofun, limit := 3, keepDelimiter := true
        acceptTail := true }
    let decoder : Decoder Bool Bytes FramingError Unit :=
      { strategy := format.strategy, receiver := .collecting }
    let legal : List (Bytes × Source) := [([97, 98, 10, 99], none), ([100, 101, 10, 102], some "a")]
    let long : List (Bytes × Source) :=
      [([97, 98, 10, 99, 100], none), ([101, 102, 103], none), ([104, 10], none)]
    let fed   := decoder.feedEach legal (.initial false)
    let ended := decoder.finish .closed fed.2
    let cut   := format.cut (Decoder.delivered long)
    let fed'  := decoder.feedEach long (.initial false)
    decoder.Uses format.strategy ∧
    fed.1 = .done () ∧
    fed.2.trace.events.map Event.frame? = [some [97, 98, 10], some [99, 100, 101, 10]] ∧
    ended.1 = .done () ∧
    ended.2.trace.events = fed.2.trace.events ++ [.frame [102] none, .ended .closed] ∧
    cut.pieces = [[97, 98], [99, 100, 101, 102, 103, 104], []] ∧
    fed'.1 = .failed (.strategy (.oversized 5 3)) ∧
    ∃ before piece, format.Breaks cut.pieces before piece ∧
      fed'.2.trace.events.map Event.frame? =
        (before.map fun frame => some (format.shape frame)) ∧
      ∃ size, fed'.1 = .failed (.strategy (.oversized size 3)) ∧ 3 < size ∧ size ≤ piece.length := by
  intro format decoder legal long fed ended cut fed'
  have uses : decoder.Uses format.strategy := ⟨rfl, Receiver.collecting_steady⟩
  have cut_eq : format.cut (Decoder.delivered legal) =
      { segments := [[97, 98], [99, 100, 101]], tail := [102] } := by decide +kernel
  have pieces : cut.pieces = [[97, 98], [99, 100, 101, 102, 103, 104], []] := by decide +kernel
  have ⟨through, _⟩ := feedEach_pieces uses rfl rfl legal .closed
  rw [cut_eq] at through
  have ⟨done, frames, _, last, _⟩ := through (by decide +kernel)
  have ⟨done', events⟩ := last (by decide +kernel) rfl
  have ⟨_, rejects⟩ := feedEach_pieces uses rfl rfl long .closed
  have course := rejects ⟨[99, 100, 101, 102, 103, 104], pieces ▸ by decide, by decide⟩
  exact ⟨uses, done, frames, done', events, pieces, by decide +kernel, course⟩

end Decoding
end Delimited
end Framing
