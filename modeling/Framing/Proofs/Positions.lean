import Framing.Proofs.Allocation
import Framing.Proofs.Conservation
import Framing.Proofs.Lifecycle

/-!
Positions in a stream. Whatever faults, and however a decoder is used after that, the bytes that
invocations take lie at ever higher positions, and no result is dispatched twice.
-/

namespace Framing

variable {σ φ ε μ : Type}

namespace Trace

-- The positions of the bytes that the invocation took. It was shown the last of those that had been
-- `delivered`.
def Invoked.positions (invoked : Invoked φ ε) (delivered : Bytes) : List Nat :=
  List.range' (delivered.length - invoked.unread.length) invoked.taken.length

namespace Consumes

variable {unread left delivered : Bytes} {made : List (Invoked φ ε)}

theorem suffix_of_mem (consumes : Consumes unread made left) {invoked : Invoked φ ε}
    (mem : invoked ∈ made) : invoked.unread <:+ unread :=
  have ⟨earlier, later, split⟩ := List.append_of_mem mem
  ⟨_, consumes.shown earlier invoked later split⟩

theorem exists_first (consumes : Consumes unread made left) (nonempty : made ≠ []) :
    ∃ invoked rest, made = invoked :: rest ∧ invoked.unread = unread := by
  obtain ⟨invoked, rest, rfl⟩ := List.exists_cons_of_ne_nil nonempty
  exact ⟨invoked, rest, rfl, consumes.uncons.1⟩

-- The invocations take the bytes one after the other, without a gap.
theorem flatMap_positions (consumes : Consumes unread made left)
    (le : unread.length ≤ delivered.length) : made.flatMap (·.positions delivered) =
      List.range' (delivered.length - unread.length) (taken made).length := by
  induction made generalizing unread
  case nil => rfl
  case cons invoked made ih =>
    have ⟨shown, next, took, rest⟩ := consumes.uncons
    have length := congrArg List.length took
    rw [List.length_append] at length
    have after : delivered.length - next.length =
        delivered.length - unread.length + invoked.taken.length := by omega
    rw [List.flatMap_cons, ih rest (by omega), Invoked.positions, shown, after,
      List.range'_append_1]
    simp [taken]

end Consumes
end Trace

namespace Decoder

-- The bytes that the call delivers to the stream.
def Call.chunk : Call μ → Bytes
  | receive (.chunk bytes _) | feed bytes _ => bytes
  | _                                       => []

-- The invocations of a run, each with all of the bytes that had been delivered by then.
def log (decoder : Decoder σ φ ε μ) :
    List (Call μ) → Bytes → State σ φ ε μ → List (Bytes × Trace.Invoked φ ε)
  | [], _, _                        => []
  | call :: calls, delivered, state =>
    let after     := (decoder.perform call state).2
    let delivered := delivered ++ call.chunk
    (after.trace.invocations.drop state.trace.invocations.length).map (delivered, ·)
      ++ log decoder calls delivered after

-- The positions of the bytes that the invocations on the log took, in order.
def positions (log : List (Bytes × Trace.Invoked φ ε)) : List Nat :=
  log.flatMap fun (delivered, invoked) => invoked.positions delivered

variable {decoder : Decoder σ φ ε μ} {state after : State σ φ ε μ} {delivered unread left : Bytes}
variable {made : List (Trace.Invoked φ ε)}

-- What is unread are the last of the bytes that have been delivered, or none if some are lost.
structure State.Follows (delivered : Bytes) (state : State σ φ ε μ) : Prop where
  sound  : state.retention.Sound
  suffix : state.retention.unread <:+ delivered
  closed : state.ended → state.retention.unread = []

theorem Stage.Processes.dispatched_eq {handed : List (Event φ μ)} {s₁ s₂ : Stage σ φ ε μ}
    (processes : Stage.Processes decoder unread made handed left s₁ s₂) :
    s₂.trace.dispatched = s₁.trace.dispatched ++ handed := by
  rw [processes.grows.dispatched_eq, processes.dispatches.filter_isDecoded]

-- What a call makes of `unread`: the invocations that were `made` took some of it, and at most what
-- is `left` behind them stays unread.
structure State.Advances (decoder : Decoder σ φ ε μ) (unread : Bytes)
    (made : List (Trace.Invoked φ ε)) (left : Bytes) (before after : State σ φ ε μ) : Prop where
  invocations : after.trace.invocations = before.trace.invocations ++ made
  dispatched  : ∃ handed, Trace.Dispatches decoder.grouping made handed ∧
    after.trace.dispatched = before.trace.dispatched ++ handed
  results     : after.context.results = before.context.results + made.countP (·.yields)
  consumes    : Trace.Consumes unread made left
  retained    : after.retention.unread <:+ left

theorem State.Advances.of_grows {passed : List (Event φ μ)} {before : State σ φ ε μ}
    (grows : Stage.Grows [] passed before.toStage after.toStage)
    (undecoded : passed.filter (·.isDecoded) = [])
    (results : after.context.results = before.context.results)
    (retained : after.retention.unread <:+ unread) :
    before.Advances decoder unread [] unread after where
  invocations := grows.invocations
  dispatched  := ⟨[], .nil, by rw [grows.dispatched_eq, undecoded]⟩
  results     := results
  consumes    := .nil
  retained    := retained

section Feed

variable {chunk : Bytes} {source : Source} {pass : Pass σ φ ε μ}
variable {result : Outcome (DecodeError ε) Unit × State σ φ ε μ}

-- All that a call does to the stream, its pass does.
theorem Fed.processes (fed : decoder.Fed chunk source state pass result) :
    ∃ made handed, Stage.Processes decoder (state.retention.unread ++ chunk) made handed pass.unread
        state.toStage result.2.toStage ∧ (state.retention.unread ++ chunk ≠ [] → made ≠ []) := by
  have ⟨_, _, rounds⟩ := fed.rounds
  have ⟨settling, settled⟩ := fed.stage
  have ⟨made, handed, processes, all, _⟩ := rounds.processes
  have results : result.2.context.results =
      state.context.results + made.countP (·.yields) := by
    rw [settled]
    exact processes.results
  have grows := fed.grows processes.grows
  exact ⟨made, handed, ⟨grows, processes.consumes, processes.dispatches, results⟩, all⟩

-- A fault may lose bytes, but none are there twice.
theorem Fed.suffix (fed : decoder.Fed chunk source state pass result) :
    result.2.retention.unread <:+ pass.unread := by
  cases returns : pass.outcome.returns
  case true  => exact (fed.rests returns).unread_eq ▸ List.suffix_refl _
  case false =>
    rw [(fed.survives returns).unread_eq]
    split
    case isTrue  => exact List.suffix_refl _
    case isFalse => exact List.nil_suffix

end Feed

variable (decoder)

theorem feed_advances (follows : state.Follows delivered) (chunk : Bytes) (source : Source) :
    ∃ made left, state.Advances decoder (state.retention.unread ++ chunk) made left
      (decoder.feed chunk source state).2 := by
  let shown := state.retention.unread ++ chunk
  have ignored (notice : Notice) (same : state.retention.unread <:+ shown) :
      state.Advances decoder shown [] shown (state.note notice) :=
    .of_grows ((Stage.Grows.refl _).act _) rfl rfl same
  by_cases nonempty : chunk = []
  case pos =>
    subst nonempty
    exact ⟨_, _, ignored _ (by simp [shown])⟩
  cases ended : state.ended
  case true =>
    have ⟨notice, eq⟩ := decoder.feed_of_ended ended chunk source
    have lost := follows.closed ended
    rw [eq]
    exact ⟨_, _, ignored notice (by simp [lost])⟩
  case false =>
    have ⟨pass, fed⟩ := decoder.feed_fed nonempty source ended follows.sound
    have ⟨made, handed, processes, _⟩ := fed.processes
    exact ⟨made, pass.unread, processes.grows.invocations, ⟨handed, processes.dispatches,
      processes.dispatched_eq⟩, processes.results, processes.consumes, fed.suffix⟩

section Ending

-- At the end of the stream a result is dispatched without a source.
theorem conclude_processes {stage : Stage σ φ ε μ} (sourceless : stage.context.source = none)
    (unread : Bytes) :
    ∃ made handed left, Stage.Processes decoder unread made handed left stage
      (decoder.conclude unread stage).2 ∧ made ≠ [] := by
  rcases h : decoder.invoke true unread stage with ⟨outcome, consumed, after⟩
  let invoked : Trace.Invoked φ ε := ⟨true, stage.context, unread, outcome, consumed⟩
  obtain ⟨left, took⟩ : invoked.taken <+: unread := invoked.taken_prefix
  cases outcome
  case failed | faulted =>
    simp only [conclude, h]
    exact ⟨_, _, left, .of_silent h took rfl, List.cons_ne_nil _ _⟩
  case done found =>
    let noting := discarding (unread.length - consumed)
    have yields : invoked.yields = found.isResult := by
      simp [Trace.Invoked.yields, Trace.Invoked.found, invoked]
    rw [conclude_of_done h]
    cases isResult : found.isResult
    case false =>
      exact ⟨_, _, left, (Stage.Processes.of_silent h took (yields.trans isResult)).act _,
        List.cons_ne_nil _ _⟩
    case true =>
      rcases d : decoder.dispatch found none (after.act noting) with ⟨fault, final⟩
      obtain ⟨handed, processes, _⟩ :=
        Stage.Processes.of_dispatched h noting (sourceless ▸ d) took (yields.trans isResult)
      simp only [show decoder.dispatch found none (after.act (discarding _)) = _ from d]
      exact ⟨[invoked], handed, left, processes, List.cons_ne_nil _ _⟩

theorem flush_processes (unread : Bytes) (position : Nat) (stage : Stage σ φ ε μ) :
    ∃ made handed left, Stage.Processes decoder unread made handed left stage
      (decoder.flush unread position stage).2 ∧ made ≠ [] := by
  let begun := stage.beginEnding.note (.ending unread.length)
  -- Beginning to end changes nothing but what the strategy is told.
  have lift {made handed left} {after : Stage σ φ ε μ}
      (processes : Stage.Processes decoder unread made handed left begun after) :
      Stage.Processes decoder unread made handed left stage after :=
    { processes with grows := (beginEnding_grows stage _).trans processes.grows }
  simp only [flush]
  split
  case isTrue =>
    obtain ⟨_, _, _, concluded, made⟩ :=
      decoder.conclude_processes (show begun.context.source = none from rfl) unread
    exact ⟨_, _, _, lift concluded, made⟩
  case isFalse nonempty =>
    have rounds := decoder.rounds_pass unread position 0 begun
    obtain ⟨_, _, passed, made, _⟩ := rounds.processes
    split
    case h_1 =>
      obtain ⟨_, _, _, concluded, _⟩ := decoder.conclude_processes rounds.source_eq
        (decoder.pass unread position 0 begun).unread
      exact ⟨_, _, _, lift (passed.trans concluded),
        List.append_ne_nil_of_left_ne_nil (made nonempty) _⟩
    case h_2 | h_3 => exact ⟨_, _, _, lift passed, made nonempty⟩

-- Before it hands over the signal, the first call that ends the stream goes over all that is left.
theorem finish_processes (runs : state.ended = false) (signal : EndSignal) :
    ∃ made handed left before, Stage.Processes decoder state.retention.unread made handed left
        state.toStage before ∧ made ≠ [] ∧
      Stage.Grows [] [.ended signal] before (decoder.finish signal state).2.toStage ∧
      (decoder.finish signal state).2.context.results = before.context.results := by
  rcases flushed : decoder.flush state.retention.unread
    (state.retention.buffer.elim 0 Buffer.consumed) state.toStage with ⟨outcome, after⟩
  have ⟨made, handed, left, processes, nonempty⟩ := decoder.flush_processes state.retention.unread
    (state.retention.buffer.elim 0 Buffer.consumed) state.toStage
  rw [flushed] at processes
  let settled : Outcome (DecodeError ε) Unit × State σ φ ε μ := recorded
    (outcome, { toStage := after, retention := state.retention.release, ended := true })
  have ⟨settling, stage, _⟩ := recorded_stage
    (outcome, { toStage := after, retention := state.retention.release, ended := true })
  rw [finish_of_runs runs flushed]
  refine ⟨made, handed, left, settled.2.toStage, ?_, nonempty, forward_grows signal settled, ?_⟩
  · exact stage ▸ processes.act settling
  · rw [forward_context]

variable (state) in
theorem finish_advances (signal : EndSignal) :
    ∃ made left, state.Advances decoder state.retention.unread made left
      (decoder.finish signal state).2 := by
  cases ended : state.ended
  case true =>
    let noted := state.note (.endedBefore signal)
    have begun : Stage.Grows [] [] state.toStage noted.toStage := (Stage.Grows.refl _).act _
    rw [finish_of_ended ended]
    refine ⟨_, _, .of_grows (begun.trans (forward_grows signal (.done (), noted))) rfl ?_ ?_⟩
    · rw [forward_context]
      rfl
    · rw [forward_retention]
      exact List.suffix_refl _
  case false =>
    have ⟨made, handed, left, before, processes, _, grows, results⟩ :=
      decoder.finish_processes ended signal
    have released := decoder.finish_releases signal state ended
    refine ⟨made, left, ?_, ⟨handed, processes.dispatches, ?_⟩, ?_, processes.consumes, ?_⟩
    · simp [grows.invocations, processes.grows.invocations]
    · simp [grows.dispatched_eq, processes.dispatched_eq, Event.isDecoded]
    · rw [results, processes.results]
    · simp [Retention.unread, released]

variable (state) in
theorem abort_advances (signal : EndSignal) :
    state.Advances decoder state.retention.unread [] state.retention.unread
      (decoder.abort signal state).2 := by
  refine .of_grows (abort_grows signal state) rfl ?_ ?_
  · simp [abort, State.note, Stage.note]
  · simp only [abort, forward_retention, State.note]
    split
    case isTrue  => exact List.suffix_refl _
    case isFalse => exact List.nil_suffix

end Ending

theorem perform_advances (follows : state.Follows delivered) (call : Call μ) :
    ∃ made left, state.Advances decoder (state.retention.unread ++ call.chunk) made left
      (decoder.perform call state).2 := by
  rcases call with (⟨chunk, source⟩ | content | signal) | ⟨chunk, source⟩ | signal | signal
  case receive.chunk | feed => exact decoder.feed_advances follows chunk source
  all_goals simp only [Call.chunk, List.append_nil]
  case receive.message =>
    rcases handed : decoder.hand (.message content) state.toStage with ⟨fault, after⟩
    simp only [perform, receive, handed]
    have context := hand_context handed
    exact ⟨_, _, .of_grows (hand_grows handed) rfl (congrArg _ context) (List.suffix_refl _)⟩
  case receive.ended | finish => exact decoder.finish_advances state signal
  case abort                  => exact ⟨_, _, decoder.abort_advances state signal⟩

namespace State.Follows

theorem initial (start : σ) : Follows [] (.initial start : State σ φ ε μ) where
  sound  := Retention.initial_rests.sound
  suffix := List.nil_suffix
  closed := nofun

theorem perform (follows : state.Follows delivered) (call : Call μ) :
    (decoder.perform call state).2.Follows (delivered ++ call.chunk) where
  sound  := decoder.perform_sound call follows.sound
  suffix := by
    have ⟨made, left, advances⟩ := decoder.perform_advances follows call
    have rest : left <:+ state.retention.unread ++ call.chunk := ⟨_, advances.consumes.bytes⟩
    have ⟨before, eq⟩ := follows.suffix
    exact (advances.retained.trans rest).trans ⟨before, by rw [← eq, List.append_assoc]⟩
  closed after := by
    cases ended : state.ended
    case true =>
      have ⟨_, _, _, retained⟩ := decoder.perform_of_ended call ended
      rw [retained, follows.closed ended]
    case false =>
      have ends : call.signal? ≠ none := by
        simpa [perform_ended, ended, Option.isSome_iff_ne_none] using after
      have past : (decoder.perform call state).2.Over := .of_perform ended ends
      simp [Retention.unread, past.absent]

end State.Follows

variable {decoder}

-- What the log of a run from `before` to `after` is like, if all bytes before the position `start`
-- have been taken or are lost.
structure Logged (decoder : Decoder σ φ ε μ) (start : Nat)
    (log : List (Bytes × Trace.Invoked φ ε)) (before after : State σ φ ε μ) : Prop where
  invocations : after.trace.invocations = before.trace.invocations ++ log.map Prod.snd
  dispatched  : ∃ handed, Trace.Dispatches decoder.grouping (log.map Prod.snd) handed ∧
    after.trace.dispatched = before.trace.dispatched ++ handed
  results     : after.context.results =
    before.context.results + (log.map Prod.snd).countP (·.yields)
  shown       : ∀ entry ∈ log, entry.2.unread <:+ entry.1
  increasing  : (positions log).Pairwise (· < ·)
  above       : ∀ position ∈ positions log, start ≤ position

namespace Logged

variable {s₁ s₂ s₃ : State σ φ ε μ} {start next : Nat} {log log' : List (Bytes × Trace.Invoked φ ε)}

theorem refl (start : Nat) (state : State σ φ ε μ) : decoder.Logged start [] state state where
  invocations := (List.append_nil _).symm
  dispatched  := ⟨[], .nil, (List.append_nil _).symm⟩
  results     := rfl
  shown       := nofun
  increasing  := .nil
  above       := nofun

theorem trans (logged : decoder.Logged start log s₁ s₂) (le : start ≤ next)
    (below : ∀ position ∈ positions log, position < next)
    (logged' : decoder.Logged next log' s₂ s₃) : decoder.Logged start (log ++ log') s₁ s₃ where
  invocations := by simp [logged'.invocations, logged.invocations]
  dispatched  := by
    have ⟨handed, dispatches, eq⟩    := logged.dispatched
    have ⟨handed', dispatches', eq'⟩ := logged'.dispatched
    exact ⟨handed ++ handed', by simpa using dispatches.append dispatches',
      by rw [eq', eq, List.append_assoc]⟩
  results     := by simp [logged'.results, logged.results, Nat.add_assoc]
  shown       := List.forall_mem_append.mpr ⟨logged.shown, logged'.shown⟩
  increasing  := by
    rw [positions, List.flatMap_append]
    refine List.pairwise_append.mpr ⟨logged.increasing, logged'.increasing, ?_⟩
    intro position mem position' mem'
    exact Nat.lt_of_lt_of_le (below position mem) (logged'.above position' mem')
  above       := by
    rw [positions, List.flatMap_append]
    exact List.forall_mem_append.mpr ⟨logged.above,
      fun position mem => Nat.le_trans le (logged'.above position mem)⟩

end Logged

-- The bytes that a call takes lie between those that were taken before and what it leaves.
theorem State.Advances.logged {before : State σ φ ε μ}
    (advances : before.Advances decoder unread made left after) (suffix : unread <:+ delivered) :
    decoder.Logged (delivered.length - unread.length) (made.map (delivered, ·)) before after ∧
      ∀ position ∈ positions (made.map (delivered, ·)),
        position < delivered.length - left.length := by
  have all : positions (made.map (delivered, ·)) =
      List.range' (delivered.length - unread.length) (Trace.taken made).length := by
    simpa [positions, List.flatMap_map] using
      advances.consumes.flatMap_positions suffix.length_le
  have same : (made.map (delivered, ·)).map Prod.snd = made := by simp [Function.comp_def]
  have length := congrArg List.length advances.consumes.bytes
  have le := suffix.length_le
  rw [List.length_append] at length
  refine ⟨⟨?_, ?_, ?_, ?_, ?_, ?_⟩, ?_⟩
  case refine_1 => rw [same, advances.invocations]
  case refine_2 => exact same.symm ▸ advances.dispatched
  case refine_3 => rw [same, advances.results]
  case refine_4 =>
    intro entry mem
    have ⟨invoked, mem, eq⟩ := List.mem_map.mp mem
    exact eq ▸ (advances.consumes.suffix_of_mem mem).trans suffix
  case refine_5 => exact all ▸ List.pairwise_lt_range'
  case refine_6 => exact fun position mem => (List.mem_range'_1.mp (all ▸ mem)).1
  case refine_7 =>
    intro position mem
    have := (List.mem_range'_1.mp (all ▸ mem)).2
    omega

-- No later call takes any of the bytes that an earlier one took.
theorem State.Follows.logged (follows : state.Follows delivered) (calls : List (Call μ)) :
    decoder.Logged (delivered.length - state.retention.unread.length)
      (decoder.log calls delivered state) state (decoder.run calls state).2 := by
  induction calls generalizing delivered state
  case nil => exact .refl _ _
  case cons call calls ih =>
    have ⟨made, left, advances⟩ := decoder.perform_advances follows call
    have ⟨before, eq⟩ := follows.suffix
    have suffix : state.retention.unread ++ call.chunk <:+ delivered ++ call.chunk :=
      ⟨before, by rw [← eq, List.append_assoc]⟩
    have ⟨first, below⟩ := advances.logged suffix
    have rest := ih (follows.perform decoder call)
    have start : (delivered ++ call.chunk).length - (state.retention.unread ++ call.chunk).length =
        delivered.length - state.retention.unread.length := by
      simp only [List.length_append]
      omega
    have taken := congrArg List.length advances.consumes.bytes
    have retained := advances.retained.length_le
    have delivered_le := suffix.length_le
    simp only [log, run, advances.invocations, List.drop_left]
    rw [← start]
    refine first.trans ?_ (fun position mem => Nat.lt_of_lt_of_le (below position mem) ?_) rest
    · rw [List.length_append] at taken
      omega
    · omega

-- Each entry is about bytes at the beginning of all that the calls deliver.
theorem log_delivered (calls : List (Call μ)) (delivered : Bytes) (state : State σ φ ε μ) :
    ∀ entry ∈ decoder.log calls delivered state,
      entry.1 <+: delivered ++ calls.flatMap Call.chunk := by
  induction calls generalizing delivered state
  case nil => exact nofun
  case cons call calls ih =>
    rw [List.flatMap_cons, ← List.append_assoc]
    refine List.forall_mem_append.mpr ⟨?_, ih _ _⟩
    intro entry mem
    have ⟨_, _, eq⟩ := List.mem_map.mp mem
    exact eq ▸ List.prefix_append ..

-- Between the states the strategy is invoked, and `unread` is what it is shown first.
def State.Resumes (unread : Bytes) (before after : State σ φ ε μ) : Prop :=
  ∃ invoked rest, after.trace.invocations = before.trace.invocations ++ invoked :: rest ∧
    invoked.unread = unread

section Resuming

variable {chunk : Bytes}

theorem feed_resumes (runs : state.ended = false) (sound : state.retention.Sound)
    (nonempty : chunk ≠ []) (source : Source) :
    state.Resumes (state.retention.unread ++ chunk) (decoder.feed chunk source state).2 := by
  have ⟨_, fed⟩ := decoder.feed_fed nonempty source runs sound
  have ⟨_, _, processes, made⟩ := fed.processes
  have ⟨invoked, rest, eq, shown⟩ := processes.consumes.exists_first
    (made (List.append_ne_nil_of_right_ne_nil _ nonempty))
  exact ⟨invoked, rest, eq ▸ processes.grows.invocations, shown⟩

theorem finish_resumes (runs : state.ended = false) (signal : EndSignal) :
    state.Resumes state.retention.unread (decoder.finish signal state).2 := by
  have ⟨_, _, _, _, processes, made, grows, _⟩ := decoder.finish_processes runs signal
  have ⟨invoked, rest, eq, shown⟩ := processes.consumes.exists_first made
  refine ⟨invoked, rest, ?_, shown⟩
  rw [grows.invocations, processes.grows.invocations, eq, List.append_nil]

-- Where there is a buffer, a fault leaves exactly what the invocations before it have not taken.
theorem feed_of_faulted {source : Source} {fault : Fault} (runs : state.ended = false)
    (sound : state.retention.Sound) (present : state.retention.isPresent)
    (faulted : (decoder.feed chunk source state).1 = .faulted fault) :
    chunk ≠ [] ∧ ∃ made, (decoder.feed chunk source state).2.trace.invocations =
        state.trace.invocations ++ made ∧
      Trace.taken made ++ (decoder.feed chunk source state).2.retention.unread =
        state.retention.unread ++ chunk := by
  have nonempty : chunk ≠ [] := by
    rintro rfl
    cases faulted
  have ⟨pass, fed⟩ := decoder.feed_fed nonempty source runs sound
  have ⟨made, _, processes, _⟩ := fed.processes
  have returns : pass.outcome.returns = false := by rw [← fed.returns, faulted]; rfl
  have left := (fed.survives returns).unread_eq
  rw [if_pos present] at left
  exact ⟨nonempty, made, processes.grows.invocations, left ▸ processes.consumes.bytes⟩

end Resuming

-- As the calls so far are a run, too, what is said of the last state holds after every call.
theorem run_takes_once (decoder : Decoder σ φ ε μ) (start : σ) (calls : List (Call μ)) :
    let log   := decoder.log calls [] (.initial start)
    let final := (decoder.run calls (.initial start)).2
    log.map Prod.snd = final.trace.invocations ∧
    (∀ entry ∈ log, entry.2.unread <:+ entry.1 ∧ entry.1 <+: calls.flatMap Call.chunk) ∧
    (positions log).Pairwise (· < ·) ∧
    Trace.Dispatches decoder.grouping final.trace.invocations final.trace.dispatched ∧
    final.context.results = final.trace.invocations.countP (·.yields) ∧
    ∀ chunk source fault, final.retention.isPresent →
      (decoder.feed chunk source final).1 = .faulted fault →
      let after := (decoder.feed chunk source final).2
      (∃ made, after.trace.invocations = final.trace.invocations ++ made ∧
        Trace.taken made ++ after.retention.unread = final.retention.unread ++ chunk) ∧
      (∀ next source', next ≠ [] → after.Resumes (after.retention.unread ++ next)
        (decoder.feed next source' after).2) ∧
      ∀ signal, after.Resumes after.retention.unread (decoder.finish signal after).2 := by
  intro log final
  let begun : State σ φ ε μ := .initial start
  have follows : begun.Follows [] := .initial start
  have logged : decoder.Logged 0 log begun final := follows.logged calls
  obtain ⟨handed, dispatches, dispatched⟩ := logged.dispatched
  have same : final.trace.invocations = log.map Prod.snd := logged.invocations
  have whole : final.trace.dispatched = handed := dispatched
  have counted : final.context.results = 0 + (log.map Prod.snd).countP (·.yields) := logged.results
  refine ⟨same.symm, ?_, logged.increasing, same ▸ whole ▸ dispatches, ?_, ?_⟩
  · exact fun entry mem => ⟨logged.shown entry mem, log_delivered calls [] begun entry mem⟩
  · rw [counted, same, Nat.zero_add]
  · intro chunk source fault present faulted after
    have sound : final.retention.Sound := decoder.run_sound start calls
    have runs : final.ended = false := by
      cases ended : final.ended
      case false => rfl
      case true  =>
        have absent := (decoder.run_over start calls ended).absent
        simp [Retention.isPresent, final, absent] at present
    obtain ⟨nonempty, left⟩ := feed_of_faulted runs sound present faulted
    obtain ⟨_, fed⟩ := decoder.feed_fed nonempty source runs sound
    have sound' : after.retention.Sound := fed.sound
    exact ⟨left, fun next source' some => feed_resumes fed.ended sound' some source',
      finish_resumes fed.ended⟩

-- The strategy faults behind its first frame, and the receiver breaks off at the second one. Both
-- times there is a buffer, and the bytes that are left are shown again with the next ones.
theorem run_takes_once_across_faults :
    let script : Script := { entries := [
      { need := 2, operations := [.take 2], reply := .joined }, { reply := .fault "broken" },
      { operations := [.take 1], reply := .joined } ] }
    let decoder : Decoder _ _ _ Unit :=
      { strategy := script.strategy, receiver := .refusingAt [1] .collecting }
    let calls : List (Call Unit) := [.feed [1] none, .feed [2, 3] none]
    let log   := decoder.log calls [] (.initial {})
    let final := (decoder.run calls (.initial {})).2
    let after := (decoder.feed [4, 5] none final).2
    (decoder.run calls (.initial {})).1 = [.done .unit, .faulted (.raised "broken")] ∧
    positions log = [0, 1] ∧ (positions log).Pairwise (· < ·) ∧
    Trace.Dispatches decoder.grouping final.trace.invocations final.trace.dispatched ∧
    final.trace.dispatched = [.frame [1, 2] none] ∧ final.retention.isPresent ∧
    (decoder.feed [4, 5] none final).1 = .faulted (.refused 1) ∧
    after.retention.unread = [4, 5] ∧
    after.Resumes (after.retention.unread ++ [6]) (decoder.feed [6] none after).2 ∧
    after.Resumes after.retention.unread (decoder.finish .closed after).2 := by
  intro script decoder calls log final after
  have present : final.retention.isPresent := by decide +kernel
  have faulted : (decoder.feed [4, 5] none final).1 = .faulted (.refused 1) := by decide +kernel
  have ⟨_, _, increasing, dispatches, _, resumes⟩ := run_takes_once decoder {} calls
  have ⟨_, fed, finished⟩ := resumes [4, 5] none (.refused 1) present faulted
  exact ⟨by decide +kernel, by decide +kernel, increasing, dispatches, by decide +kernel, present,
    faulted, by decide +kernel, fed [6] none nofun, finished .closed⟩

end Decoder
end Framing
