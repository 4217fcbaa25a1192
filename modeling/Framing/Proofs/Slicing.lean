import Framing.Proofs.Consuming

/-!
Readers and streams. The two loops have the end of a transport told to them in different ways, but it
makes no difference whether a data item is cut by reads or is a stream of chunks that was cut before: a
decoder comes to the same, wherever the end is asked for and whatever fails.
-/

namespace Framing

namespace Bytes

-- Consecutive slices of `size` bytes, and of at least one, of which only the last may be shorter.
def slices (size : Nat) (bytes : Bytes) : List Bytes :=
  if bytes = [] then
    []
  else
    bytes.take (max size 1) :: slices size (bytes.drop (max size 1))
termination_by bytes.length
decreasing_by
  have := List.length_pos_iff.mpr ‹bytes ≠ []›
  rw [List.length_drop]
  omega

variable {size : Nat} {bytes : Bytes}

@[simp]
theorem slices_nil (size : Nat) : slices size [] = [] := by
  rw [slices, if_pos rfl]

theorem slices_of_ne_nil (nonempty : bytes ≠ []) :
    slices size bytes = bytes.take (max size 1) :: slices size (bytes.drop (max size 1)) := by
  rw [slices, if_neg nonempty]

@[simp]
theorem flatten_slices (size : Nat) (bytes : Bytes) : (slices size bytes).flatten = bytes := by
  fun_induction slices size bytes
  case case1 => rfl
  case case2 ih => rw [List.flatten_cons, ih, List.take_append_drop]

-- There is at least one byte in a slice, even if none are asked for.
theorem slices_max (size : Nat) (bytes : Bytes) : slices (max size 1) bytes = slices size bytes := by
  fun_induction slices size bytes
  case case1 => exact slices_nil _
  case case2 nonempty ih =>
    rw [slices_of_ne_nil nonempty, Nat.max_eq_left (Nat.le_max_right ..), ih]

theorem ne_nil_of_mem_slices {slice : Bytes} (mem : slice ∈ slices size bytes) : slice ≠ [] := by
  fun_induction slices size bytes
  case case1 => cases mem
  case case2 nonempty ih =>
    cases mem
    case head     => simp [nonempty]
    case tail mem => exact ih mem

theorem length_le_of_mem_slices {slice : Bytes} (mem : slice ∈ slices size bytes) :
    slice.length ≤ max size 1 := by
  fun_induction slices size bytes
  case case1 => cases mem
  case case2 ih =>
    cases mem
    case head     => exact List.length_take_le ..
    case tail mem => exact ih mem

-- With what the slices are glued to, this leaves one way to cut the bytes.
theorem length_of_mem_dropLast_slices {slice : Bytes} (mem : slice ∈ (slices size bytes).dropLast) :
    slice.length = max size 1 := by
  fun_induction slices size bytes
  case case1 => cases mem
  case case2 bytes nonempty ih =>
    by_cases more : bytes.drop (max size 1) = []
    case pos =>
      rw [more, slices_nil] at mem
      cases mem
    case neg =>
      rw [slices_of_ne_nil more, List.dropLast_cons_cons, ← slices_of_ne_nil more] at mem
      cases mem
      case tail mem => exact ih mem
      case head =>
        have lt : max size 1 < bytes.length := by simpa using more
        exact List.length_take_of_le (Nat.le_of_lt lt)

end Bytes

namespace Transport

-- What stands for the item if it is cut before it is polled.
def Item.slices (size : Nat) : Item → List Item
  | data bytes => (bytes.slices size).map .data
  | item       => [item]

-- The items, with all of the data cut.
def slice (size : Nat) (items : List Item) : List Item :=
  items.flatMap (Item.slices size)

-- The items that reads can come to. One without bytes is taken for the end.
def readable (items : List Item) : List Item :=
  items.takeWhile (· ≠ .data [])

namespace ReadBuffer

variable (buffer : ReadBuffer)

-- What a read of so many bytes would be as a chunk, if it is not the end.
def chunk? : Except TransportError Nat → Option (Except TransportError Bytes)
  | .ok 0           => none
  | .ok (count + 1) => some (.ok (buffer.front (count + 1)))
  | .error error    => some (.error error)

-- Nothing is to be seen of what was in the buffer before.
theorem front_write (bytes : Bytes) :
    (buffer.write bytes).front (min bytes.length buffer.size) = bytes.take buffer.size := by
  have length : (bytes.take buffer.size).length = min bytes.length buffer.size := by
    rw [List.length_take, Nat.min_comm]
  simp [front, write, ← length]

theorem chunk?_write {bytes : Bytes} (nonempty : bytes ≠ []) :
    (buffer.write bytes).chunk? (.ok (min bytes.length buffer.size)) =
      some (.ok (bytes.take buffer.size)) := by
  have written := buffer.front_write bytes
  have positive : 0 < min bytes.length buffer.size :=
    Nat.lt_min.mpr ⟨List.length_pos_iff.mpr nonempty, buffer.size_pos⟩
  cases count : min bytes.length buffer.size
  case zero => omega
  case succ => rw [chunk?, ← count, written]

variable {size : Nat}

theorem zeroed_of_fits (fits : size ≤ sizeLimit) :
    ∃ buffer, zeroed size = .ok buffer ∧ buffer.size = max size 1 := by
  have fits : max size 1 ≤ sizeLimit := Nat.max_le.mpr ⟨fits, by decide⟩
  rw [zeroed, if_pos fits]
  exact ⟨_, rfl, rfl⟩

theorem zeroed_of_exceeds (exceeds : sizeLimit < size) :
    zeroed size = .error .capacityOverflow :=
  if_neg fun fits => Nat.not_le_of_lt exceeds (Nat.le_trans (Nat.le_max_left ..) fits)

end ReadBuffer

variable {buffer : ReadBuffer} {items : List Item}

theorem slice_max (size : Nat) (items : List Item) : slice (max size 1) items = slice size items := by
  have same : Item.slices (max size 1) = Item.slices size := by
    funext item
    cases item
    case data bytes               => exact congrArg (List.map Item.data) (Bytes.slices_max ..)
    case error | pending | cancel => rfl
  rw [slice, same, slice]

theorem slice_cons (size : Nat) (item : Item) (items : List Item) :
    slice size (item :: items) = item.slices size ++ slice size items :=
  List.flatMap_cons

theorem readable_cons {item : Item} (full : item ≠ .data []) (items : List Item) :
    readable (item :: items) = item :: readable items :=
  List.takeWhile_cons_of_pos (decide_eq_true full)

theorem readable_of_full (full : ∀ item ∈ items, item ≠ .data []) : readable items = items := by
  induction items
  case nil => rfl
  case cons item items ih =>
    have ⟨first, rest⟩ := List.forall_mem_cons.mp full
    rw [readable_cons first, ih rest]

@[simp]
theorem size_read (buffer : ReadBuffer) (items : List Item) :
    (read buffer items).buffer.size = buffer.size := by
  induction items
  case nil => rfl
  case cons item items ih =>
    cases item
    case cancel                 => exact ih
    case data | error | pending => rfl

theorem read_full (full : ∀ item ∈ items, item ≠ .data []) :
    ∀ item ∈ (read buffer items).left, item ≠ .data [] := by
  induction items
  case nil => exact full
  case cons item items ih =>
    have ⟨_, rest⟩ := List.forall_mem_cons.mp full
    cases item
    case error | pending => exact rest
    case cancel          => exact ih rest
    case data bytes =>
      simp only [read]
      split
      case isTrue       => exact rest
      case isFalse more => exact List.forall_mem_cons.mpr ⟨by simpa using more, rest⟩

-- Polls for a chunk find in the slices what reads find in the items. Reads leave what does not fit into
-- the buffer to the next ones.
theorem next_slice (buffer : ReadBuffer) (items : List Item) :
    let read := read buffer items
    let poll := next (slice buffer.size (readable items))
    poll.ready = read.ready.map read.buffer.chunk? ∧ poll.cancelled = read.cancelled ∧
    ((∀ item ∈ items, item ≠ .data []) ∨ read.ready ≠ some (.ok 0) →
      poll.left = slice buffer.size (readable read.left)) := by
  induction items
  case nil => exact ⟨rfl, rfl, fun _ => rfl⟩
  case cons item items ih =>
    cases item
    case error | pending => exact ⟨rfl, rfl, fun _ => rfl⟩
    case cancel =>
      have ⟨ready, _, left⟩ := ih
      exact ⟨ready, rfl, fun goes_on => left (goes_on.imp_left (List.forall_mem_cons.mp · |>.2))⟩
    case data bytes =>
      by_cases empty : bytes = []
      case pos =>
        subst empty
        refine ⟨rfl, rfl, fun goes_on => ?_⟩
        simp [read] at goes_on
      case neg =>
        have full : Item.data bytes ≠ .data [] := fun same => empty (Item.data.inj same)
        have size : max buffer.size 1 = buffer.size := Nat.max_eq_left buffer.size_pos
        simp only [readable_cons full, slice_cons, Item.slices, Bytes.slices_of_ne_nil empty, size]
        refine ⟨?_, rfl, fun _ => ?_⟩
        · exact congrArg some (buffer.chunk?_write empty).symm
        · by_cases rest : bytes.drop buffer.size = []
          case pos =>
            simp only [read, rest, Bytes.slices_nil]
            rfl
          case neg =>
            have full : Item.data (bytes.drop buffer.size) ≠ .data [] :=
              fun same => rest (Item.data.inj same)
            simp only [read, if_neg rest, readable_cons full, slice_cons]
            rfl

theorem ready_next_slice {ready : Option (Except TransportError Nat)}
    (came : (read buffer items).ready = ready) :
    (next (slice buffer.size (readable items))).ready =
      ready.map (read buffer items).buffer.chunk? := by
  have ⟨ready, _⟩ := next_slice buffer items
  rw [ready, came]

theorem left_next_slice (full : ∀ item ∈ items, item ≠ .data []) :
    (next (slice buffer.size (readable items))).left = slice buffer.size (read buffer items).left := by
  have ⟨_, _, left⟩ := next_slice buffer items
  rw [left (.inl full), readable_of_full (read_full full)]

end Transport

namespace Decoder

open Transport (Item ReadBuffer)

variable {σ φ ε μ : Type} (decoder : Decoder σ φ ε μ) (source : Source)

-- A run over `items` that were read came to the same as one over chunks.
structure Consumed.Slices (size : Nat) (items : List Item) (reads chunks : Consumed σ φ ε μ) :
    Prop where
  outcome : chunks.outcome = reads.outcome
  state   : chunks.state = reads.state
  left    : (∀ item ∈ items, item ≠ .data []) → chunks.left = Transport.slice size reads.left

namespace Consumed.Slices

variable {buffer : ReadBuffer} {items : List Item} {reads chunks : Consumed σ φ ε μ}

-- What a read leaves is cut alike.
theorem of_read
    (slices : Consumed.Slices buffer.size (Transport.read buffer items).left reads chunks) :
    Consumed.Slices buffer.size items reads chunks where
  outcome   := slices.outcome
  state     := slices.state
  left full := slices.left (Transport.read_full full)

-- Behind a read it may be over.
theorem ofEnd (buffer : ReadBuffer) (items : List Item)
    (result : Outcome (DecodeError ε) EndSignal × State σ φ ε μ) :
    Consumed.Slices buffer.size items
      (.ofEnd (Transport.read buffer items).left result)
      (.ofEnd (Transport.next (Transport.slice buffer.size (Transport.readable items))).left result)
      where
  outcome   := rfl
  state     := rfl
  left full := Transport.left_next_slice full

end Consumed.Slices

-- By induction on the reads, each of which finds what a poll for a chunk finds.
theorem consumeReads_slices (buffer : ReadBuffer) (cancelled : Bool) (items : List Item)
    (state : State σ φ ε μ) :
    Consumed.Slices buffer.size items
      (decoder.consumeReads source buffer cancelled items state)
      (decoder.consumeChunks source cancelled
        (Transport.slice buffer.size (Transport.readable items)) state) := by
  fun_induction decoder.consumeReads source buffer cancelled items state
  case case1 =>
    rw [consumeChunks_of_cancelled]
    exact ⟨rfl, rfl, fun full => congrArg (Transport.slice _) (Transport.readable_of_full full)⟩
  all_goals cases eq_false_of_ne_true ‹_›
  case case2 buffer items _ _ came ih _ =>
    have ⟨_, cancelled, left⟩ := Transport.next_slice buffer items
    rw [consumeChunks_of_pending (Transport.ready_next_slice came), cancelled,
      left (.inr (came ▸ nofun))]
    exact .of_read (Transport.size_read buffer items ▸ ih)
  case case3 came _ =>
    rw [consumeChunks_of_finished (Transport.ready_next_slice came)]
    exact .ofEnd ..
  case case4 buffer items _ _ _ came _ _ went ih _ =>
    have ⟨_, cancelled, left⟩ := Transport.next_slice buffer items
    rw [consumeChunks_of_fed (Transport.ready_next_slice came) went, cancelled,
      left (.inr (came ▸ nofun))]
    exact .of_read (Transport.size_read buffer items ▸ ih)
  case case5 came _ _ rejects _ =>
    rw [consumeChunks_of_rejected (Transport.ready_next_slice came) rejects]
    exact .ofEnd ..
  case case6 came fault failed faulted _ =>
    rw [consumeChunks_of_faulted (Transport.ready_next_slice came) faulted]
    exact .ofEnd _ _ (.faulted fault, failed)
  case case7 came _ =>
    rw [consumeChunks_of_failed (Transport.ready_next_slice came)]
    exact .ofEnd ..

theorem consumeReader_slices {size : Nat} (fits : size ≤ ReadBuffer.sizeLimit) (cancelled : Bool)
    (items : List Item) (state : State σ φ ε μ) :
    Consumed.Slices size items
      (decoder.consumeReader source size cancelled items state)
      (decoder.consumeStream source cancelled
        (Transport.slice size (Transport.readable items)) state) := by
  have ⟨buffer, zeroed, width⟩ := ReadBuffer.zeroed_of_fits fits
  have ⟨outcome, same, left⟩ := decoder.consumeReads_slices source buffer cancelled items
    (state.note (.transportOpened source))
  simp only [width, Transport.slice_max] at outcome same left
  simp only [consumeReader, zeroed, consumeStream]
  exact ⟨outcome, same, left⟩

-- Too large a buffer cannot be had, so that nothing comes of the run.
theorem consumeReader_of_exceeds {size : Nat} (exceeds : ReadBuffer.sizeLimit < size)
    (cancelled : Bool) (items : List Item) (state : State σ φ ε μ) :
    decoder.consumeReader source size cancelled items state =
      { outcome := .faulted .capacityOverflow, left := items
        state   := state.note (.transportOpened source) } := by
  simp only [consumeReader, ReadBuffer.zeroed_of_exceeds exceeds]

-- The decoder is in the same state after both, so it has done the same in all.
theorem consumeReader_eq_consumeStream {size : Nat} (fits : size ≤ ReadBuffer.sizeLimit)
    (cancelled : Bool) {items : List Item} (full : ∀ item ∈ items, item ≠ .data [])
    (state : State σ φ ε μ) :
    let reader := decoder.consumeReader source size cancelled items state
    let stream := decoder.consumeStream source cancelled (Transport.slice size items) state
    (∀ bytes, .data bytes ∈ items → (bytes.slices size).flatten = bytes ∧
      (∀ slice ∈ bytes.slices size, slice ≠ [] ∧ slice.length ≤ max size 1) ∧
      ∀ slice ∈ (bytes.slices size).dropLast, slice.length = max size 1) ∧
    stream.outcome = reader.outcome ∧ stream.state = reader.state ∧
    stream.left = Transport.slice size reader.left := by
  intro reader stream
  have same := decoder.consumeReader_slices source fits cancelled items state
  rw [Transport.readable_of_full full] at same
  refine ⟨fun bytes _ => ⟨Bytes.flatten_slices size bytes, fun slice mem => ?_, fun slice => ?_⟩,
    same.outcome, same.state, same.left full⟩
  · exact ⟨Bytes.ne_nil_of_mem_slices mem, Bytes.length_le_of_mem_slices mem⟩
  · exact Bytes.length_of_mem_dropLast_slices

-- The end is asked for between two slices of an item, by a strategy that tells chunks apart.
theorem consumeReader_eq_consumeStream_within_item :
    let decoder : Decoder Unit UInt8 FramingError Unit :=
      { strategy := .bytewise FramingError, receiver := .collecting }
    let failure : TransportError := { kind := .timedOut, details := none }
    let items : List Item :=
      [.data [1, 2, 3], .pending, .cancel, .data [4, 5, 6, 7, 8], .error failure]
    let slices : List Item :=
      [.data [1, 2], .data [3], .pending, .cancel, .data [4, 5], .data [6, 7], .data [8],
        .error failure]
    let reader := decoder.consumeReader none 2 false items (.initial ())
    let stream := decoder.consumeStream none false slices (.initial ())
    2 ≤ ReadBuffer.sizeLimit ∧ (∀ item ∈ items, item ≠ .data []) ∧
    Transport.slice 2 items = slices ∧
    reader.outcome = .done .closed ∧ reader.left = [.data [6, 7, 8], .error failure] ∧
    reader.state.trace.events =
      [.batch [1, 2] none, .batch [3] none, .batch [4, 5] none, .ended .closed] ∧
    stream.outcome = reader.outcome ∧ stream.state = reader.state ∧
    stream.left = Transport.slice 2 reader.left := by
  intro decoder failure items slices reader stream
  have fits : 2 ≤ ReadBuffer.sizeLimit := by decide
  have full : ∀ item ∈ items, item ≠ .data [] := by decide
  have slices_eq : Transport.slice 2 items = slices := by decide +kernel
  have ⟨_, same⟩ := decoder.consumeReader_eq_consumeStream none fits false full (.initial ())
  rw [slices_eq] at same
  exact ⟨fits, full, slices_eq, by decide +kernel, by decide +kernel, by decide +kernel, same⟩

-- There is one size too many for a buffer, but a stream can be cut into slices of it.
theorem consumeReader_ne_consumeStream :
    let decoder : Decoder Unit Bytes FramingError Unit :=
      { strategy := .pieces FramingError 2, receiver := .collecting }
    let size := ReadBuffer.sizeLimit + 1
    let items : List Item := [.data [1, 2, 3]]
    let reader := decoder.consumeReader none size false items (.initial ())
    let stream := decoder.consumeStream none false (Transport.slice size items) (.initial ())
    (∀ item ∈ items, item ≠ .data []) ∧
    stream.outcome = .done .disconnected ∧
    stream.state.trace.events = [.frame [1, 2] none, .frame [3] none, .ended .disconnected] ∧
    reader.outcome = .faulted .capacityOverflow ∧ reader.state.trace.events = [] := by
  intro decoder size items reader stream
  have exceeds : ReadBuffer.sizeLimit < size := Nat.lt_succ_self _
  have overflows : reader = { outcome := .faulted .capacityOverflow, left := items, state := _ } :=
    decoder.consumeReader_of_exceeds none exceeds false items (.initial ())
  rw [overflows]
  exact ⟨by decide, by decide +kernel, by decide +kernel, rfl, rfl⟩

end Decoder
end Framing
