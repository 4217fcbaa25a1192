import Framing.Proofs.Retention

/-!
Appending to what is retained. A chunk follows the unread bytes, however it is placed. How it is
placed can be told from sizes alone: memory is requested only where no room can be made for it, and
then once, for everything that is to be held.
-/

namespace Framing

namespace Activity

-- The capacities that are requested, in order.
def requests (activities : List Activity) : List Nat :=
  activities.filterMap request?

@[simp]
theorem requests_append (activities more : List Activity) :
    requests (activities ++ more) = requests activities ++ requests more :=
  List.filterMap_append

end Activity

-- What is requested to hold `content`; for no bytes there is no buffer.
def Allocator.requests (allocator : Allocator) (content : Bytes) : List Nat :=
  if content = [] then [] else [allocator.request content.length]

namespace Buffer

variable {buffer : Buffer} {size : Nat}

theorem length_unread_le (buffer : Buffer) : buffer.unread.length ≤ buffer.written.length :=
  (List.drop_suffix _ _).length_le

section Sizes

variable (sound : buffer.WellFormed)
include sound

theorem le_room_iff : size ≤ buffer.room ↔ buffer.written.length + size ≤ buffer.capacity := by
  have := sound.written_le
  simp only [room]
  omega

theorem le_room_add_consumed_iff :
    size ≤ buffer.room + buffer.consumed ↔ buffer.unread.length + size ≤ buffer.capacity := by
  have := sound.consumed_le
  have := sound.written_le
  simp only [room, unread, List.length_drop]
  omega

end Sizes

-- How a buffer takes in `chunk`, when `ordinal` requests went before: the buffer that then holds it,
-- and what is requested for that.
inductive Takes (allocator : Allocator) (ordinal : Nat) (buffer : Buffer) (chunk : Bytes) :
    Placement → (after : Buffer) → (requests : List Nat) → Prop
  | inPlace
    (fits : buffer.written.length + chunk.length ≤ buffer.capacity) :
    Takes allocator ordinal buffer chunk .inPlace
      { buffer with written := buffer.written ++ chunk } []
  | compacted
    (full : buffer.capacity < buffer.written.length + chunk.length)
    (fits : buffer.unread.length + chunk.length ≤ buffer.capacity) :
    Takes allocator ordinal buffer chunk .compacted
      { buffer with written := buffer.unread ++ chunk, consumed := 0 } []
  | moved
    (full : buffer.capacity < buffer.unread.length + chunk.length) :
    Takes allocator ordinal buffer chunk .moved
      { written  := buffer.unread ++ chunk
        consumed := 0
        capacity := (allocator.allocate ordinal (buffer.unread.length + chunk.length)).capacity }
      [allocator.request (buffer.unread.length + chunk.length)]

namespace Takes

variable {allocator : Allocator} {ordinal : Nat} {chunk : Bytes} {placement : Placement}
variable {after : Buffer} {asked : List Nat}

-- No more is written to a buffer than it has capacity for.
theorem wellFormed (takes : buffer.Takes allocator ordinal chunk placement after asked)
    (sound : buffer.WellFormed) : after.WellFormed := by
  cases takes
  case inPlace fits => exact sound.append ((le_room_iff sound).mpr fits)
  case compacted fits =>
    refine sound.compact.append ?_
    rw [sound.room_compact]
    exact (le_room_add_consumed_iff sound).mpr fits
  case moved =>
    refine ⟨Nat.zero_le _, ?_⟩
    rw [List.length_append]
    exact allocator.size_le_capacity ..

-- The unread bytes stay in front of the chunk.
theorem unread_eq (takes : buffer.Takes allocator ordinal chunk placement after asked)
    (sound : buffer.WellFormed) : after.unread = buffer.unread ++ chunk := by
  cases takes
  case inPlace   => exact unread_append sound chunk
  case compacted => exact unread_append sound.compact chunk
  case moved     => rfl

theorem ne_fresh (takes : buffer.Takes allocator ordinal chunk placement after asked) :
    placement ≠ .fresh := by
  cases takes <;> exact nofun

-- The sizes exclude all placements but one.
theorem placement_iff (takes : buffer.Takes allocator ordinal chunk placement after asked) :
    (placement = .inPlace ↔ buffer.written.length + chunk.length ≤ buffer.capacity) ∧
      (placement = .compacted ↔ buffer.capacity < buffer.written.length + chunk.length ∧
        buffer.unread.length + chunk.length ≤ buffer.capacity) ∧
      (placement = .moved ↔ buffer.capacity < buffer.unread.length + chunk.length) := by
  have le := buffer.length_unread_le
  cases takes
  case inPlace fits        => simp; omega
  case compacted full fits => simp; omega
  case moved full          => simp; omega

end Takes
end Buffer

namespace Retention

variable (allocator : Allocator) (retention : Retention)

-- The operation makes the requests that are `asked`, and counts them.
structure Asks (before : Retention) (step : Retention × List Activity) (asked : List Nat) :
    Prop where
  requests : Activity.requests step.2 = asked
  count    : step.1.requests = before.requests + asked.length

theorem store_of_ne_nil {content : Bytes} (nonempty : content ≠ []) :
    (retention.store allocator content).1.buffer = some
      { written  := content
        consumed := 0
        capacity := (allocator.allocate retention.requests content.length).capacity } := by
  rw [store, if_neg nonempty]
  rfl

theorem store_capacity {content : Bytes} {after : Buffer}
    (h : (retention.store allocator content).1.buffer = some after) :
    after.capacity = (allocator.allocate retention.requests content.length).capacity := by
  by_cases nonempty : content = []
  case pos =>
    rw [store, if_pos nonempty] at h
    cases h
  case neg =>
    rw [store_of_ne_nil allocator retention nonempty] at h
    cases h
    rfl

theorem store_asks (content : Bytes) :
    retention.Asks (retention.store allocator content) (allocator.requests content) := by
  simp only [store, Allocator.requests]
  split <;> exact ⟨rfl, rfl⟩

variable {retention} in
-- What goes on record of an operation is no request.
theorem Asks.record {step : Retention × List Activity} {asked : List Nat}
    (asks : retention.Asks step asked) {recording : List Activity}
    (silent : Activity.requests recording = []) :
    retention.Asks (step.1, step.2 ++ recording) asked where
  requests := by rw [Activity.requests_append, asks.requests, silent, List.append_nil]
  count    := asks.count

theorem keep_asks (remainder : Bytes) :
    retention.Asks (retention.keep allocator remainder) (allocator.requests remainder) := by
  have asks := retention.store_asks allocator remainder
  simp only [keep]
  split
  case h_1 => exact asks
  case h_2 => exact asks.record rfl

theorem fit_asks :
    retention.Asks (retention.fit allocator) (allocator.requests retention.unread) := by
  simp only [fit]
  split
  case h_1 absent =>
    rw [unread_of_none absent]
    exact ⟨rfl, rfl⟩
  case h_2 before present =>
    have asks := retention.store_asks allocator before.unread
    rw [unread_of_some present]
    split <;> exact asks.record rfl

theorem append_record_asks {step : Retention × List Activity} {asked : List Nat} (chunk : Bytes)
    (placement : Placement) (asks : retention.Asks step asked) :
    retention.Asks (append.record chunk placement step).2 asked :=
  asks.record (by cases placement <;> rfl)

variable {retention} {buffer : Buffer} (chunk : Bytes)

theorem place_takes (sound : buffer.WellFormed) :
    let placement := buffer.placementFor chunk.length
    let step      := retention.place allocator buffer chunk placement
    ∃ after asked, buffer.Takes allocator retention.requests chunk placement after asked ∧
      step.1.buffer = some after ∧ retention.Asks step asked := by
  simp only [Buffer.placementFor]
  split
  case isTrue room =>
    exact ⟨_, _, .inPlace ((Buffer.le_room_iff sound).mp room), rfl, rfl, rfl⟩
  case isFalse full =>
    have full := Nat.lt_of_not_le (mt (Buffer.le_room_iff sound).mpr full)
    split
    case isTrue room =>
      have fits := (Buffer.le_room_add_consumed_iff sound).mp room
      exact ⟨_, _, .compacted full fits, rfl, rfl, rfl⟩
    case isFalse full =>
      have full := Nat.lt_of_not_le (mt (Buffer.le_room_add_consumed_iff sound).mpr full)
      have within := sound.written_le
      have le := buffer.length_unread_le
      have nonempty : buffer.unread ++ chunk ≠ [] := by
        refine List.ne_nil_of_length_pos ?_
        rw [List.length_append]
        omega
      have stored := retention.store_of_ne_nil allocator nonempty
      have asks := retention.store_asks allocator (buffer.unread ++ chunk)
      rw [Allocator.requests, if_neg nonempty] at asks
      rw [List.length_append] at stored asks
      exact ⟨_, _, .moved full, stored, asks⟩

-- Without a buffer the chunk is all there is to hold.
theorem append_of_none (absent : retention.buffer = none) :
    (retention.append allocator chunk).1 = .fresh ∧
      (retention.append allocator chunk).2.1 = (retention.store allocator chunk).1 ∧
      retention.Asks (retention.append allocator chunk).2 (allocator.requests chunk) := by
  rw [append, absent]
  exact ⟨rfl, rfl, retention.append_record_asks chunk .fresh (retention.store_asks allocator chunk)⟩

theorem append_of_some (present : retention.buffer = some buffer) (sound : buffer.WellFormed) :
    ∃ after asked,
      buffer.Takes allocator retention.requests chunk (retention.append allocator chunk).1
        after asked ∧
      (retention.append allocator chunk).2.1.buffer = some after ∧
      retention.Asks (retention.append allocator chunk).2 asked := by
  have ⟨after, asked, takes, placed, asks⟩ := retention.place_takes allocator chunk sound
  rw [append, present]
  exact ⟨after, asked, takes, placed, retention.append_record_asks chunk _ asks⟩

theorem append_asks (sound : retention.Sound) :
    ∃ asked, retention.Asks (retention.append allocator chunk).2 asked := by
  cases present : retention.buffer
  case none =>
    have ⟨_, _, asks⟩ := append_of_none allocator chunk present
    exact ⟨_, asks⟩
  case some buffer =>
    have ⟨_, asked, _, _, asks⟩ := append_of_some allocator chunk present (sound buffer present)
    exact ⟨asked, asks⟩

-- Where nothing is consumed, no room is to be made by giving up what is.
theorem Rests.append_ne_compacted {content : Bytes} (rests : retention.Rests content) :
    (retention.append allocator chunk).1 ≠ .compacted := by
  intro compacted
  cases present : retention.buffer
  case none =>
    have ⟨fresh, _⟩ := append_of_none allocator chunk present
    exact Placement.noConfusion (fresh.symm.trans compacted)
  case some buffer =>
    have ⟨_, _, takes, _⟩ := append_of_some allocator chunk present (rests.sound buffer present)
    have ⟨full, fits⟩ := takes.placement_iff.2.1.mp compacted
    have whole : buffer.unread = buffer.written := by
      rw [Buffer.unread, (rests.of_some present).2.1, List.drop_zero]
    exact absurd (whole ▸ fits) (Nat.not_le_of_lt full)

variable {chunk} in
-- However a chunk is placed, it follows what is unread.
theorem append_buffer (sound : retention.Sound) (nonempty : chunk ≠ []) :
    ∃ buffer, (retention.append allocator chunk).2.1.buffer = some buffer ∧ buffer.WellFormed ∧
      buffer.unread = retention.unread ++ chunk := by
  cases present : retention.buffer
  case none =>
    have ⟨_, stored, _⟩ := append_of_none allocator chunk present
    refine ⟨_, stored ▸ retention.store_of_ne_nil allocator nonempty, ⟨Nat.zero_le _, ?_⟩, ?_⟩
    · exact allocator.size_le_capacity ..
    · rw [unread_of_none present]
      rfl
  case some buffer =>
    have sound := sound buffer present
    have ⟨after, _, takes, placed, _⟩ := append_of_some allocator chunk present sound
    refine ⟨after, placed, takes.wellFormed sound, ?_⟩
    rw [takes.unread_eq sound, unread_of_some present]

-- The buffer may be one in which anything is consumed, and the provider one that leaves anything in
-- the memory that it returns. What is written never exceeds a capacity that was there before or that
-- the provider has answered with.
theorem append_follows_unread (sound : retention.Sound) :
    let appended := retention.append allocator chunk
    let asked    := Activity.requests appended.2.2
    appended.2.1.unread = retention.unread ++ chunk ∧ appended.2.1.Sound ∧
    (appended.1 = .fresh ↔ retention.buffer = none) ∧
    (retention.buffer = none → asked = allocator.requests chunk ∧
      ∀ after, appended.2.1.buffer = some after →
        after.capacity = (allocator.allocate retention.requests chunk.length).capacity) ∧
    ∀ buffer, retention.buffer = some buffer →
      (appended.1 = .inPlace ↔ buffer.written.length + chunk.length ≤ buffer.capacity) ∧
      (appended.1 = .compacted ↔ buffer.capacity < buffer.written.length + chunk.length ∧
        buffer.unread.length + chunk.length ≤ buffer.capacity) ∧
      (appended.1 = .moved ↔ buffer.capacity < buffer.unread.length + chunk.length) ∧
      ∃ after, appended.2.1.buffer = some after ∧
        (appended.1 = .inPlace →
          asked = [] ∧ after.capacity = buffer.capacity ∧ after.consumed = buffer.consumed) ∧
        (appended.1 = .compacted → asked = [] ∧ after.capacity = buffer.capacity) ∧
        (appended.1 = .moved →
          asked = [max (buffer.unread.length + chunk.length) allocator.floor] ∧
          after.consumed = 0 ∧ after.capacity = (allocator.allocate retention.requests
            (buffer.unread.length + chunk.length)).capacity) := by
  intro appended asked
  cases present : retention.buffer
  case none =>
    have ⟨fresh, stored, asks⟩ := append_of_none allocator chunk present
    have rests := retention.store_rests allocator chunk
    have unread : appended.2.1.unread = retention.unread ++ chunk := by
      rw [stored, rests.unread_eq, unread_of_none present, List.nil_append]
    have sound' : appended.2.1.Sound := stored ▸ rests.sound
    refine ⟨unread, sound', iff_of_true fresh rfl, fun _ => ⟨asks.requests, ?_⟩, nofun⟩
    exact fun after placed => retention.store_capacity allocator (stored ▸ placed)
  case some buffer =>
    have within := sound buffer present
    have ⟨after, asked', takes, placed, asks⟩ := append_of_some allocator chunk present within
    have unread : appended.2.1.unread = retention.unread ++ chunk := by
      rw [unread_of_some placed, takes.unread_eq within, unread_of_some present]
    have sound' : appended.2.1.Sound := by
      intro buffer' placed'
      cases placed.symm.trans placed'
      exact takes.wellFormed within
    have same : asked = asked' := asks.requests
    have le := buffer.length_unread_le
    refine ⟨unread, sound', iff_of_false takes.ne_fresh nofun, nofun, ?_⟩
    rintro _ ⟨⟩
    have ⟨inPlace, compacted, moved⟩ := takes.placement_iff
    refine ⟨inPlace, compacted, moved, after, placed, ?_⟩
    rw [same]
    generalize appended.1 = placement at takes
    cases takes
    case inPlace   => exact ⟨fun _ => ⟨rfl, rfl, rfl⟩, nofun, nofun⟩
    case compacted => exact ⟨nofun, fun _ => ⟨rfl, rfl⟩, nofun⟩
    case moved     => exact ⟨nofun, nofun, fun _ => ⟨rfl, rfl, rfl⟩⟩

-- Behind two bytes that are consumed and two that are not, there is room for two more where the first
-- two were, and for three only in memory that the provider hands out with something left in it.
theorem append_follows_unread_behind_consumed :
    let allocator : Allocator := { provider := .padding 5 8 [7], floor := 4 }
    let retention : Retention :=
      { buffer := some { written := [1, 2, 3, 4], consumed := 2, capacity := 4 }, requests := 1 }
    let two   := retention.append allocator [5, 6]
    let three := retention.append allocator [5, 6, 7]
    retention.Sound ∧
    two.1 = .compacted ∧ two.2.1.unread = [3, 4, 5, 6] ∧ two.2.1.Sound ∧
    Activity.requests two.2.2 = [] ∧
    three.1 = .moved ∧ three.2.1.unread = [3, 4, 5, 6, 7] ∧ three.2.1.Sound ∧
    Activity.requests three.2.2 = [5] := by
  intro allocator retention two three
  have sound : retention.Sound := by
    rintro _ ⟨⟩
    exact ⟨by decide, by decide⟩
  have ⟨unread, sound₂, _, _, sizes⟩ := append_follows_unread allocator [5, 6] sound
  have ⟨_, compacted, _, _, _, _, silent, _⟩ := sizes _ rfl
  have ⟨unread', sound₃, _, _, sizes'⟩ := append_follows_unread allocator [5, 6, 7] sound
  have ⟨_, _, moved, _, _, _, _, asks⟩ := sizes' _ rfl
  have two_placed : two.1 = .compacted := compacted.mpr (by decide)
  have three_placed : three.1 = .moved := moved.mpr (by decide)
  exact ⟨sound, two_placed, unread, sound₂, (silent two_placed).1, three_placed, unread', sound₃,
    (asks three_placed).1⟩

end Retention
end Framing
