import Framing.Retention

/-!
What the operations on retained bytes keep: buffers stay within their bounds, and after a pass exactly
what it left unread is retained, in a buffer of its own.
-/

namespace Framing

namespace Activity

-- Whether the activity is about the log or about memory.
def isUpkeep : Activity → Bool
  | noted _ | requested _ | counted (.allocations _) _ => true
  | counted ..                                         => false

-- Those of the activities that count what was decoded.
def tallies (activities : List Activity) : List Activity :=
  activities.filter (!·.isUpkeep)

@[simp]
theorem tallies_append (activities more : List Activity) :
    tallies (activities ++ more) = tallies activities ++ tallies more :=
  List.filter_append ..

end Activity

namespace Buffer

variable {buffer : Buffer} {chunk : Bytes}

theorem unread_append (sound : buffer.WellFormed) (chunk : Bytes) :
    (buffer.append chunk).unread = buffer.unread ++ chunk :=
  List.drop_append_of_le_length sound.consumed_le

@[simp]
theorem unread_compact : buffer.compact.unread = buffer.unread := rfl

namespace WellFormed

-- Nothing behind the end of what was written can be consumed.
theorem consumeTo (sound : buffer.WellFormed) {position : Nat}
    (le : position ≤ buffer.consumed + buffer.unread.length) :
    (buffer.consumeTo position).WellFormed where
  consumed_le := by
    have := sound.consumed_le
    simp only [Buffer.unread, List.length_drop] at le
    simp only [Buffer.consumeTo]
    omega
  written_le  := sound.written_le

theorem append (sound : buffer.WellFormed) (room : chunk.length ≤ buffer.room) :
    (buffer.append chunk).WellFormed where
  consumed_le := by simp [Buffer.append, Nat.le_add_right_of_le sound.consumed_le]
  written_le  := by
    have := sound.written_le
    simp only [Buffer.room, Buffer.append, List.length_append] at *
    omega

theorem compact (sound : buffer.WellFormed) : buffer.compact.WellFormed where
  consumed_le := Nat.zero_le _
  written_le  := Nat.le_trans (List.drop_suffix _ _).length_le sound.written_le

-- Compacting makes room for as much as was consumed.
theorem room_compact (sound : buffer.WellFormed) :
    buffer.compact.room = buffer.room + buffer.consumed := by
  have ⟨consumed_le, written_le⟩ := sound
  simp only [Buffer.room, Buffer.compact, Buffer.unread, List.length_drop]
  omega

end WellFormed
end Buffer

namespace Retention

theorem unread_of_none {retention : Retention} (absent : retention.buffer = none) :
    retention.unread = [] := by
  simp [unread, absent]

theorem unread_of_some {retention : Retention} {buffer : Buffer}
    (present : retention.buffer = some buffer) : retention.unread = buffer.unread := by
  simp [unread, present]

-- What is retained is in a buffer within its bounds.
def Sound (retention : Retention) : Prop :=
  ∀ buffer, retention.buffer = some buffer → buffer.WellFormed

-- What is retained is `content`, as a pass leaves it: nothing that was consumed is kept, and there is
-- no buffer for no bytes.
inductive Rests (content : Bytes) (retention : Retention) : Prop
  | absent (empty : content = []) (buffer : retention.buffer = none)
  | present {capacity} (nonempty : content ≠ []) (le : content.length ≤ capacity)
    (buffer : retention.buffer = some { written := content, consumed := 0, capacity })

namespace Rests

variable {content : Bytes} {retention : Retention}

theorem unread_eq (rests : Rests content retention) : retention.unread = content := by
  cases rests
  case absent empty h => exact (unread_of_none h).trans empty.symm
  case present h      => exact unread_of_some h

theorem sound (rests : Rests content retention) : retention.Sound := by
  intro buffer h
  cases rests
  case absent h'     => simp_all
  case present le h' =>
    cases h'.symm.trans h
    exact ⟨Nat.zero_le _, le⟩

theorem buffer_eq_none_iff (rests : Rests content retention) :
    retention.buffer = none ↔ content = [] := by
  cases rests <;> simp_all

theorem of_some (rests : Rests content retention) {buffer : Buffer}
    (present : retention.buffer = some buffer) :
    content ≠ [] ∧ buffer.consumed = 0 ∧ buffer.unread = content := by
  cases rests
  case absent h             => simp_all
  case present nonempty _ h =>
    cases h.symm.trans present
    exact ⟨nonempty, rfl, rfl⟩

theorem isPresent_eq (rests : Rests content retention) :
    retention.isPresent = !content.isEmpty := by
  cases rests <;> simp_all [isPresent]

end Rests

theorem initial_rests : Rests [] {} :=
  .absent rfl rfl

-- What a fault leaves of what was retained `before`: nothing at all where there was no buffer, and
-- otherwise a buffer in which `content` is unread.
inductive Survives (content : Bytes) (before after : Retention) : Prop
  | lost (absent : before.buffer = none) (buffer : after.buffer = none)
  | kept {left : Buffer} (present : before.buffer ≠ none) (buffer : after.buffer = some left)
    (sound : left.WellFormed) (unread : left.unread = content)

namespace Survives

variable {content : Bytes} {before after : Retention}

theorem sound (survives : Survives content before after) : after.Sound := by
  intro buffer h
  cases survives
  case lost h'       => simp_all
  case kept h' sound _ =>
    cases h'.symm.trans h
    exact sound

theorem isPresent_eq (survives : Survives content before after) :
    after.isPresent = before.isPresent := by
  cases survives
  case lost h h'     => simp [isPresent, h, h']
  case kept h h' _ _ => simp [isPresent, h', Option.isSome_iff_ne_none.mpr h]

theorem unread_eq (survives : Survives content before after) :
    after.unread = if before.isPresent then content else [] := by
  cases survives
  case lost h h' => simp [isPresent, unread, h, h']
  case kept h h' _ same =>
    simp [isPresent, unread, h', Option.isSome_iff_ne_none.mpr h, same]

end Survives

-- The buffer is the provider's answer to the last request, which was for as much as is unread.
def Fitted (allocator : Allocator) (retention : Retention) : Prop :=
  ∀ buffer, retention.buffer = some buffer → 0 < retention.requests ∧
    buffer.capacity = (allocator.allocate (retention.requests - 1) buffer.unread.length).capacity

variable (allocator : Allocator) (retention : Retention)

theorem store_fitted (content : Bytes) : (retention.store allocator content).1.Fitted allocator := by
  intro buffer h
  simp only [store] at h ⊢
  split at h <;> cases h
  case isFalse nonempty =>
    rw [if_neg nonempty]
    exact ⟨Nat.succ_pos _, rfl⟩

theorem keep_fitted (remainder : Bytes) :
    (retention.keep allocator remainder).1.Fitted allocator := by
  have fitted := retention.store_fitted allocator remainder
  simp only [keep]
  split <;> exact fitted

theorem fit_fitted : (retention.fit allocator).1.Fitted allocator := by
  simp only [fit]
  split
  case h_1 absent =>
    intro buffer h
    cases absent.symm.trans h
  case h_2 buffer _ =>
    have fitted := retention.store_fitted allocator buffer.unread
    split <;> exact fitted

theorem store_tallies (content : Bytes) :
    Activity.tallies (retention.store allocator content).2 = [] := by
  simp only [store]
  split <;> rfl

theorem keep_tallies (remainder : Bytes) :
    Activity.tallies (retention.keep allocator remainder).2 = [] := by
  have stored := retention.store_tallies allocator remainder
  simp only [keep]
  split
  case h_1 => exact stored
  case h_2 => simp only [Activity.tallies_append, stored]; rfl

theorem fit_tallies : Activity.tallies (retention.fit allocator).2 = [] := by
  simp only [fit]
  split
  case h_1 => rfl
  case h_2 before _ =>
    have stored := retention.store_tallies allocator before.unread
    split <;>
    · simp only [Activity.tallies_append, stored]
      rfl

theorem append_tallies (chunk : Bytes) :
    Activity.tallies (retention.append allocator chunk).2.2 = [] := by
  have recorded (placement : Placement) (step : Retention × List Activity)
      (h : Activity.tallies step.2 = []) :
      Activity.tallies (append.record chunk placement step).2.2 = [] := by
    simp only [append.record, Activity.tallies_append, h]
    cases placement <;> rfl
  have placed (buffer : Buffer) (placement : Placement) :
      Activity.tallies (retention.place allocator buffer chunk placement).2 = [] := by
    cases placement
    case inPlace | compacted => rfl
    case fresh | moved       => exact retention.store_tallies allocator _
  simp only [append]
  split
  case h_1 => exact recorded _ _ (retention.store_tallies allocator chunk)
  case h_2 => exact recorded _ _ (placed _ _)

theorem store_rests (content : Bytes) : Rests content (retention.store allocator content).1 := by
  simp only [store]
  split
  case isTrue empty     => exact .absent empty rfl
  case isFalse nonempty =>
    exact .present nonempty (allocator.size_le_capacity retention.requests content.length) rfl

theorem keep_rests (remainder : Bytes) : Rests remainder (retention.keep allocator remainder).1 := by
  have rests := retention.store_rests allocator remainder
  simp only [keep]
  split <;> exact rests

theorem fit_rests {content : Bytes} (h : retention.unread = content) :
    Rests content (retention.fit allocator).1 := by
  subst h
  simp only [fit]
  split
  case h_1 h => exact .absent (unread_of_none h) h
  case h_2 buffer h =>
    have rests := retention.store_rests allocator buffer.unread
    split <;> exact (unread_of_some h) ▸ rests

end Retention
end Framing
