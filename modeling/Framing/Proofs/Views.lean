import Framing.Cursor.Operation
import Framing.Proofs.Attempt
import Framing.Proofs.Searching

/-!
Cursors in 64-bit arithmetic. Nothing keeps a view's position within its bytes, and sums and differences
of positions may not be words; but whatever is performed on a view, it shows and does what a cursor does.
-/

namespace Framing

namespace Bytes

-- The bytes from `start` up to `stop`, if there are such.
def slice? (bytes : Bytes) (start stop : Nat) : Option Bytes :=
  if start ≤ stop ∧ stop ≤ bytes.length then some ((bytes.take stop).drop start) else none

end Bytes

namespace Cursor

variable {bytes : Bytes} (cursor : Cursor bytes)

-- What is found lies within the bytes, even if it is no bytes at all.
theorem find?_fits {needle : Bytes} {index : Nat} (h : cursor.find? needle = some index) :
    ∃ here : index ≤ cursor.remaining, needle.length ≤ (cursor.skip index here).remaining := by
  have fits : index + needle.length ≤ cursor.remaining := by
    by_cases empty : needle = []
    case pos =>
      rw [empty, find?, Bytes.offsetOf?_empty, Option.some_inj] at h
      rw [← h, empty]
      exact Nat.zero_le _
    case neg =>
      rw [← cursor.length_unread]
      exact Bytes.length_le_of_offsetOf? empty h
  have here : index ≤ cursor.remaining := by omega
  refine ⟨here, ?_⟩
  rw [remaining_skip]
  omega

def Reading.fails : Reading → Bool
  | .nothing | .outOfBounds _ | .fault _ => true
  | _                                    => false

theorem perform_of_fails (operation : Operation) :
    (cursor.perform operation).reading.fails → (cursor.perform operation).cursor = cursor := by
  cases operation
  case position | length | remaining | isEmpty | hasRemaining | unread => exact fun _ => rfl
  case takeUntil needle =>
    rw [perform]
    cases somewhere : cursor.find? needle
    case none       => exact fun _ => rfl
    case some index =>
      obtain ⟨here, behind⟩ := cursor.find?_fits somewhere
      simp only [take?, Cursor.advance, dif_pos here, dif_pos behind]
      exact fun fails => absurd fails Bool.false_ne_true
  case skipWhile value => exact fun fails => absurd fails Bool.false_ne_true
  case seek | peek | take | takeAll | find | advance | copy | readNat =>
    simp only [perform, Cursor.seek, peek?, take?, Cursor.advance, readNat, copy]
    split <;> first | exact fun _ => rfl | exact fun fails => absurd fails Bool.false_ne_true

-- The cursor behind `operations`. One that cannot be carried out does not keep the next from being.
def after (operations : List Operation) : Cursor bytes :=
  operations.foldl (fun cursor operation => (cursor.perform operation).cursor) cursor

end Cursor

-- A step on a view: it starts from a position, and whether or not it breaks off it leaves one behind.
abbrev View (α : Type) : Type :=
  ExceptT Fault (StateM Nat) α

namespace View

open Cursor (Operation Performed Reading)

variable {α : Type}

section Steps

-- What is done about a number that is no word is not for the view to say.
variable (overflow : Int → View Nat) (bytes : Bytes)

def word (number : Int) : View Nat :=
  if 0 ≤ number ∧ number.toNat < 2 ^ 64 then pure number.toNat else overflow number

def remaining : View Nat := do
  word overflow (bytes.length - (← get))

def unread : View Bytes := do
  let position ← get
  if position ≤ bytes.length then
    return bytes.drop position
  else
    throw (.raised "slice out of range")

def seek (position : Nat) : View (Except SeekError Unit) := do
  if bytes.length < position then
    return .error { position, length := bytes.length }
  else
    set position
    return .ok ()

-- Where the end of what is asked for is no word, there is nothing to see.
def peek (count : Nat) : View (Option Bytes) := do
  let position ← get
  if position + count < 2 ^ 64 then
    return bytes.slice? position (position + count)
  else
    return none

def move (count : Nat) : View Unit := do
  set (← word overflow ((← get) + count))

def take (count : Nat) : View (Option Bytes) := do
  match ← peek bytes count with
  | none       => return none
  | some taken =>
    move overflow count
    return some taken

def find (needle : Bytes) : View (Option Nat) := do
  if needle = [] then
    return some 0
  else
    return ((← unread bytes).windows needle.length).findIdx? (· = needle)

def advance (count : Nat) : View Unit := do
  let remaining ← remaining overflow bytes
  if count ≤ remaining then
    move overflow count
  else
    throw (.advancePastEnd count remaining)

-- Views have this and `readNat` from the interface of buffers, not of their own. The interface is taken
-- at its word that it looks at how many bytes remain before it consumes any.
def copy (count : Nat) : View Bytes := do
  let remaining ← remaining overflow bytes
  if remaining < count then
    throw (.readPastEnd count remaining)
  else
    let copied := (← unread bytes).take count
    advance overflow bytes count
    return copied

def readNat (width : Nat) : View Nat := do
  return (← copy overflow bytes width).toNat

def takeUntil (needle : Bytes) : View (Option Bytes) := do
  match ← find bytes needle with
  | none       => return none
  | some index =>
    match ← take overflow bytes index with
    | none       => return none
    | some taken =>
      advance overflow bytes needle.length
      return some taken

-- Skips what `unread` starts with, as long as its bytes all have that value.
def skipWhile (value : Nat) : Bytes → View Nat
  | []           => return 0
  | byte :: rest => do
    if byte.toNat = value then
      advance overflow bytes 1
      return (← skipWhile value rest) + 1
    else
      return 0

def perform (operation : Operation) : View (Reading × Option Bytes) := do
  match operation with
  | .position         => return (.number (← get), none)
  | .length           => return (.number bytes.length, none)
  | .remaining        => return (.number (← remaining overflow bytes), none)
  | .isEmpty          => return (.flag bytes.isEmpty, none)
  | .hasRemaining     => return (.flag (0 < (← remaining overflow bytes)), none)
  | .unread           => return (.bytes (← unread bytes), none)
  | .seek position    =>
    match ← seek bytes position with
    | .ok ()       => return (.moved, none)
    | .error error => return (.outOfBounds error, none)
  | .peek count       =>
    match ← peek bytes count with
    | none      => return (.nothing, none)
    | some next => return (.bytes next, none)
  | .take count       => return taking (← take overflow bytes count)
  | .takeAll          => return taking (← take overflow bytes (← remaining overflow bytes))
  | .takeUntil needle => return taking (← takeUntil overflow bytes needle)
  | .skipWhile value  =>
    return (.number (← skipWhile overflow bytes value (← unread bytes)), none)
  | .find needle      =>
    match ← find bytes needle with
    | none       => return (.nothing, none)
    | some index => return (.number index, none)
  | .advance count    =>
    advance overflow bytes count
    return (.moved, none)
  | .copy count       =>
    let copied ← copy overflow bytes count
    return (.bytes copied, some copied)
  | .readNat width    => return (.number (← readNat overflow bytes width), none)
where
  taking : Option Bytes → Reading × Option Bytes
    | none       => (.nothing, none)
    | some taken => (.bytes taken, some taken)

-- Where `operations` lead to, whatever becomes of each.
def after (operations : List Operation) (position : Nat) : Nat :=
  operations.foldl (fun position operation => (perform overflow bytes operation position).2) position

end Steps

section Monad

variable {β : Type} {position position' : Nat}

@[simp]
theorem pure_apply (value : α) : (pure value : View α) position = (.ok value, position) := rfl

@[simp]
theorem throw_apply (fault : Fault) : (throw fault : View α) position = (.error fault, position) :=
  rfl

@[simp]
theorem set_apply : (set position' : View PUnit) position = (.ok (), position') := rfl

@[simp]
theorem bind_get (next : Nat → View α) : (get >>= next) position = next position position := rfl

section Bind

variable {step : View α} (next : α → View β)

theorem bind_of_ok {value : α} (h : step position = (.ok value, position')) :
    (step >>= next) position = next value position' := by
  have eq : (step >>= next) position =
      ExceptT.bindCont next (step position).1 (step position).2 := rfl
  rw [eq, h]
  rfl

theorem bind_of_error {fault : Fault} (h : step position = (.error fault, position')) :
    (step >>= next) position = (.error fault, position') := by
  have eq : (step >>= next) position =
      ExceptT.bindCont next (step position).1 (step position).2 := rfl
  rw [eq, h]
  rfl

end Bind
end Monad

theorem word_of_fits {overflow : Int → View Nat} {number : Int} {value : Nat}
    (eq : number = value) (fits : value < 2 ^ 64) : word overflow number = pure value := by
  subst eq
  rw [word, Int.toNat_natCast, if_pos ⟨Int.natCast_nonneg value, fits⟩]

-- What comes of a step from `cursor` that consumes the next `count` bytes as `value`, and that fails
-- where there are not so many.
def consuming {bytes : Bytes} (cursor : Cursor bytes) (count : Nat) (value : α)
    (failure : Except Fault α) : Except Fault α × Nat :=
  if count ≤ cursor.remaining then
    (.ok value, cursor.position + count)
  else
    (failure, cursor.position)

-- What a cursor comes to, as a step on a view would come out.
def outcome {bytes : Bytes} (performed : Performed bytes) :
    Except Fault (Reading × Option Bytes) × Nat :=
  match performed.reading with
  | .fault fault => (.error fault, performed.cursor.position)
  | reading      => (.ok (reading, performed.taken), performed.cursor.position)

theorem position_outcome {bytes : Bytes} (performed : Performed bytes) :
    (outcome performed).2 = performed.cursor.position := by
  rw [outcome]
  split <;> rfl

section Bounded

variable (overflow : Int → View Nat) {bytes : Bytes} (short : bytes.length < 2 ^ 64)
variable (cursor : Cursor bytes)

theorem bind_consuming {β : Type} {step : View α} {count : Nat} {value : α} {fault : Fault}
    (next : α → View β)
    (h : step cursor.position = consuming cursor count value (.error fault)) :
    (step >>= next) cursor.position =
      if count ≤ cursor.remaining then
        next value (cursor.position + count)
      else
        (.error fault, cursor.position) := by
  by_cases enough : count ≤ cursor.remaining
  case pos =>
    rw [consuming, if_pos enough] at h
    rw [if_pos enough, bind_of_ok next h]
  case neg =>
    rw [consuming, if_neg enough] at h
    rw [if_neg enough, bind_of_error next h]

theorem unread_eq : unread bytes cursor.position = (.ok cursor.unread, cursor.position) := by
  simp [unread, cursor.position_le, Cursor.unread]

theorem seek_eq (position : Nat) : seek bytes position cursor.position =
    if position ≤ bytes.length then
      (.ok (.ok ()), position)
    else
      (.ok (.error { position, length := bytes.length }), cursor.position) := by
  simp only [seek]
  split
  case isTrue beyond  => rw [if_neg (Nat.not_le_of_lt beyond), pure_apply]
  case isFalse within =>
    rw [if_pos (Nat.le_of_not_lt within)]
    exact bind_of_ok _ set_apply

include short

theorem remaining_eq :
    remaining overflow bytes cursor.position = (.ok cursor.remaining, cursor.position) := by
  have whole := cursor.position_add_remaining
  have difference : (bytes.length - cursor.position : Int) = cursor.remaining := by omega
  have fits : cursor.remaining < 2 ^ 64 := by omega
  rw [remaining, bind_get, word_of_fits difference fits, pure_apply]

theorem move_eq {count : Nat} (enough : count ≤ cursor.remaining) :
    move overflow count cursor.position = (.ok (), cursor.position + count) := by
  have whole := cursor.position_add_remaining
  have sum : (cursor.position + count : Int) = (cursor.position + count : Nat) := rfl
  have fits : cursor.position + count < 2 ^ 64 := by omega
  rw [move, bind_get, word_of_fits sum fits, pure_bind, set_apply]

-- Where the sum is no word, it is past the end as well.
theorem peek_eq (count : Nat) :
    peek bytes count cursor.position = (.ok (cursor.peek? count), cursor.position) := by
  have whole := cursor.position_add_remaining
  have next : (bytes.take (cursor.position + count)).drop cursor.position =
      cursor.unread.take count := by
    rw [List.drop_take, Nat.add_sub_cancel_left, Cursor.unread]
  rw [peek, bind_get, Cursor.peek?]
  by_cases enough : count ≤ cursor.remaining
  case pos =>
    have bounds : cursor.position ≤ cursor.position + count ∧
        cursor.position + count ≤ bytes.length := by
      omega
    have fits : cursor.position + count < 2 ^ 64 := by omega
    rw [if_pos fits, if_pos enough, pure_apply, Bytes.slice?, if_pos bounds, next]
  case neg =>
    have past : ¬(cursor.position ≤ cursor.position + count ∧
        cursor.position + count ≤ bytes.length) := by
      omega
    rw [if_neg enough, Bytes.slice?, if_neg past]
    split <;> exact pure_apply _

theorem take_eq (count : Nat) : take overflow bytes count cursor.position =
    consuming cursor count (some (cursor.unread.take count)) (.ok none) := by
  rw [take, bind_of_ok _ (peek_eq short cursor count), Cursor.peek?, consuming]
  by_cases enough : count ≤ cursor.remaining
  case pos =>
    rw [if_pos enough, if_pos enough]
    exact bind_of_ok _ (move_eq overflow short cursor enough)
  case neg =>
    rw [if_neg enough, if_neg enough]
    exact pure_apply _

theorem advance_eq (count : Nat) : advance overflow bytes count cursor.position =
    consuming cursor count () (.error (.advancePastEnd count cursor.remaining)) := by
  rw [advance, bind_of_ok _ (remaining_eq overflow short cursor), consuming]
  split
  case isTrue enough => exact move_eq overflow short cursor enough
  case isFalse       => exact throw_apply _

-- How many bytes remain is looked at before anything is consumed.
theorem copy_eq (count : Nat) : copy overflow bytes count cursor.position =
    consuming cursor count (cursor.unread.take count)
      (.error (.readPastEnd count cursor.remaining)) := by
  rw [copy, bind_of_ok _ (remaining_eq overflow short cursor), consuming]
  by_cases enough : count ≤ cursor.remaining
  case pos =>
    rw [if_neg (Nat.not_lt_of_le enough), if_pos enough, bind_of_ok _ (unread_eq cursor),
      bind_consuming cursor _ (advance_eq overflow short cursor count), if_pos enough, pure_apply]
  case neg =>
    rw [if_pos (Nat.lt_of_not_le enough), if_neg enough, throw_apply]

theorem readNat_eq (width : Nat) : readNat overflow bytes width cursor.position =
    consuming cursor width (Bytes.toNat (cursor.unread.take width))
      (.error (.readPastEnd width cursor.remaining)) :=
  bind_consuming cursor _ (copy_eq overflow short cursor width)

omit short in
theorem find_eq (needle : Bytes) :
    find bytes needle cursor.position = (.ok (cursor.find? needle), cursor.position) := by
  rw [find, Cursor.find?]
  split
  case isTrue empty =>
    subst empty
    rw [pure_apply, Bytes.offsetOf?_empty]
  case isFalse nonempty =>
    rw [bind_of_ok _ (unread_eq cursor), pure_apply, Bytes.findIdx?_windows nonempty]

omit short in
theorem takeUntil_of_none {cursor : Cursor bytes} {needle : Bytes}
    (nowhere : cursor.find? needle = none) :
    takeUntil overflow bytes needle cursor.position = (.ok none, cursor.position) := by
  rw [takeUntil, bind_of_ok _ (find_eq cursor needle), nowhere]
  exact pure_apply _

theorem takeUntil_of_some {cursor : Cursor bytes} {needle : Bytes} {index : Nat}
    (somewhere : cursor.find? needle = some index) :
    takeUntil overflow bytes needle cursor.position =
      (.ok (some (cursor.unread.take index)), cursor.position + index + needle.length) := by
  obtain ⟨here, behind⟩ := cursor.find?_fits somewhere
  have taken := (take_eq overflow short cursor index).trans (if_pos here)
  have advanced := (advance_eq overflow short (cursor.skip index here) _).trans
    (if_pos behind)
  rw [takeUntil, bind_of_ok _ (find_eq cursor needle), somewhere]
  exact (bind_of_ok _ taken).trans (bind_of_ok _ advanced)

theorem skipWhile_eq (value : Nat) :
    skipWhile overflow bytes value cursor.unread cursor.position =
      (.ok (cursor.runLength value), cursor.position + cursor.runLength value) := by
  induction run : cursor.unread generalizing cursor
  case nil =>
    rw [skipWhile, pure_apply, Cursor.runLength, run]
    rfl
  case cons byte rest ih =>
    rw [skipWhile]
    by_cases same : byte.toNat = value
    case pos =>
      have enough : 1 ≤ cursor.remaining := by
        rw [← cursor.length_unread, run]
        exact Nat.succ_pos _
      have advanced := (advance_eq overflow short cursor 1).trans (if_pos enough)
      have run' : (cursor.skip 1 enough).unread = rest := by
        rw [Cursor.unread_skip, run]
        rfl
      have length : cursor.runLength value = 1 + (cursor.skip 1 enough).runLength value := by
        simp [Cursor.runLength, run, run', same, Nat.add_comm]
      have skipped := ih (cursor.skip 1 enough) run'
      rw [Cursor.position_skip] at skipped
      rw [if_pos same, bind_of_ok _ advanced, bind_of_ok _ skipped, pure_apply, length,
        Nat.add_assoc, Nat.add_comm 1]
    case neg =>
      have length : cursor.runLength value = 0 := by
        simp [Cursor.runLength, run, same]
      rw [if_neg same, pure_apply, length, Nat.add_zero]

theorem taken_eq (count : Nat) :
    (take overflow bytes count >>= (pure <| perform.taking ·)) cursor.position =
      outcome (.ofTake cursor (cursor.take? count)) := by
  have taken := take_eq overflow short cursor count
  by_cases enough : count ≤ cursor.remaining
  case pos =>
    rw [bind_of_ok _ (taken.trans (if_pos enough)), Cursor.take?, dif_pos enough]
    rfl
  case neg =>
    rw [bind_of_ok _ (taken.trans (if_neg enough)), Cursor.take?, dif_neg enough]
    rfl

theorem perform_eq (operation : Operation) : perform overflow bytes operation cursor.position =
    outcome (cursor.perform operation) := by
  have reads := remaining_eq overflow short cursor
  cases operation
  case position | length | isEmpty => rfl
  case remaining | hasRemaining => exact bind_of_ok _ reads
  case unread => exact bind_of_ok _ (unread_eq cursor)
  case seek target =>
    have sought := seek_eq cursor target
    by_cases within : target ≤ bytes.length
    case pos =>
      simp only [perform, Cursor.perform, Cursor.seek, dif_pos within]
      exact bind_of_ok _ (sought.trans (if_pos within))
    case neg =>
      simp only [perform, Cursor.perform, Cursor.seek, dif_neg within]
      exact bind_of_ok _ (sought.trans (if_neg within))
  case peek count =>
    rw [perform, bind_of_ok _ (peek_eq short cursor count), Cursor.perform]
    cases cursor.peek? count <;> rfl
  case take count => exact taken_eq overflow short cursor count
  case takeAll =>
    rw [perform, bind_of_ok _ reads]
    exact taken_eq overflow short cursor cursor.remaining
  case takeUntil needle =>
    rw [perform, Cursor.perform]
    cases somewhere : cursor.find? needle
    case none       => exact bind_of_ok _ (takeUntil_of_none overflow somewhere)
    case some index =>
      obtain ⟨here, behind⟩ := cursor.find?_fits somewhere
      simp only [Cursor.take?, Cursor.advance, dif_pos here, dif_pos behind]
      exact bind_of_ok _ (takeUntil_of_some overflow short somewhere)
  case skipWhile value =>
    rw [perform, bind_of_ok _ (unread_eq cursor),
      bind_of_ok _ (skipWhile_eq overflow short cursor value)]
    rfl
  case find needle =>
    rw [perform, bind_of_ok _ (find_eq cursor needle), Cursor.perform]
    cases cursor.find? needle <;> rfl
  case advance count =>
    rw [perform, bind_consuming cursor _ (advance_eq overflow short cursor count), Cursor.perform,
      Cursor.advance]
    split <;> rfl
  case copy count =>
    rw [perform, bind_consuming cursor _ (copy_eq overflow short cursor count), Cursor.perform,
      Cursor.copy]
    split <;> rfl
  case readNat width =>
    rw [perform, bind_consuming cursor _ (readNat_eq overflow short cursor width), Cursor.perform,
      Cursor.readNat, Cursor.copy]
    split <;> rfl

theorem after_eq (operations : List Operation) :
    after overflow bytes operations cursor.position = (cursor.after operations).position := by
  induction operations generalizing cursor
  case nil => rfl
  case cons operation operations ih =>
    have first : (perform overflow bytes operation cursor.position).2 =
        (cursor.perform operation).cursor.position := by
      rw [perform_eq overflow short cursor operation, position_outcome]
    rw [after, List.foldl_cons, first]
    exact ih (cursor.perform operation).cursor

end Bounded

-- `overflow` may be a fault or a number modulo the word: it does not come to that.
theorem after_safe (overflow : Int → View Nat) {bytes : Bytes} (short : bytes.length < 2 ^ 64)
    (operations : List Operation) :
    let cursor       := (Cursor.start bytes).after operations
    let position     := after overflow bytes operations 0
    let rest : Bytes := bytes.drop position
    position ≤ bytes.length ∧ position + rest.length = bytes.length ∧
    remaining overflow bytes position = (.ok rest.length, position) ∧
    unread bytes position = (.ok rest, position) ∧
    (∀ target, seek bytes target position =
      if target ≤ bytes.length then
        (.ok (.ok ()), target)
      else
        (.ok (.error { position := target, length := bytes.length }), position)) ∧
    (∀ needle, find bytes needle position = (.ok (rest.offsetOf? needle), position)) ∧
    (∀ count,
      peek bytes count position =
        (.ok (if count ≤ rest.length then some (rest.take count) else none), position) ∧
      take overflow bytes count position =
        consuming cursor count (some (rest.take count)) (.ok none) ∧
      advance overflow bytes count position =
        consuming cursor count () (.error (.advancePastEnd count rest.length)) ∧
      copy overflow bytes count position =
        consuming cursor count (rest.take count) (.error (.readPastEnd count rest.length)) ∧
      readNat overflow bytes count position =
        consuming cursor count (Bytes.toNat (rest.take count))
          (.error (.readPastEnd count rest.length))) ∧
    cursor.position = position ∧ cursor.remaining = rest.length ∧
    ∀ operation,
      perform overflow bytes operation position = outcome (cursor.perform operation) ∧
      ((cursor.perform operation).reading.fails → (cursor.perform operation).cursor = cursor) := by
  intro cursor position rest
  have here : position = cursor.position := after_eq overflow short (.start bytes) operations
  have behind : rest = cursor.unread := congrArg bytes.drop here
  have left : rest.length = cursor.remaining := by rw [behind, cursor.length_unread]
  rw [left, behind, here]
  refine ⟨cursor.position_le, cursor.position_add_remaining, remaining_eq overflow short cursor,
    unread_eq cursor, seek_eq cursor, find_eq cursor, fun count => ?_, rfl, rfl,
    fun operation => ⟨perform_eq overflow short cursor operation, cursor.perform_of_fails operation⟩⟩
  exact ⟨peek_eq short cursor count, take_eq overflow short cursor count,
    advance_eq overflow short cursor count, copy_eq overflow short cursor count,
    readNat_eq overflow short cursor count⟩

-- Sums are taken modulo the word, where the largest of all counts is a step back by one.
theorem after_safe_modulo :
    let overflow : Int → View Nat := fun number => pure (number % (2 ^ 64 : Nat)).toNat
    let bytes : Bytes             := [1, 2, 3, 4]
    let most                      := 2 ^ 64 - 1
    let operations                := [.seek 3, .seek most, .peek most, .take most, .advance most,
      .copy most, .readNat 8, .find [4], .seek 1, .take 2]
    bytes.length < 2 ^ 64 ∧ after overflow bytes operations 0 = 3 ∧
    seek bytes most 3 = (.ok (.error { position := most, length := 4 }), 3) ∧
    peek bytes most 3 = (.ok none, 3) ∧
    take overflow bytes most 3 = (.ok none, 3) ∧
    advance overflow bytes most 3 = (.error (.advancePastEnd most 1), 3) ∧
    readNat overflow bytes 8 3 = (.error (.readPastEnd 8 1), 3) ∧
    readNat overflow bytes 1 3 = (.ok 4, 4) := by
  intro overflow bytes most operations
  have short : bytes.length < 2 ^ 64 := by decide
  have moved : after overflow bytes operations 0 = 3 := by decide +kernel
  have behind : (Cursor.start bytes).after operations = ⟨3, by decide⟩ := by decide +kernel
  have safe := after_safe overflow short operations
  rw [moved, behind] at safe
  have ⟨_, _, _, _, sought, _, counted, _⟩ := safe
  have ⟨peeked, taken, advanced, _⟩ := counted most
  have ⟨_, _, _, _, beyond⟩ := counted 8
  have ⟨_, _, _, _, within⟩ := counted 1
  exact ⟨short, moved, sought most, peeked, taken, advanced, beyond, within⟩

end View
end Framing
