import Framing.Json

/-!
From characters to tokens.
-/

namespace Framing.Json

def isBlank (char : Char) : Bool :=
  [' ', '\t', '\n', '\r'].contains char

/-! ### Numbers -/

-- The digits at the start of `chars`, of which there must be one at least, and what follows them.
def digits? (chars : List Char) : Option (List Char × List Char) :=
  match chars.takeWhile Char.isDigit with
  | []     => none
  | digits => some (digits, chars.dropWhile Char.isDigit)

-- What follows the fraction at the start of `chars`, if there is one.
def afterFraction? : List Char → Option (List Char)
  | '.' :: chars => (digits? chars).map Prod.snd
  | chars        => some chars

-- What follows the exponent at the start of `chars`, if there is one.
def afterExponent? : List Char → Option (List Char)
  | 'e' :: chars => (digits? (unsigned chars)).map Prod.snd
  | 'E' :: chars => (digits? (unsigned chars)).map Prod.snd
  | chars        => some chars
where
  unsigned : List Char → List Char
    | '+' :: chars => chars
    | '-' :: chars => chars
    | chars        => chars

def naturalOf (digits : List Char) : Nat :=
  digits.foldl (fun number digit => number * 10 + (digit.toNat - '0'.toNat)) 0

-- The number after a possible sign. It does not start with a zero that more digits follow.
def unsigned? (chars : List Char) : Option (Json × List Char) := do
  let (digits, rest) ← digits? chars
  guard (digits.head? ≠ some '0' ∨ digits = ['0'])
  let tail ← (afterFraction? rest).bind afterExponent?
  return (.number (if tail = rest then some (naturalOf digits) else none), tail)

def number? : List Char → Option (Json × List Char)
  | '-' :: chars => (unsigned? chars).map fun (_, rest) => (.number none, rest)
  | chars        => unsigned? chars

/-! ### Strings -/

-- A character of a string as it is written: itself, or an escaped UTF-16 unit.
inductive Piece where
  | char (char : Char)
  | unit (unit : Nat)
  deriving DecidableEq, Repr

def escaped? : Char → Option Char
  | '"'  => some '"'
  | '\\' => some '\\'
  | '/'  => some '/'
  | 'b'  => some '\x08'
  | 'f'  => some '\x0c'
  | 'n'  => some '\n'
  | 'r'  => some '\r'
  | 't'  => some '\t'
  | _    => none

def hexDigit? (char : Char) : Option Nat :=
  if char.isDigit then
    some (char.toNat - '0'.toNat)
  else if 'a' ≤ char ∧ char ≤ 'f' then
    some (char.toNat - 'a'.toNat + 10)
  else if 'A' ≤ char ∧ char ≤ 'F' then
    some (char.toNat - 'A'.toNat + 10)
  else
    none

def unit? (a b c d : Char) : Option Nat := do
  return (((← hexDigit? a) * 16 + (← hexDigit? b)) * 16 + (← hexDigit? c)) * 16 + (← hexDigit? d)

-- The pieces up to the closing quote, and what follows it.
def pieces? : List Char → Option (List Piece × List Char)
  | []                                       => none
  | '"' :: rest                              => some ([], rest)
  | '\\' :: 'u' :: a :: b :: c :: d :: chars => do
    let unit ← unit? a b c d
    let (pieces, rest) ← pieces? chars
    return (.unit unit :: pieces, rest)
  | '\\' :: char :: chars                    => do
    let char ← escaped? char
    let (pieces, rest) ← pieces? chars
    return (.char char :: pieces, rest)
  | char :: chars                            =>
    if char ≠ '\\' ∧ ' ' ≤ char then do
      let (pieces, rest) ← pieces? chars
      return (.char char :: pieces, rest)
    else
      none

def isLeading (unit : Nat) : Bool :=
  0xd800 ≤ unit && unit < 0xdc00

def isTrailing (unit : Nat) : Bool :=
  0xdc00 ≤ unit && unit < 0xe000

-- The text that the pieces spell: a leading surrogate needs a trailing one behind it, and only there
-- may a trailing one stand.
def spell? : List Piece → Option (List Char)
  | []                   => some []
  | .char char :: pieces => (spell? pieces).map (char :: ·)
  | .unit unit :: pieces =>
    if isTrailing unit then
      none
    else if isLeading unit then
      match pieces with
      | .unit next :: pieces =>
        if isTrailing next then
          (spell? pieces).map
            (Char.ofNat (0x10000 + (unit - 0xd800) * 0x400 + (next - 0xdc00)) :: ·)
        else
          none
      | _                    => none
    else
      (spell? pieces).map (Char.ofNat unit :: ·)

/-! ### Tokens -/

-- The token that starts with `char`, and what follows it.
def token? (char : Char) (chars : List Char) : Option (Token × List Char) :=
  match char with
  | ',' => some (.comma, chars)
  | ':' => some (.colon, chars)
  | '[' => some (.openArray, chars)
  | ']' => some (.closeArray, chars)
  | '{' => some (.openObject, chars)
  | '}' => some (.closeObject, chars)
  | '"' => (pieces? chars).map fun (pieces, rest) =>
    (.scalar (.string ((spell? pieces).map String.ofList)), rest)
  | 'n' => literal ['u', 'l', 'l'] .null
  | 't' => literal ['r', 'u', 'e'] (.bool true)
  | 'f' => literal ['a', 'l', 's', 'e'] (.bool false)
  | _   => (number? (char :: chars)).map fun (value, rest) => (.scalar value, rest)
where
  literal (rest : List Char) (value : Json) : Option (Token × List Char) :=
    if rest.isPrefixOf chars then some (.scalar value, chars.drop rest.length) else none

/-! ### Reading only goes forward -/

theorem length_digits?_lt {chars digits rest : List Char}
    (h : digits? chars = some (digits, rest)) : rest.length < chars.length := by
  have length := congrArg List.length <|
    List.takeWhile_append_dropWhile (p := Char.isDigit) (l := chars)
  unfold digits? at h
  split at h
  case h_1 => contradiction
  case h_2 nonempty =>
    cases h
    have := List.length_pos_iff.mpr nonempty
    rw [List.length_append] at length
    omega

theorem length_digits?_snd_lt {chars rest : List Char}
    (h : (digits? chars).map Prod.snd = some rest) : rest.length < chars.length := by
  have ⟨_, hd, hr⟩ := Option.map_eq_some_iff.mp h
  exact hr ▸ length_digits?_lt hd

theorem length_afterFraction?_le {chars rest : List Char}
    (h : afterFraction? chars = some rest) : rest.length ≤ chars.length := by
  unfold afterFraction? at h
  split at h
  case h_1 => exact Nat.le_succ_of_le <| Nat.le_of_lt <| length_digits?_snd_lt h
  case h_2 =>
    cases h
    exact Nat.le_refl _

theorem length_afterExponent?_le {chars rest : List Char}
    (h : afterExponent? chars = some rest) : rest.length ≤ chars.length := by
  have length_unsigned_le (chars : List Char) :
      (afterExponent?.unsigned chars).length ≤ chars.length := by
    unfold afterExponent?.unsigned
    split <;> simp
  unfold afterExponent? at h
  split at h
  case h_3 =>
    cases h
    exact Nat.le_refl _
  all_goals
    have := length_digits?_snd_lt h
    exact Nat.le_succ_of_le <| Nat.le_trans (Nat.le_of_lt this) (length_unsigned_le _)

theorem length_unsigned?_lt {chars rest : List Char} {value : Json}
    (h : unsigned? chars = some (value, rest)) : rest.length < chars.length := by
  obtain ⟨⟨_, _⟩, hd, h⟩ := Option.bind_eq_some_iff.mp h
  obtain ⟨_, _, h⟩ := Option.bind_eq_some_iff.mp h
  obtain ⟨_, ht, hr⟩ := Option.bind_eq_some_iff.mp h
  obtain ⟨_, hf, he⟩ := Option.bind_eq_some_iff.mp ht
  cases hr
  have := Nat.le_trans (length_afterExponent?_le he) (length_afterFraction?_le hf)
  exact Nat.lt_of_le_of_lt this (length_digits?_lt hd)

theorem length_number?_lt {chars rest : List Char} {value : Json}
    (h : number? chars = some (value, rest)) : rest.length < chars.length := by
  unfold number? at h
  split at h
  case h_1 =>
    have ⟨_, hu, hr⟩ := Option.map_eq_some_iff.mp h
    cases hr
    exact Nat.lt_succ_of_lt (length_unsigned?_lt hu)
  case h_2 => exact length_unsigned?_lt h

theorem length_pieces?_lt {chars rest : List Char} {pieces : List Piece}
    (h : pieces? chars = some (pieces, rest)) : rest.length < chars.length := by
  fun_induction pieces? chars generalizing pieces
  case case1 | case6 => contradiction
  case case2 =>
    cases h
    exact Nat.lt_succ_self _
  case case3 ih | case4 ih =>
    obtain ⟨_, _, h⟩ := Option.bind_eq_some_iff.mp h
    obtain ⟨⟨_, _⟩, hp, hr⟩ := Option.bind_eq_some_iff.mp h
    cases hr
    refine Nat.lt_of_lt_of_le (ih hp) ?_
    simp only [List.length_cons]
    omega
  case case5 ih =>
    obtain ⟨⟨_, _⟩, hp, hr⟩ := Option.bind_eq_some_iff.mp h
    cases hr
    exact Nat.lt_succ_of_lt (ih hp)

theorem length_token?_le {char : Char} {chars rest : List Char} {token : Token}
    (h : token? char chars = some (token, rest)) : rest.length ≤ chars.length := by
  have length_literal_le {word : List Char} {value : Json}
      (h : token?.literal chars word value = some (token, rest)) :
      rest.length ≤ chars.length := by
    unfold token?.literal at h
    split at h
    case isTrue =>
      cases h
      exact List.length_drop ▸ Nat.sub_le _ _
    case isFalse => contradiction
  unfold token? at h
  split at h
  case h_7 =>
    have ⟨_, hp, hr⟩ := Option.map_eq_some_iff.mp h
    cases hr
    exact Nat.le_of_lt (length_pieces?_lt hp)
  case h_8 | h_9 | h_10 => exact length_literal_le h
  case h_11 =>
    have ⟨_, hn, hr⟩ := Option.map_eq_some_iff.mp h
    cases hr
    exact Nat.le_of_lt_succ (length_number?_lt hn)
  all_goals
    cases h
    exact Nat.le_refl _

-- The tokens of a text, blanks left out.
def tokens? : List Char → Option (List Token)
  | []            => some []
  | char :: chars =>
    if isBlank char then
      tokens? chars
    else
      match _ : token? char chars with
      | none               => none
      | some (token, rest) => (tokens? rest).map (token :: ·)
termination_by chars => chars.length
decreasing_by
  · exact Nat.lt_succ_self _
  · exact Nat.lt_succ_of_le (length_token?_le ‹_›)

end Framing.Json
