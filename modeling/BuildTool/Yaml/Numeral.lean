/-!
# Numbers in YAML text

Which texts a reader of YAML takes for numbers: integers in four radices that fit into 128 bits, and
decimal fractions with a value in the range of a double.
-/

namespace BuildTool.Yaml.Numeral

/-- The value of a digit; letters of either case follow the ten figures. -/
def digit? (radix : Nat) (c : Char) : Option Nat :=
  let value :=
    if c.isDigit then some (c.toNat - '0'.toNat)
    else if c.isLower then some (c.toNat - 'a'.toNat + 10)
    else if c.isUpper then some (c.toNat - 'A'.toNat + 10)
    else none
  value.filter (· < radix)

/-- The value of one or more digits. -/
def value? (radix : Nat) (cs : List Char) : Option Nat :=
  if cs.isEmpty then none
  else cs.foldlM (fun v c => (v * radix + ·) <$> digit? radix c) 0

def fits (radix limit : Nat) (cs : List Char) : Bool :=
  (value? radix cs).any (· ≤ limit)

/-- An integer without its sign, with the radix in front where it is not ten. -/
def isMagnitude (limit : Nat) : List Char → Bool
  | '0' :: 'x' :: r => fits 16 limit r
  | '0' :: 'o' :: r => fits 8 limit r
  | '0' :: 'b' :: r => fits 2 limit r
  | cs => fits 10 limit cs

/-- An integer of at most 128 bits. -/
def isInteger : List Char → Bool
  | '-' :: r => isMagnitude (Nat.pow 2 127) r
  | '+' :: r => isMagnitude (Nat.pow 2 128 - 1) r
  | cs => isMagnitude (Nat.pow 2 128 - 1) cs

def unsigned : List Char → List Char
  | '-' :: r => r
  | '+' :: r => r
  | cs => cs

/-- Digits that start with a zero which does not count. -/
def hasLeadingZero (cs : List Char) : Bool :=
  match unsigned cs with
  | '0' :: d :: r => (d :: r).all Char.isDigit
  | _ => false

/-- `digits` as a whole number, times a power of ten. -/
structure Decimal where
  digits : List Char
  exponent : Int

namespace Decimal

/-- A double rounds to a finite value below this. -/
def bound : Nat := Nat.pow 2 1024 - Nat.pow 2 970

/-- Whether the value is in the range of a double. A power of ten that settles the question by
itself is not computed. -/
def isFinite (d : Decimal) : Bool :=
  let m := (value? 10 d.digits).getD 0
  if m = 0 then true
  else if 400 < d.exponent then false
  else if d.exponent + d.digits.length ≤ 0 then true
  else m * Nat.pow 10 d.exponent.toNat < bound * Nat.pow 10 (-d.exponent).toNat

end Decimal

def exponent? : List Char → Option Int
  | '-' :: r => (- Int.ofNat ·) <$> value? 10 r
  | '+' :: r => Int.ofNat <$> value? 10 r
  | cs => Int.ofNat <$> value? 10 cs

/-- Digits with at most one point among them, and perhaps an exponent. -/
def decimal? (cs : List Char) : Option Decimal :=
  let whole := cs.takeWhile Char.isDigit
  let rest := cs.dropWhile Char.isDigit
  let (fraction, rest) :=
    match rest with
    | '.' :: r => (r.takeWhile Char.isDigit, r.dropWhile Char.isDigit)
    | r => ([], r)
  if whole.isEmpty && fraction.isEmpty then none
  else
    let scaled (e : Int) : Decimal := ⟨whole ++ fraction, e - fraction.length⟩
    match rest with
    | [] => some (scaled 0)
    | c :: r => if c = 'e' || c = 'E' then scaled <$> exponent? r else none

def isInfinity (cs : List Char) : Bool :=
  unsigned cs ∈ [".inf".toList, ".Inf".toList, ".INF".toList]

def isNaN (cs : List Char) : Bool :=
  cs ∈ [".nan".toList, ".NaN".toList, ".NAN".toList]

def isFloat (cs : List Char) : Bool :=
  isInfinity cs || isNaN cs || (decimal? (unsigned cs)).any Decimal.isFinite

end BuildTool.Yaml.Numeral
