import LayeredDiagram.Number.Exact
import LayeredDiagram.Text.Blank

namespace LayeredDiagram.Number

open Text

-- A scanned decimal: the number that the digits spell, times `10 ^ exponent`. The digits have no
-- zeros in front, so there are none in a zero.
structure Numeral where
  digits : List Char
  exponent : Int
deriving DecidableEq, Repr

def digitValue (c : Char) : Nat :=
  if c.isDigit then c.toNat - '0'.toNat
  else if c.isAlpha then c.toLower.toNat - 'a'.toNat + 10
  else 36

-- Joins neighbouring places, the lower one first, into places of the squared base.
def joinPlaces (base : Nat) : (places done : List Nat) → List Nat
  | low :: high :: places, done => joinPlaces base places ((low + base * high) :: done)
  | places, done => done.reverse ++ places

-- Each round halves the number of places, so that long numbers are made of few products.
def ofPlaces : (rounds base : Nat) → (places : List Nat) → Nat
  | _, _, [] => 0
  | _, _, [n] => n
  | 0, _, n :: _ => n
  | rounds + 1, base, places => ofPlaces rounds (base * base) (joinPlaces base places [])

def ofDigits (base : Nat) (cs : List Char) : Nat :=
  ofPlaces cs.length base (cs.map digitValue).reverse

def withoutZeros (cs : List Char) : List Char :=
  cs.dropWhile (· == '0')

-- A whole number in any base from two on, which is infinite beyond 1100 digits.
def ofWhole (base : Nat) (cs : List Char) : Float :=
  let cs := withoutZeros cs
  if 1100 < cs.length then infinity else Float.ofScientific (ofDigits base cs) false 0

namespace Numeral

-- Beyond 400 places in either direction every nonzero decimal is infinite or vanishes, whatever
-- its digits are.
def toFloat (n : Numeral) : Float :=
  let place := n.exponent + n.digits.length
  if n.digits.isEmpty || place < -400 then 0.0
  else if 400 < place then infinity
  else Float.ofScientific (ofDigits 10 n.digits) (n.exponent < 0) n.exponent.natAbs

-- An exponent part, or nothing taken where there is none.
def scanExponent (cs : List Char) : Int × List Char :=
  match cs with
  | e :: cs' =>
    if e == 'e' || e == 'E' then
      let (negative, rest) := match cs' with
        | '-' :: r => (true, r)
        | '+' :: r => (false, r)
        | r => (false, r)
      let digits := rest.takeWhile Char.isDigit
      if digits.isEmpty then (0, cs)
      else
        let value : Int := ofDigits 10 digits
        (if negative then -value else value, rest.dropWhile Char.isDigit)
    else (0, cs)
  | [] => (0, [])

-- Digits with an optional point and exponent; at least one digit.
def scan? (cs : List Char) : Option (Numeral × List Char) :=
  let whole := cs.takeWhile Char.isDigit
  let rest := cs.dropWhile Char.isDigit
  let (fraction, rest) := match rest with
    | '.' :: r => (r.takeWhile Char.isDigit, r.dropWhile Char.isDigit)
    | r => ([], r)
  if whole.isEmpty && fraction.isEmpty then none
  else
    let (exponent, rest) := scanExponent rest
    some (⟨withoutZeros (whole ++ fraction), exponent - fraction.length⟩, rest)

end Numeral

-- The sign in front, and what follows it.
def takeSign : List Char → Bool × List Char
  | '-' :: cs => (true, cs)
  | '+' :: cs => (false, cs)
  | cs => (false, cs)

def signed (negative : Bool) (x : Float) : Float :=
  if negative then -x else x

def afterExact : (lead cs : List Char) → Option (List Char)
  | [], cs => some cs
  | _ :: _, [] => none
  | a :: lead, c :: cs => if a == c then afterExact lead cs else none

-- A decimal with an optional sign, or a signed infinity by name.
def scanSigned? (cs : List Char) : Option (Float × List Char) :=
  let (negative, rest) := takeSign cs
  match afterExact "Infinity".toList rest with
  | some rest => some (signed negative infinity, rest)
  | none => (Numeral.scan? rest).map fun (n, rest) => (signed negative n.toFloat, rest)

-- The number at the beginning of a text, if there is one.
def leading? (cs : List Char) : Option Float :=
  (scanSigned? (trimStart cs)).map (·.1)

-- The integer at the beginning of a text; not a number if there is none.
def leadingInteger (cs : List Char) : Float :=
  let (negative, rest) := takeSign (trimStart cs)
  let digits := rest.takeWhile Char.isDigit
  if digits.isEmpty then nan
  else signed negative (ofWhole 10 digits)

-- Digits of another base after its mark.
def prefixedDigits? (cs : List Char) : Option (Nat × List Char) :=
  match cs with
  | '0' :: mark :: digits =>
    match mark.toLower with
    | 'x' => some (16, digits)
    | 'o' => some (8, digits)
    | 'b' => some (2, digits)
    | _ => none
  | _ => none

-- A whole text as a number. Blanks around it do not count, and nothing at all is zero.
def whole (cs : List Char) : Float :=
  let cs := trim cs
  if cs.isEmpty then 0.0
  else match prefixedDigits? cs with
    | some (base, digits) =>
      if !digits.isEmpty && digits.all (digitValue · < base) then ofWhole base digits else nan
    | none =>
      match scanSigned? cs with
      | some (x, []) => x
      | _ => nan

end LayeredDiagram.Number
