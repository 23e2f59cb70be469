import LayeredDiagram.Number.Exact
import LayeredDiagram.Number.Shortest

namespace LayeredDiagram.Number

-- Where positional notation ends: it is used while the point lies after `least`, up to `most`.
structure Spread where
  least : Int
  most : Int

-- From a millionth up to twenty-one digits before the point.
def spread : Spread := ⟨-6, 21⟩

def zeros (n : Nat) : List Char :=
  List.replicate n '0'

namespace Decimal

def exponential (d : Decimal) : List Char :=
  let exponent := d.point - 1
  let mark := if exponent < 0 then ['e', '-'] else ['e', '+']
  let lead := match d.digits with
    | [] => []
    | [c] => [c]
    | c :: cs => c :: '.' :: cs
  lead ++ mark ++ Nat.toDigits 10 exponent.natAbs

def write (d : Decimal) : List Char :=
  if d.point ≤ spread.least || spread.most < d.point then d.exponential
  else if d.point ≤ 0 then ['0', '.'] ++ zeros (-d.point).toNat ++ d.digits
  else if d.digits.length ≤ d.point.toNat then
    d.digits ++ zeros (d.point.toNat - d.digits.length)
  else d.digits.take d.point.toNat ++ ['.'] ++ d.digits.drop d.point.toNat

end Decimal

-- The shortest form that reads back; zero is written without its sign.
def text (x : Float) : String :=
  match x.toModel.unpack with
  | .notANumber => "NaN"
  | .infinity s => if s == .negative then "-Infinity" else "Infinity"
  | .zero _ => "0"
  | .finite s m e _ =>
    let digits := (Neighbourhood.ofParts m e).shortest.write
    String.ofList (if s == .negative then '-' :: digits else digits)

-- The quotient to the nearest whole number, a half going up.
def roundHalfUp (num den : Nat) : Nat :=
  (2 * num + den) / (2 * den)

-- `n` counts the last of `places` decimals.
def withPoint (places n : Nat) : List Char :=
  let digits := Nat.toDigits 10 n
  let padded := zeros (places + 1 - digits.length) ++ digits
  padded.take (padded.length - places) ++ ['.'] ++ padded.drop (padded.length - places)

-- Two decimals, rounded from the exact value. A negative number that rounds to zero keeps its
-- sign; a number of more than twenty-one digits is written in its shortest form.
def fixed (x : Float) : String :=
  match x.toModel.unpack with
  | .zero _ => "0.00"
  | .finite s m e _ =>
    let num := m <<< e.toNat
    let den := 1 <<< (-e).toNat
    if Nat.pow 10 21 * den ≤ num then text x
    else
      let digits := withPoint 2 (roundHalfUp (num * 100) den)
      String.ofList (if s == .negative then '-' :: digits else digits)
  | _ => text x

end LayeredDiagram.Number
