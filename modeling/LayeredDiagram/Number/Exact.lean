namespace LayeredDiagram.Number

open Float.Model (UnpackedFloat)

-- Does the count `n` exceed `x`? It is compared with the exact value of `x`, never through a
-- rounded conversion. Nothing exceeds what is not a number.
def exceeds (n : Nat) (x : Float) : Bool :=
  match x.toModel.unpack with
  | .notANumber => false
  | .infinity s => s == .negative
  | .zero _ => 0 < n
  | .finite .negative _ _ _ => true
  | .finite .positive m e _ =>
    if 0 ≤ e then m <<< e.toNat < n else m < n <<< (-e).toNat

def isWhole (x : Float) : Bool :=
  match x.toModel.unpack with
  | .zero _ => true
  | .finite _ m e _ => 0 ≤ e || m % (1 <<< (-e).toNat) == 0
  | _ => false

-- The value of the bit that holds the sign.
def signBit : Nat := 1 <<< 63

def isNegative (x : Float) : Bool :=
  signBit ≤ x.toBits.toNat

-- The bits after the sign grow with the magnitude, so they order the numbers, and both zeros are 0.
-- What is not a number has no rank.
def rank? (x : Float) : Option Int :=
  let magnitude := Int.ofNat (x.toBits.toNat % signBit)
  if x.isNaN then none
  else if isNegative x then some (-magnitude)
  else some magnitude

def infinity : Float := 1.0 / 0.0

def nan : Float := 0.0 / 0.0

-- The larger of two numbers: not a number if either is none, and of two zeros the positive one.
def larger (x y : Float) : Float :=
  if x.isNaN || y.isNaN then nan
  else if x < y then y
  else if y < x then x
  else if isNegative x then y
  else x

end LayeredDiagram.Number
