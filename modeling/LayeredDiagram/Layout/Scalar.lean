import LayeredDiagram.Number.Exact

namespace LayeredDiagram

-- Numbers that positions are computed in.
class Scalar (K : Type) extends Add K, Sub K, Mul K, Div K where
  ofNat : Nat → K
  larger : K → K → K

instance : Scalar Float where
  ofNat := Float.ofNat
  larger := Number.larger

end LayeredDiagram
