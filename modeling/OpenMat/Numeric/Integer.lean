import OpenMat.Numeric.Basic

/-!
This module contains integers as scalars. They agree with `f64` on small integers as long as
quotients are exact and the transcendental functions are taken at zero.
-/

namespace OpenMat

instance : Scalar Int where
  zero := 0
  one := 1
  add := Int.add
  sub := Int.sub
  mul := Int.mul
  div := Int.tdiv
  neg := Int.neg
  math
    | .sin, _ => 0
    | .cos, _ => 1
    | .exp, _ => 1
    | .sqrt, v => v.toNat.sqrt
    | .abs, v => v.natAbs
    | .tanh, _ => 0
  eq a b := decide (a = b)
  lt a b := decide (a < b)
  le a b := decide (a ≤ b)
  isFinite _ := true

end OpenMat
