/-!
# Decimal numbers and doubles

Which decimal numbers are too large for a floating-point number of 64 bits.
-/

namespace HeapDomains

/-- The least magnitude that rounds to no double. -/
def doubleLimit : Nat := 1 <<< 1024 - 1 <<< 970

/-- Whether `significand · 10 ^ exponent` is beyond the range of doubles. The number of digits
decides unless it is that of the limit. -/
def exceedsDouble (significand : Nat) (exponent : Int) : Bool :=
  let magnitude := (Nat.toDigits 10 significand).length + exponent
  if significand = 0 then false
  else if 309 < magnitude then true
  else if magnitude < 309 then false
  else
    doubleLimit * Nat.pow 10 (-exponent).toNat ≤ significand * Nat.pow 10 exponent.toNat

end HeapDomains
