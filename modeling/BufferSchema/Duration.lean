import BufferSchema.Timestamp

/-!
# Durations

How long something took, told in the largest unit of which it fills at least one, with two decimals.
-/

namespace BufferSchema.Duration

/-- A quotient with two decimals, a half rounded up. -/
def withDecimals (dividend divisor : Nat) : String :=
  let hundredths := (200 * dividend + divisor) / (2 * divisor)
  s!"{hundredths / 100}.{Timestamp.padded 2 (hundredths % 100)}"

/-- A number of nanoseconds in words. -/
def text (nanoseconds : Nat) : String :=
  if 1000000000 ≤ nanoseconds then withDecimals nanoseconds 1000000000 ++ "s"
  else if 1000000 ≤ nanoseconds then withDecimals nanoseconds 1000000 ++ "ms"
  else if 1000 ≤ nanoseconds then withDecimals nanoseconds 1000 ++ "µs"
  else withDecimals nanoseconds 1 ++ "ns"

end BufferSchema.Duration
