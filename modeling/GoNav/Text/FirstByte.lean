import GoNav.Text.DecimalDigit
import GoNav.Text.Letter

namespace GoNav.Text

/-- The first byte of a code point in UTF-8. It never decreases from one code point to the next. -/
def firstByte (n : Nat) : Nat :=
  if n < 0x80 then n
  else if n < 0x800 then 0xc0 + n / 0x40
  else if n < 0x10000 then 0xe0 + n / 0x1000
  else 0xf0 + n / 0x40000

/-- Whether a character of the set starts with the given byte; the search ends at the first range
that starts behind it. -/
def Ranges.hasFirstByte (byte : Nat) : Ranges → Bool
  | [] => false
  | (low, high) :: rest =>
    firstByte low ≤ byte && (byte ≤ firstByte high || hasFirstByte byte rest)

/-- Whether some letter or decimal digit starts with the same byte as the character. -/
def startsLikeWord (c : Char) : Bool :=
  letterRanges.hasFirstByte (firstByte c.toNat) ||
    decimalDigitRanges.hasFirstByte (firstByte c.toNat)

end GoNav.Text
