namespace GoNav.Text

/-- A set of characters as its code point ranges, lowest first, both ends included. -/
abbrev Ranges := List (Nat × Nat)

/-- Membership; the search ends at the first range that starts behind the character. -/
def Ranges.contains (n : Nat) : Ranges → Bool
  | [] => false
  | (low, high) :: rest => low ≤ n && (n ≤ high || contains n rest)

end GoNav.Text
