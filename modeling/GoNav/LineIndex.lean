namespace GoNav

/-- A sum of 32-bit numbers that is none itself. It ends the computation that it is met in. -/
inductive Overflow where
  | overflow
  deriving DecidableEq, Repr

/-- The sum of two 32-bit numbers. -/
def checkedAdd (a b : UInt32) : Except Overflow UInt32 :=
  if a.toNat + b.toNat < UInt32.size then .ok (a + b) else .error .overflow

/-- A line and a column, both counted from zero. Columns count bytes. -/
structure LineCol where
  line : UInt32
  col : UInt32
  deriving DecidableEq, Repr

/-- A position as editors show it, counted from one. -/
def LineCol.display (p : LineCol) : Except Overflow String := do
  return toString (← checkedAdd p.line 1) ++ ":" ++ toString (← checkedAdd p.col 1)

/-- The byte offsets at which the lines of a text start, and its length in bytes. -/
structure LineIndex where
  starts : List UInt32
  size : UInt32
  deriving DecidableEq, Repr

namespace LineIndex

/-- The offsets just behind the line breaks of a text that starts at `offset`. -/
def startsFrom (offset : Nat) : List Char → List UInt32
  | [] => []
  | c :: rest =>
    let next := offset + c.utf8Size
    if c = '\n' then next.toUInt32 :: startsFrom next rest else startsFrom next rest

def ofText (text : String) : LineIndex where
  starts := 0 :: startsFrom 0 text.toList
  size := text.utf8ByteSize.toUInt32

/-- The number of lines. A line break at the very end starts a last, empty line. -/
def lines (index : LineIndex) : Nat :=
  index.starts.length

/-- The position of a byte offset; an offset behind the text has the position of its end. -/
def lineCol (index : LineIndex) (offset : UInt32) : LineCol :=
  let offset := min offset index.size
  let line := (index.starts.takeWhile (· ≤ offset)).length - 1
  ⟨line.toUInt32, offset - index.starts.getD line 0⟩

/-- The byte offset of a position, if the line exists and the column does not lie behind its end. The
column is added to the start of the line before it is compared. -/
def offset (index : LineIndex) (p : LineCol) : Except Overflow (Option UInt32) :=
  match index.starts[p.line.toNat]? with
  | none => .ok none
  | some start =>
    let stop := (index.starts[p.line.toNat + 1]?.map (· - 1)).getD index.size
    match checkedAdd start p.col with
    | .error fault => .error fault
    | .ok offset => .ok (if offset ≤ stop then some offset else none)

/-- The positions of the two ends of a range. -/
def range (index : LineIndex) (start stop : UInt32) : LineCol × LineCol :=
  (index.lineCol start, index.lineCol stop)

end LineIndex

end GoNav
