import GoNav.OsText

namespace GoNav

/-- A file path as it is written. Slashes separate its components. -/
structure Path where
  text : OsText
  deriving Repr, Inhabited

namespace Path

/-- The parts that a path has a meaning by. A `.` is one of them only at the start of a relative
path. -/
inductive Component where
  | root
  | current
  | parent
  | name (text : OsText)
  deriving DecidableEq, Repr

def slash : UInt8 :=
  '/'.toUInt8

@[simp]
theorem bytes_slash : (OsText.ofString "/").bytes = [slash] := by
  decide

def isAbsolute (p : Path) : Bool :=
  p.text.bytes.head? == some slash

/-- The texts between the slashes. -/
def splitSlashes : List UInt8 → List (List UInt8)
  | [] => [[]]
  | c :: rest =>
    match splitSlashes rest with
    | [] => [[c]]
    | first :: more => if c = slash then [] :: first :: more else (c :: first) :: more

def pieces (p : Path) : List OsText :=
  (splitSlashes p.text.bytes).map OsText.mk

/-- What stands between two slashes, unless it has no effect. -/
def Component.ofPiece (piece : OsText) : Option Component :=
  if piece = "" ∨ piece = "." then none
  else if piece = ".." then some .parent
  else some (.name piece)

def components (p : Path) : List Component :=
  match p.pieces with
  | [] => []
  | first :: rest =>
    let start :=
      if p.isAbsolute then [Component.root]
      else if first = "." then [Component.current]
      else (Component.ofPiece first).toList
    start ++ rest.filterMap Component.ofPiece

/-- Paths with the same components name the same thing. -/
instance : BEq Path where
  beq p q := p.components == q.components

theorem beq_iff_components {p q : Path} : (p == q) = true ↔ p.components = q.components :=
  show (p.components == q.components) = true ↔ p.components = q.components from beq_iff_eq

instance : EquivBEq Path where
  rfl := beq_iff_components.mpr rfl
  symm same := beq_iff_components.mpr (beq_iff_components.mp same).symm
  trans left right := beq_iff_components.mpr ((beq_iff_components.mp left).trans (beq_iff_components.mp right))

/-- Pieces up to the last one that has an effect. -/
def trimPieces (ps : List OsText) : List OsText :=
  (ps.reverse.dropWhile fun piece => (Component.ofPiece piece).isNone).reverse

/-- The path without its last component. The root and the empty path have none. -/
def parent? (p : Path) : Option Path :=
  match p.pieces with
  | [] => none
  | first :: rest =>
    match (trimPieces rest).reverse with
    | [] => if first = "" then none else some ⟨""⟩
    | _ :: before =>
      let kept := trimPieces before.reverse
      if p.isAbsolute && kept.isEmpty then some ⟨"/"⟩
      else some ⟨.intercalate "/" (first :: kept)⟩

/-- The last component, if it is a name and consists of characters. -/
def fileName? (p : Path) : Option String :=
  match p.components.getLast? with
  | some (.name text) => text.text?
  | _ => none

/-- The second path as seen from the first. An absolute path is the same seen from anywhere. -/
def join (p q : Path) : Path :=
  if q.isAbsolute then q
  else if p.text = "" ∨ p.text.bytes.getLast? = some slash then ⟨p.text ++ q.text⟩
  else ⟨p.text ++ "/" ++ q.text⟩

/-- The shortest way to write components. -/
def ofComponents : List Component → Path
  | .root :: rest => ⟨"/" ++ .intercalate "/" (rest.map write)⟩
  | components => ⟨.intercalate "/" (components.map write)⟩
where
  write : Component → OsText
    | .root => "/"
    | .current => "."
    | .parent => ".."
    | .name text => text

/-- Takes one more component into a normal path. A `..` takes away the last component, be it a `..`
itself, and stays only where there is nothing to take away. -/
def step (done : List Component) : Component → List Component
  | .current => done
  | .parent =>
    match done.getLast? with
    | none | some .root => done ++ [.parent]
    | some _ => done.dropLast
  | component => done ++ [component]

/-- The path without `.` and with each `..` worked off against what stands before it. -/
def normalize (p : Path) : Path :=
  ofComponents (p.components.foldl step [])

/-- Orders the components of one kind before those of another, and names by their bytes. -/
def Component.rank : Component → Nat × List Nat
  | .root => (0, [])
  | .current => (1, [])
  | .parent => (2, [])
  | .name text => (3, text.bytes.map UInt8.toNat)

def Component.before (a b : Component) : Bool :=
  a.rank.1 < b.rank.1 || (a.rank.1 == b.rank.1 && a.rank.2 < b.rank.2)

/-- Orders component lists by the first difference, a shorter list before its extensions. -/
def componentsBefore : List Component → List Component → Bool
  | [], [] => false
  | [], _ :: _ => true
  | _ :: _, [] => false
  | a :: as, b :: bs => a.before b || (a == b && componentsBefore as bs)

/-- Paths are ordered component by component. -/
def before (p q : Path) : Bool :=
  componentsBefore p.components q.components

end Path

end GoNav
