namespace GoNav

variable {α : Type}

/-- Puts an element before the first one that comes after it. -/
def insertSorted (before : α → α → Bool) (a : α) : List α → List α
  | [] => [a]
  | b :: rest => if before a b then a :: b :: rest else b :: insertSorted before a rest

/-- Sorts a list. Elements of which neither comes before the other keep their order. -/
def sorted (before : α → α → Bool) (as : List α) : List α :=
  as.foldl (fun done a => insertSorted before a done) []

end GoNav
