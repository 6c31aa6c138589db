import GoNav.Resolve
import GoNav.Text.Alphanumeric

namespace GoNav

/-- A name to put in at the cursor. Names of a lower priority number come first. -/
structure Completion where
  label : String
  kind : NameKind
  detail : Option String
  priority : Nat

namespace Completion

/-- The identifier that is put in at the cursor, so that a reference stands there. -/
def placeholder : String := "goscopeCompletionPlaceholder"

/-- The characters before and behind a byte offset, unless it lies behind the text or inside a
character. -/
def splitAt? : Nat → List Char → Option (List Char × List Char)
  | 0, cs => some ([], cs)
  | _ + 1, [] => none
  | offset, c :: rest =>
    if c.utf8Size ≤ offset then
      (splitAt? (offset - c.utf8Size) rest).map fun (before, behind) => (c :: before, behind)
    else none

/-- The part of a name that ends the given text. -/
def typed (before : List Char) : List Char :=
  (before.reverse.takeWhile fun c => Text.isAlphanumeric c || c == '_').reverse

def ofItem (priority : Nat) (item : Item) : Completion where
  label := item.name
  kind := item.kind
  detail := (item.declaration.bind Declaration.type?).map (·.node.text)
  priority

/-- The items whose names start as typed, each name once and with its place among all items. -/
def select (start : List Char) : Nat → List String → List Item → List Completion
  | _, _, [] => []
  | place, seen, item :: rest =>
    if start.isPrefixOf item.name.toList && !seen.contains item.name then
      ofItem place item :: select start (place + 1) (item.name :: seen) rest
    else select start (place + 1) seen rest

end Completion

/-- The names that could stand at a byte offset and start as typed there. -/
def Workspace.completionsAt (ws : Workspace) (file : FileId) (offset : Nat) : List Completion :=
  match ws.file? file with
  | none => []
  | some f =>
    match Completion.splitAt? offset f.text.toList with
    | none => []
    | some (before, behind) =>
      let text := String.ofList (before ++ Completion.placeholder.toList ++ behind)
      let (id, scratch) := ws.setText f.path text
      match Reference.at? scratch id offset with
      | none => []
      | some r => Completion.select (Completion.typed before) 0 [] (r.candidates scratch)

end GoNav
