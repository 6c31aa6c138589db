import GoNav.Proofs.Node.Descent
import GoNav.Visitor

namespace GoNav

/-- The handler for all nodes of a class. Composite nodes have none but the one that all nodes share. -/
def Category.method? : Category → Option Visitor.Method
  | .expression => some .expression
  | .statement => some .statement
  | .typ => some .typ
  | .composite => none

/-- The kinds that are of no class are those of tokens and of error nodes. -/
theorem Kind.category_eq_none_iff (kind : Kind) :
    kind.category = none ↔ kind.isToken = true ∨ kind = .error := by
  have all : (Kind.all.all fun kind => kind.category.isNone == (kind.isToken || kind == .error)) = true := by
    decide +kernel
  have here := List.all_eq_true.mp all kind (List.mem_of_getElem? (ofIndex?_index kind))
  rw [beq_iff_eq] at here
  rw [← Option.isNone_iff_eq_none, here, Bool.or_eq_true, beq_iff_eq]

namespace Visitor

/-- The handlers through which an element goes, the most specific first. -/
def chain : Element → List Method
  | .leaf _ => [.element]
  | .node n =>
    match n.kind.category with
    | none => [.element]
    | some category => .specific n.kind :: (category.method?.toList ++ [.composite, .element])

/-- The call that is noted for an element that goes through handlers: that of the first one which notes
calls. -/
def noted? (methods : Method → Bool) (handlers : List Method) (e : Element) : Option (Method × Element) :=
  (handlers.find? methods).map fun method => (method, e)

variable (methods : Method → Bool)

theorem recording_element (e : Element) (calls : List (Method × Element)) :
    (recording methods).element e calls = calls ++ (noted? methods [.element] e).toList := by
  cases noting : methods .element <;> simp [recording, noted?, noting]

/-- A handler that notes calls stands before those that are less specific. -/
theorem getD_note {method : Method} {handlers : List Method} {n : Node} {calls : List (Method × Element)}
    {other : Node → List (Method × Element) → List (Method × Element)}
    (less : other n calls = calls ++ (noted? methods handlers (.node n)).toList) :
    (if methods method then some (note method) else none).getD other n calls =
      calls ++ (noted? methods (method :: handlers) (.node n)).toList := by
  cases noting : methods method with
  | true => simp [noted?, noting, note]
  | false => simpa [noted?, noting] using less

theorem recording_visitComposite (n : Node) (calls : List (Method × Element)) :
    (recording methods).visitComposite n calls =
      calls ++ (noted? methods [.composite, .element] (.node n)).toList :=
  getD_note methods (recording_element methods (.node n) calls)

theorem recording_visitCategory (category : Category) (n : Node) (calls : List (Method × Element)) :
    (recording methods).visitCategory category n calls =
      calls ++ (noted? methods (category.method?.toList ++ [.composite, .element]) (.node n)).toList := by
  have composite := recording_visitComposite methods n calls
  cases category with
  | composite => exact composite
  | expression | statement | typ => exact getD_note methods composite

/-- An element is noted once or not at all. -/
theorem recording_dispatch (e : Element) (calls : List (Method × Element)) :
    (recording methods).dispatch e calls = calls ++ (noted? methods (chain e) e).toList := by
  cases e with
  | leaf l => exact recording_element methods (.leaf l) calls
  | node n =>
    simp only [dispatch, chain]
    cases n.kind.category with
    | none => exact recording_element methods (.node n) calls
    | some category => exact getD_note methods (recording_visitCategory methods category n calls)

theorem foldl_recording_dispatch (elements : List Element) (calls : List (Method × Element)) :
    elements.foldl (fun calls e => (recording methods).dispatch e calls) calls =
      calls ++ elements.filterMap fun e => noted? methods (chain e) e := by
  induction elements generalizing calls with
  | nil => simp
  | cons e rest ih =>
    rw [List.foldl_cons, ih, recording_dispatch, List.append_assoc]
    cases noted : noted? methods (chain e) e <;> simp [noted]

/-- A visitor that notes the calls of some handlers notes one call for each element at or below the node from which
it walks, if the chain of the element comes to one of these handlers, and it is that of the first to which it
comes. Elements are met each before its own parts, and these from left to right. Tokens and error nodes go to the
handler for all elements at once, and all other nodes through the whole chain. -/
theorem walk_recording (n : Node) (calls : List (Method × Element)) :
    (recording methods).walk n calls =
        calls ++ n.preorder.filterMap (fun e => ((chain e).find? methods).map fun method => (method, e)) ∧
      n.preorder = .node n :: n.elements.flatMap Element.preorder ∧
      ∀ kind : Kind, kind.category = none ↔ kind.isToken = true ∨ kind = .error :=
  ⟨foldl_recording_dispatch methods n.preorder calls, n.preorder_eq, Kind.category_eq_none_iff⟩

end Visitor

end GoNav
