import GoNav.Kind.Category
import GoNav.Node

namespace GoNav

/-- What to do with the elements of a tree. A node goes to the handler of its kind, if there is one, or
else to that of its class, or else to the one for composite elements, and what is left, as are
tokens and error nodes, goes to the handler for all elements. -/
structure Visitor (σ : Type) where
  element : Element → σ → σ := fun _ s => s
  composite : Option (Node → σ → σ) := none
  expression : Option (Node → σ → σ) := none
  statement : Option (Node → σ → σ) := none
  typ : Option (Node → σ → σ) := none
  specific : Kind → Option (Node → σ → σ) := fun _ => none

namespace Visitor

variable {σ : Type}

def visitComposite (v : Visitor σ) : Node → σ → σ :=
  v.composite.getD fun n => v.element (.node n)

def visitCategory (v : Visitor σ) : Category → Node → σ → σ
  | .composite => v.visitComposite
  | .expression => v.expression.getD v.visitComposite
  | .statement => v.statement.getD v.visitComposite
  | .typ => v.typ.getD v.visitComposite

/-- Hands an element to the most specific handler. -/
def dispatch (v : Visitor σ) (e : Element) (s : σ) : σ :=
  match e with
  | .leaf _ => v.element e s
  | .node n =>
    match n.kind.category with
    | none => v.element e s
    | some category => (v.specific n.kind).getD (v.visitCategory category) n s

/-- Hands a node and all that is below it to the visitor, each element before its own parts. -/
def walk (v : Visitor σ) (n : Node) (s : σ) : σ :=
  n.preorder.foldl (fun s e => v.dispatch e s) s

/-- The handlers of a visitor. -/
inductive Method where
  | element | composite | expression | statement | typ
  | specific (kind : Kind)
  deriving DecidableEq, Repr

/-- A handler that notes each call under the name of a method. -/
def note (method : Method) (n : Node) (calls : List (Method × Element)) : List (Method × Element) :=
  calls ++ [(method, .node n)]

/-- A visitor that notes each call of the given methods and does nothing more, so that a noted call
does not go on to a less specific handler. -/
def recording (methods : Method → Bool) : Visitor (List (Method × Element)) where
  element := fun e calls => if methods .element then calls ++ [(.element, e)] else calls
  composite := if methods .composite then some (note .composite) else none
  expression := if methods .expression then some (note .expression) else none
  statement := if methods .statement then some (note .statement) else none
  typ := if methods .typ then some (note .typ) else none
  specific := fun kind => if methods (.specific kind) then some (note (.specific kind)) else none

/-- The name of the method for one kind of node. -/
def kindMethodName : Kind → String
  | .sourceFile => "visit_source_file"
  | .packageClause => "visit_package_clause"
  | .importDecl => "visit_import_declaration"
  | .importSpec => "visit_import_spec"
  | .importString => "visit_import_string"
  | .typeDecl => "visit_type_declaration"
  | .typeSpec => "visit_type_spec"
  | .varDecl => "visit_var_declaration"
  | .varSpec => "visit_var_spec"
  | .varDef => "visit_var_definition"
  | .constDecl => "visit_const_declaration"
  | .constSpec => "visit_const_spec"
  | .constDef => "visit_const_definition"
  | .functionDecl => "visit_function_declaration"
  | .methodDecl => "visit_method_declaration"
  | .receiver => "visit_receiver"
  | .signature => "visit_signature"
  | .parameters => "visit_parameters"
  | .paramDecl => "visit_parameter_declaration"
  | .paramDef => "visit_param_definition"
  | .result => "visit_result"
  | .typeParameters => "visit_type_parameters"
  | .typeName => "visit_type_name"
  | .typeReference => "visit_type_reference"
  | .pointerType => "visit_pointer_type"
  | .arrayType => "visit_array_type"
  | .mapType => "visit_map_type"
  | .chanType => "visit_chan_type"
  | .functionType => "visit_function_type"
  | .structType => "visit_struct_type"
  | .fieldDecl => "visit_field_declaration"
  | .fieldDef => "visit_field_definition"
  | .anonFieldDef => "visit_anonymous_field_definition"
  | .tag => "visit_tag"
  | .interfaceType => "visit_interface_type"
  | .methodSpec => "visit_method_spec"
  | .embeddedInterface => "visit_embedded_interface"
  | .parenType => "visit_paren_type"
  | .block => "visit_block"
  | .declarationStatement => "visit_declaration_statement"
  | .exprStatement => "visit_expression_statement"
  | .shortVarDecl => "visit_short_var_declaration"
  | .assignmentStatement => "visit_assignment_statement"
  | .incDecStatement => "visit_inc_dec_statement"
  | .sendStatement => "visit_send_statement"
  | .returnStatement => "visit_return_statement"
  | .ifStatement => "visit_if_statement"
  | .forStatement => "visit_for_statement"
  | .forClause => "visit_for_clause"
  | .rangeClause => "visit_range_clause"
  | .switchStatement => "visit_switch_statement"
  | .caseClause => "visit_case_clause"
  | .selectStatement => "visit_select_statement"
  | .commClause => "visit_comm_clause"
  | .goStatement => "visit_go_statement"
  | .deferStatement => "visit_defer_statement"
  | .breakStatement => "visit_break_statement"
  | .continueStatement => "visit_continue_statement"
  | .gotoStatement => "visit_goto_statement"
  | .fallthroughStatement => "visit_fallthrough_statement"
  | .labeledStatement => "visit_labeled_statement"
  | .labelRef => "visit_label_ref"
  | .referenceExpr => "visit_reference_expression"
  | .literal => "visit_literal"
  | .parenExpr => "visit_paren_expression"
  | .functionLit => "visit_function_literal"
  | .compositeLit => "visit_composite_literal"
  | .literalValue => "visit_literal_value"
  | .element => "visit_literal_element"
  | .key => "visit_key"
  | .fieldName => "visit_field_name"
  | .callExpr => "visit_call_expression"
  | .argumentList => "visit_argument_list"
  | .indexExpr => "visit_index_expression"
  | .sliceExpr => "visit_slice_expression"
  | .typeAssertionExpr => "visit_type_assertion_expression"
  | .conversionExpr => "visit_conversion_expression"
  | .unaryExpr => "visit_unary_expression"
  | .orExpr => "visit_or_expression"
  | .andExpr => "visit_and_expression"
  | .conditionalExpr => "visit_conditional_expression"
  | .addExpr => "visit_add_expression"
  | .mulExpr => "visit_mul_expression"
  | _ => "visit_element"

def Method.name : Method → String
  | .element => "visit_element"
  | .composite => "visit_composite_element"
  | .expression => "visit_expression"
  | .statement => "visit_statement"
  | .typ => "visit_type"
  | .specific kind => kindMethodName kind

end Visitor

end GoNav
