import Conformance.Proofs.Expressions

/-! Spans, tokens, trees and diagnostics moved to a later place. The nodes of the grammar for tokens
that are moved are those for the tokens, moved. -/

namespace Conformance

namespace Span

/-- A span `n` characters later. -/
def moved (n : Nat) (span : Span) : Span :=
  ⟨span.start + n, span.stop + n, Nat.add_le_add_right span.ordered n⟩

variable (n : Nat) (span : Span)

@[simp] theorem moved_start : (span.moved n).start = span.start + n := rfl

@[simp] theorem moved_stop : (span.moved n).stop = span.stop + n := rfl

@[simp] theorem moved_zero : span.moved 0 = span := rfl

@[simp] theorem length_moved : (span.moved n).length = span.length := by
  simp only [length, moved_start, moved_stop]
  omega

theorem moved_join (other : Span) :
    (span.join other).moved n = (span.moved n).join (other.moved n) := by
  simp only [moved, join, mk.injEq]
  omega

theorem moved_ofLength (start length : Nat) :
    (ofLength start length).moved n = ofLength (start + n) length := by
  simp only [moved, ofLength, mk.injEq, true_and]
  omega

/-- What a span covers, with more in front of the source. -/
theorem slice_append (before source : String) (span : Span) :
    (span.moved before.toList.length).slice (before ++ source) = span.slice source := by
  have stop : span.stop + before.toList.length = before.toList.length + span.stop := by omega
  have start : span.start + before.toList.length = before.toList.length + span.start := by omega
  simp only [slice, moved, String.toList_append, stop, start, List.take_length_add_append,
    List.drop_length_add_append]

end Span

/-- A location `n` characters later. -/
def Location.moved (n : Nat) (location : Location) : Location :=
  { location with fields := location.fields.map fun field => (field.1, field.2.map (Span.moved n)) }

theorem Location.field?_moved (n : Nat) (location : Location) (name : String) :
    (location.moved n).field? name = (location.field? name).map (Option.map (Span.moved n)) := by
  unfold field? moved
  rw [List.find?_map, Option.map_map, Option.map_map]
  rfl

theorem Location.moved_zero (location : Location) : location.moved 0 = location := by
  have same (field : String × Option Span) : (field.1, field.2.map (Span.moved 0)) = field := by
    obtain ⟨name, span⟩ := field
    cases span <;> rfl
  simp [moved, same]

/-- A diagnostic `n` characters later. -/
def Diagnostic.moved (n : Nat) (d : Diagnostic) : Diagnostic :=
  { d with location := d.location.moved n, highlights := d.highlights.map (Span.moved n) }

theorem Diagnostic.moved_zero (d : Diagnostic) : d.moved 0 = d := by
  have highlights : d.highlights.map (Span.moved 0) = d.highlights := List.map_id _
  rw [moved, Span.moved_zero, highlights]

namespace Dialect

/-- A token `n` characters later. -/
def Token.moved (n : Nat) (token : Token) : Token := { token with span := token.span.moved n }

section Token

variable (n : Nat) (token : Token)

@[simp] theorem Token.moved_kind : (token.moved n).kind = token.kind := rfl

@[simp] theorem Token.moved_text : (token.moved n).text = token.text := rfl

@[simp] theorem Token.moved_spaced : (token.moved n).spaced = token.spaced := rfl

@[simp] theorem Token.moved_span : (token.moved n).span = token.span.moved n := rfl

@[simp] theorem Token.moved_zero : token.moved 0 = token := rfl

end Token

namespace Node

mutual

/-- A tree `n` characters later. -/
def moved (n : Nat) : Node → Node
  | .mk kind children location context =>
    .mk kind (movedChildren n children) (location.map (Location.moved n)) context

def movedChildren (n : Nat) : List Child → List Child
  | [] => []
  | child :: more => movedChild n child :: movedChildren n more

def movedChild (n : Nat) : Child → Child
  | .node node => .node (moved n node)
  | child => child

end

variable {n : Nat} {node : Node}

theorem movedChildren_eq (children : List Child) :
    movedChildren n children = children.map (movedChild n) := by
  induction children with
  | nil => rfl
  | cons child more ih => rw [movedChildren, ih, List.map_cons]

theorem moved_mk (kind : NodeKind) (children : List Child) (location : Option Location)
    (context : Option Flags) :
    (mk kind children location context).moved n =
      .mk kind (children.map (movedChild n)) (location.map (Location.moved n)) context := by
  rw [moved, movedChildren_eq]

/-- A field of a location, moved. -/
def movedField (n : Nat) (field : String × Option Span) : String × Option Span :=
  (field.1, field.2.map (Span.moved n))

theorem moved_located (kind : NodeKind) (children : List Child) (whole : Option Span)
    (fields : List (String × Option Span)) :
    (located kind children whole fields).moved n =
      located kind (children.map (movedChild n)) (whole.map (Span.moved n))
        (fields.map (movedField n)) := moved_mk _ _ _ _

@[simp] theorem movedChild_node (node : Node) : movedChild n (.node node) = .node (node.moved n) :=
  rfl

@[simp] theorem movedChild_sym (name : String) : movedChild n (.sym name) = .sym name := rfl

@[simp] theorem movedChild_nil : movedChild n .nil = .nil := rfl

@[simp] theorem movedChild_ofOption (found : Option Node) :
    movedChild n (.ofOption found) = .ofOption (found.map (moved n)) := by
  cases found <;> rfl

@[simp] theorem movedChild_comp_node : movedChild n ∘ Child.node = Child.node ∘ moved n := rfl

theorem location?_moved (node : Node) :
    (node.moved n).location? = node.location?.map (Location.moved n) := by
  cases node
  rw [moved_mk]
  rfl

theorem range?_moved (node : Node) : (node.moved n).range? = node.range?.map (Span.moved n) := by
  rw [range?, location?_moved, range?]
  cases node.location? with
  | none => rfl
  | some location =>
    simp only [Option.map_some, Option.bind_some, Location.field?_moved]
    cases location.field? wholeField with
    | none => rfl
    | some field => cases field <;> rfl

theorem span?_moved (node : Node) (field : String) :
    (node.moved n).span? field = (node.span? field).map (Span.moved n) := by
  rw [span?, location?_moved, span?]
  cases node.location? with
  | none => rfl
  | some location =>
    simp only [Option.map_some, Option.bind_some, Location.field?_moved]
    cases location.field? field with
    | none => rfl
    | some found => cases found <;> rfl

theorem kind_moved (node : Node) : (node.moved n).kind = node.kind := by
  obtain ⟨kind, children, location, context⟩ := node
  rw [moved_mk]
  rfl

theorem allChildren_moved (node : Node) :
    (node.moved n).allChildren = node.allChildren.map (movedChild n) := by
  obtain ⟨kind, children, location, context⟩ := node
  rw [moved_mk]
  rfl

theorem node?_movedChild (child : Child) :
    (movedChild n child).node? = child.node?.map (moved n) := by
  cases child <;> rfl

mutual

theorem moved_zero : ∀ node : Node, node.moved 0 = node
  | .mk kind children location context => by
    have same : location.map (Location.moved 0) = location := by
      cases location with
      | none => rfl
      | some location => exact congrArg some (Location.moved_zero location)
    rw [moved, movedChildren_zero children, same]

theorem movedChildren_zero : ∀ children : List Child, movedChildren 0 children = children
  | [] => rfl
  | child :: more => by rw [movedChildren, movedChild_zero child, movedChildren_zero more]

theorem movedChild_zero : ∀ child : Child, movedChild 0 child = child
  | .node node => congrArg Child.node (moved_zero node)
  | .int _ | .bigInt _ | .str _ | .sym _ | .nil => rfl

end

theorem Ranged.moved_range (ranged : node.Ranged) : (node.moved n).range = node.range.moved n := by
  rw [range, range?_moved, ranged]
  rfl

end Node

namespace Grammar

open Node

section Nodes

variable {n : Nat} {body nodes : List Node} {left right operand target parameters : Node}
  {token : Token}

@[simp] theorem map_movedChild : (nodes.map Child.node).map (movedChild n) =
    (nodes.map (moved n)).map .node := by
  rw [List.map_map, movedChild_comp_node, ← List.map_map]

theorem sequence_moved (ranged : ∀ node ∈ body, node.Ranged) :
    sequence (body.map (moved n)) = (sequence body).map (moved n) := by
  match body with
  | [] | [_] => rfl
  | first :: second :: more =>
    have last := List.getLast_mem (List.cons_ne_nil second more)
    have first_range := (ranged first (.head _)).moved_range (n := n)
    have last_range := (ranged _ (.tail _ last)).moved_range (n := n)
    have moved_last : ((second :: more).map (moved n)).getLast (by simp) =
        ((second :: more).getLast (by simp)).moved n := List.getLast_map _
    simp only [List.map_cons] at moved_last
    simp only [sequence, List.map_cons, Option.map_some, moved_located, movedChild_node,
      Option.map_some, through, moved_last, first_range, last_range, Span.moved_join]
    simp [movedField]

theorem leaf_moved (kind : NodeKind) (token : Token) :
    leaf kind (token.moved n) = (leaf kind token).moved n := by
  rw [leaf, leaf, moved_located]
  rfl

theorem named_moved {kind : NodeKind} {children : List Child} (token : Token)
    (literals : children.map (movedChild n) = children) :
    named kind children (token.moved n) = (named kind children token).moved n := by
  rw [named, named, moved_located, literals]
  rfl

theorem variableNode_moved (token : Token) :
    variableNode (token.moved n) = (variableNode token).moved n := named_moved token rfl

theorem constantNode_moved (token : Token) :
    constantNode (token.moved n) = (constantNode token).moved n := named_moved token rfl

theorem parameterNode_moved (token : Token) :
    parameterNode (token.moved n) = (parameterNode token).moved n := named_moved token rfl

theorem parametersNode_moved (nodes : List Node) (first last : Span) :
    parametersNode (nodes.map (moved n)) (first.moved n) (last.moved n) =
      (parametersNode nodes first last).moved n := by
  rw [parametersNode, parametersNode, moved_located, map_movedChild, Option.map_some,
    Span.moved_join]
  rfl

theorem noParametersNode_moved : noParametersNode.moved n = noParametersNode :=
  moved_located _ _ _ _

theorem stringNode_moved (present : 0 < token.span.stop) :
    stringNode (token.moved n) = (stringNode token).moved n := by
  have quote : token.span.stop + n - 1 = token.span.stop - 1 + n := by omega
  simp [stringNode, moved_located, movedField, movedChild, Span.moved_ofLength, quote]

theorem symbolNode_moved (token : Token) :
    symbolNode (token.moved n) = (symbolNode token).moved n := by
  simp [symbolNode, moved_located, movedField, Span.moved_ofLength]

theorem matchVariableNode_moved (name : String) (span : Span) :
    matchVariableNode name (span.moved n) = (matchVariableNode name span).moved n := by
  rw [matchVariableNode, matchVariableNode, moved_located]
  rfl

theorem operatorNode_moved (hl : left.Ranged) (operator : Token) (hr : right.Ranged) :
    operatorNode (left.moved n) (operator.moved n) (right.moved n) =
      (operatorNode left operator right).moved n := by
  unfold operatorNode
  simp only [Token.moved_kind, through, hl.moved_range, hr.moved_range]
  split <;> simp [moved_located, movedField, Span.moved_join]

theorem signNode_moved (selector : String) (sign : Token) (ranged : operand.Ranged) :
    signNode selector (sign.moved n) (operand.moved n) =
      (signNode selector sign operand).moved n := by
  simp [signNode, moved_located, movedField, ranged.moved_range, Span.moved_join]

/-- What follows a selector, moved. -/
def Actuals.moved (n : Nat) (actuals : Actuals) : Actuals where
  nodes := actuals.nodes.map (Node.moved n)
  parens := actuals.parens.map fun parens => (parens.1.moved n, parens.2.moved n)
  last := actuals.last.map (Span.moved n)

theorem recordedCall_moved (context : Flags) {receiver : Option Node} (dot : Option Token)
    (selector : Token) (actuals : Actuals) (ranged : ∀ node ∈ receiver, node.Ranged) :
    recordedCall context (receiver.map (Node.moved n)) (dot.map (Token.moved n)) (selector.moved n)
        (actuals.moved n) =
      (recordedCall context receiver dot selector actuals).moved n := by
  have start : ((receiver.map (Node.moved n)).map Node.range).getD (selector.span.moved n) =
      ((receiver.map Node.range).getD selector.span).moved n := by
    cases receiver with
    | none => rfl
    | some node => exact (ranged node rfl).moved_range
  have stop : (actuals.last.map (Span.moved n)).getD (selector.span.moved n) =
      (actuals.last.getD selector.span).moved n := by
    cases actuals.last <;> rfl
  have call : callNode (receiver.map (Node.moved n)) (dot.map (Token.moved n)) (selector.moved n)
      (actuals.moved n) = (callNode receiver dot selector actuals).moved n := by
    simp only [callNode, Actuals.moved, Token.moved_span, start, stop, moved_located,
      ← Span.moved_join]
    simp [movedField, Function.comp_def]
  rw [recordedCall_eq, recordedCall_eq, moved_mk, call, location?_moved, List.map_cons,
    List.map_cons, movedChild_ofOption, map_movedChild]
  rfl

theorem closureNode_moved (numbering : Option Numbering) (whole : Span) (first last : Token)
    (ranged : ∀ node ∈ body, node.Ranged) :
    closureNode (target.moved n) (parameters.moved n) numbering (body.map (moved n))
        (whole.moved n) (first.moved n) (last.moved n) =
      (closureNode target parameters numbering body whole first last).moved n := by
  unfold closureNode
  dsimp only
  rw [sequence_moved ranged]
  split <;> simp [moved_located, movedField, movedChild]

theorem keySpan_moved (label : Token) : keySpan (label.moved n) = (keySpan label).moved n := by
  simp [keySpan, Span.moved_ofLength]

theorem pairNode_moved {label : Token} {value : Node} (present : 0 < label.span.stop)
    (ranged : value.Ranged) :
    pairNode (label.moved n) (value.moved n) = (pairNode label value).moved n := by
  have colon : label.span.stop + n - 1 = label.span.stop - 1 + n := by omega
  have key : keyOf (label.moved n) = keyOf label := rfl
  simp [pairNode, moved_located, movedField, key, keySpan_moved, ranged.moved_range, colon,
    Span.moved_join, Span.moved_ofLength]

theorem lastRange_moved (ranged : ∀ node ∈ nodes, node.Ranged) :
    (nodes.map (moved n)).getLast?.map range = (nodes.getLast?.map range).map (Span.moved n) := by
  rw [List.getLast?_map]
  cases found : nodes.getLast? with
  | none => rfl
  | some node => exact congrArg some (ranged node (List.mem_of_getLast? found)).moved_range

theorem clauseNode_moved (keyword : Token) {pattern : Node} (opener : Option Token)
    (pattern_ranged : pattern.Ranged) (ranged : ∀ node ∈ body, node.Ranged) :
    clauseNode (keyword.moved n) (pattern.moved n) (opener.map (Token.moved n))
        (body.map (moved n)) =
      (clauseNode keyword pattern opener body).moved n := by
  have opened : ((opener.map (Token.moved n)).map Token.span).getD (pattern.moved n).range =
      ((opener.map Token.span).getD pattern.range).moved n := by
    cases opener with
    | none => exact pattern_ranged.moved_range
    | some token => rfl
  have last : ((body.map (moved n)).getLast?.map range).getD
        (((opener.map Token.span).getD pattern.range).moved n) =
      ((body.getLast?.map range).getD ((opener.map Token.span).getD pattern.range)).moved n := by
    rw [lastRange_moved ranged]
    cases body.getLast? <;> rfl
  simp only [clauseNode, opened, last, sequence_moved ranged, moved_located, Token.moved_span,
    ← Span.moved_join]
  simp [movedField, Function.comp_def]

theorem caseNode_moved (keyword : Token) (subject : Node) (clauses : List Node)
    (alternative : Option Token) {otherwise : List Node} (last : Token)
    (ranged : ∀ node ∈ otherwise, node.Ranged) :
    caseNode (keyword.moved n) (subject.moved n) (clauses.map (moved n))
        (alternative.map (Token.moved n)) (otherwise.map (moved n)) (last.moved n) =
      (caseNode keyword subject clauses alternative otherwise last).moved n := by
  simp only [caseNode, sequence_moved ranged, moved_located, Token.moved_span, ← Span.moved_join]
  simp [movedField, Function.comp_def]

theorem ambiguity_moved (operator : Token) (ranged : operand.Ranged) :
    ambiguity (operator.moved n) (operand.moved n) = (ambiguity operator operand).moved n := by
  rw [ambiguity, ambiguity, ranged.moved_range]
  rfl

end Nodes

end Grammar

end Dialect

end Conformance
