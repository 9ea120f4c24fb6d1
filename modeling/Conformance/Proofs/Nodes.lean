import Conformance.Proofs.Rules

/-! The parts of the nodes that the grammar builds, and the ways down to them. -/

namespace Conformance.Dialect

/-! ### Edges -/

/-- An edge of a tree, to a child of a node. -/
structure Edge where
  parent : Node
  /-- The number of the child. -/
  index : Nat

/-- The edges on the way down to a node, which is given by the numbers of the children, and the
node. -/
def Node.trail? (root : Node) : List Nat → Option (List Edge × Node)
  | [] => some ([], root)
  | index :: more =>
    match root.allChildren[index]? with
    | some (.node child) =>
      (child.trail? more).map fun (edges, node) => (⟨root, index⟩ :: edges, node)
    | _ => none

/-- What holds of a node without an edge, and of the nodes below it with the edge to a child in
front of theirs, holds of every node with the edges on the way down to it. -/
theorem Node.of_trail {p : List Edge → Node → Prop} (node : Node) (own : p [] node)
    (below : ∀ (index : Nat) (child : Node), node.allChildren[index]? = some (.node child) →
      ∀ indices edges target, child.trail? indices = some (edges, target) →
        p (⟨node, index⟩ :: edges) target) :
    ∀ indices edges target, node.trail? indices = some (edges, target) → p edges target := by
  intro indices edges target found
  cases indices with
  | nil =>
    cases found
    exact own
  | cons index more =>
    unfold trail? at found
    split at found
    · rename_i child here
      cases under : child.trail? more with
      | none => simp [under] at found
      | some reached =>
        obtain ⟨edges', target'⟩ := reached
        rw [under] at found
        cases found
        exact below index child here more edges' target under
    · cases found

/-! ### Parts -/

namespace Node

/-- The range of a field, if the node has the field and it is not absent. -/
def span? (node : Node) (field : String) : Option Span :=
  (node.location?.bind fun location => location.field? field).join

variable {kind : NodeKind} {children : List Child} {whole : Option Span}
  {fields : List (String × Option Span)} {nodes : List Node}

@[simp] theorem kind_located : (located kind children whole fields).kind = kind := rfl

@[simp] theorem children_located :
    (located kind children whole fields).children = children.filterMap Child.node? := rfl

theorem field?_located (field : String) :
    ((located kind children whole fields).location?.bind fun location => location.field? field) =
      (((wholeField, whole) :: fields).find? fun entry => entry.1 == field).map Prod.snd := rfl

@[simp] theorem filterMap_node?_map : (nodes.map Child.node).filterMap Child.node? = nodes := by
  rw [List.filterMap_map]
  exact List.filterMap_some

@[simp] theorem node?_node (node : Node) : (Child.node node).node? = some node := rfl

@[simp] theorem node?_nil : Child.nil.node? = none := rfl

@[simp] theorem node?_ofOption (found : Option Node) : (Child.ofOption found).node? = found := by
  cases found <;> rfl

@[simp] theorem node?_sym (name : String) : (Child.sym name).node? = none := rfl

@[simp] theorem node?_comp_node : Child.node? ∘ Child.node = some := rfl

@[simp] theorem filterMap_node?_cons (child : Child) (more : List Child) :
    (child :: more).filterMap Child.node? =
      child.node?.toList ++ more.filterMap Child.node? := by
  cases child <;> rfl

end Node

theorem Child.node?_integer? {text : List Char} {value : Child}
    (read : Child.integer? text = some value) : value.node? = none := by
  obtain ⟨number, -, rfl⟩ := Option.map_eq_some_iff.1 read
  split <;> rfl

/-- The record of the flags is all that a call of the probe has besides what other calls have. -/
theorem Grammar.recordedCall_eq (context : Flags) (receiver : Option Node) (dot : Option Token)
    (selector : Token) (actuals : Actuals) :
    recordedCall context receiver dot selector actuals =
      .mk .send (.ofOption receiver :: .sym selector.text :: actuals.nodes.map .node)
        (callNode receiver dot selector actuals).location?
        (if selector.text = probeName then some context else none) := by
  unfold recordedCall
  dsimp only
  split <;> rfl

end Conformance.Dialect
