import Conformance.Flags
import Conformance.Span

/-! Trees as the checks see them, the paths that lead to their nodes, and the search for nodes. -/

namespace Conformance

/-- Where a node stands: named ranges, each of which may be absent. A location that is not frozen
may still change. -/
structure Location where
  fields : List (String × Option Span)
  frozen : Bool := true
  deriving DecidableEq

/-- The range of a field, if the location has the field. A name that occurs twice means its first
occurrence. -/
def Location.field? (location : Location) (name : String) : Option (Option Span) :=
  (location.fields.find? fun field => field.1 == name).map Prod.snd

/-- The sum of what `measure` gives for the members of a list. -/
def sumOver {α : Type} (measure : α → Nat) : List α → Nat
  | [] => 0
  | first :: rest => measure first + sumOver measure rest

theorem sumOver_append {α : Type} (measure : α → Nat) (a b : List α) :
    sumOver measure (a ++ b) = sumOver measure a + sumOver measure b := by
  induction a with
  | nil => simp [sumOver]
  | cons first rest ih => simp [sumOver, ih, Nat.add_assoc]

theorem sumOver_reverse {α : Type} (measure : α → Nat) (items : List α) :
    sumOver measure items.reverse = sumOver measure items := by
  induction items with
  | nil => rfl
  | cons first rest ih =>
    rw [List.reverse_cons, sumOver_append, ih, sumOver, sumOver, sumOver]
    omega

class Tree (Node : Type) where
  kind : Node → String
  children : Node → List Node
  location? : Node → Option Location
  /-- The flags that the node recorded, if it recorded any. -/
  context? : Node → Option Flags
  /-- Whether two trees are the same tree, wherever they stand. -/
  same : Node → Node → Bool
  /-- A node on one line. -/
  text : Node → String
  /-- A node as it is compared with another one line by line. -/
  layout : Node → String
  size : Node → Nat
  size_eq : ∀ node, size node = 1 + sumOver size (children node)

/-- A step from a node to its child number `index` of the kind `kind`, counted from zero. -/
structure Step where
  kind : String
  index : Nat := 0
  deriving DecidableEq

namespace Step

/-- The step to child number `occurrence` of a kind, counted from one. -/
def nth? (kind : String) (occurrence : Nat) : Option Step :=
  if occurrence = 0 then none else some ⟨kind, occurrence - 1⟩

/-- A step as it is written: the number is left out for the first child of a kind. -/
def text (step : Step) : String :=
  if step.index = 0 then step.kind else step.kind ++ "/" ++ toString (step.index + 1)

end Step

abbrev Path := List Step

def Path.text (path : Path) : String :=
  if path.isEmpty then "root" else ".".intercalate (path.map Step.text)

namespace Tree

variable {Node : Type} [Tree Node]

def child? (node : Node) (step : Step) : Option Node :=
  ((children node).filter fun child => kind child == step.kind)[step.index]?

def resolve (root : Node) (path : Path) : Option Node :=
  path.foldlM child? root

/-- A search that is under way: the nodes left to visit are on a stack, the next one at its end. -/
structure Dive (Node : Type) where
  stack : Array Node

/-- The number of nodes that a search has still to visit. -/
def Dive.size (d : Dive Node) : Nat := sumOver Tree.size d.stack.toList

/-- The stack after a visit. The children of the node are pushed in order and then turned around, so
that the first of them is visited next. -/
def Dive.visit (stack : Array Node) (node : Node) : Array Node :=
  let pushed := stack ++ (children node).toArray
  pushed.take stack.size ++ (pushed.drop stack.size).reverse

theorem Dive.toList_visit (stack : Array Node) (node : Node) :
    (Dive.visit stack node).toList = stack.toList ++ (children node).reverse := by
  simp [Dive.visit]

/-- A visited node gives its place to its children. -/
theorem Dive.size_visit {d : Dive Node} {node : Node} (found : d.stack.back? = some node) :
    Dive.size ⟨Dive.visit d.stack.pop node⟩ < d.size := by
  obtain ⟨below, whole⟩ := Array.back?_eq_some_iff.1 found
  have rest : d.stack.pop = below := by rw [whole, Array.pop_push]
  rw [rest]
  simp only [Dive.size, whole, Dive.toList_visit, Array.toList_push, sumOver_append,
    sumOver_reverse, sumOver, Tree.size_eq node]
  omega

/-- Goes on to the next node that satisfies `p`. -/
def Dive.next (p : Node → Bool) (d : Dive Node) : Option Node × Dive Node :=
  match found : d.stack.back? with
  | none => (none, d)
  | some node =>
    let visited : Dive Node := ⟨Dive.visit d.stack.pop node⟩
    have : visited.size < d.size := Dive.size_visit found
    if p node then (some node, visited) else visited.next p
termination_by d.size

theorem Dive.size_lt_of_next (p : Node → Bool) (d : Dive Node) {node : Node} {d' : Dive Node}
    (h : d.next p = (some node, d')) : d'.size < d.size := by
  fun_induction Dive.next p d with
  | case1 => cases h
  | case2 d first found visited smaller satisfied =>
    obtain ⟨-, rfl⟩ := Prod.mk.inj h
    exact smaller
  | case3 d first found visited smaller other ih => exact Nat.lt_trans (ih h) smaller

/-- Every node that a search still finds. -/
def Dive.toList (p : Node → Bool) (d : Dive Node) : List Node :=
  match found : d.next p with
  | (none, _) => []
  | (some node, d') =>
    have := d.size_lt_of_next p found
    node :: Dive.toList p d'
termination_by d.size

/-- The nodes of a tree that satisfy `p`, each before its children and these from left to
right. -/
def dive (p : Node → Bool) (root : Node) : List Node := Dive.toList p ⟨#[root]⟩

end Tree

end Conformance
