import Conformance.Proofs.Answers
import Conformance.Proofs.Places
import Mathlib.Data.List.Nodup

/-! Searches of trees. What a search still finds are the nodes below those that it has to visit,
each before its children and these from left to right. Told apart by their places, the nodes of a
tree are found once each. -/

namespace Conformance

open Relation (ReflTransGen)

namespace Tree

variable {Node : Type} [Tree Node]

/-! ### The order of a search -/

/-- A node, and after it the nodes below its children from left to right. -/
def preorder (node : Node) : List Node := node :: (children node).flatMap preorder
termination_by size node
decreasing_by exact size_lt_of_parent ‹_›

theorem preorder_eq (node : Node) : preorder node = node :: (children node).flatMap preorder := by
  rw [preorder]

/-- What holds of a node if it holds of its children holds of every node. -/
theorem of_children {p : Node → Prop} (h : ∀ node, (∀ child, Parent node child → p child) → p node)
    (node : Node) : p node := by
  induction node using preorder.induct with
  | case1 node ih => exact h node ih

/-- What a search still finds is below the nodes that it has to visit, the next one first. -/
theorem Dive.toList_eq_preorder (p : Node → Bool) (pending : List Node) :
    Dive.toList p (.of pending) = (pending.flatMap preorder).filter p := by
  induction visits : (Dive.of pending).size using Nat.strongRecOn generalizing pending with
  | ind n ih =>
    cases pending with
    | nil => exact Dive.toList_nil p
    | cons first rest =>
      have smaller : (Dive.of (children first ++ rest)).size < n :=
        visits ▸ Dive.size_of_visited first rest
      have later := ih _ smaller _ rfl
      rw [Dive.toList_cons, later, List.flatMap_append, List.flatMap_cons, preorder_eq,
        List.cons_append, List.filter_cons]

/-- A search that finds nothing has nothing left to visit. -/
theorem Dive.next_none {p : Node → Bool} {d d' : Dive Node} (h : d.next p = (none, d')) :
    d' = .of [] := by
  fun_induction Dive.next p d with
  | case1 d empty =>
    obtain ⟨-, rfl⟩ := Prod.mk.inj h
    obtain ⟨pending, rfl⟩ := d.exists_of
    cases pending with
    | nil => rfl
    | cons first rest => simp [Dive.of] at empty
  | case2 => cases h
  | case3 d first found visited smaller other ih => exact ih h

/-- Asked for the next node again and again, a search gives those that it still finds. -/
theorem Dive.enumerates (p : Node → Bool) : Enumerates (Dive.next p) (Dive.toList p) := by
  constructor
  · intro d
    rw [Dive.toList_eq p d]
    obtain ⟨_ | node, d'⟩ := d.next p <;> rfl
  · intro d
    rw [Dive.toList_eq p d]
    generalize answered : d.next p = result
    obtain ⟨_ | node, d'⟩ := result
    · rw [Dive.next_none answered]
      exact Dive.toList_nil p
    · rfl

theorem dive_eq_preorder (p : Node → Bool) (root : Node) :
    dive p root = (preorder root).filter p := by
  rw [dive_eq_toList, Dive.toList_eq_preorder, List.flatMap_singleton]

theorem nodes_eq_preorder (root : Node) : nodes root = preorder root := by
  unfold nodes
  rw [dive_eq_preorder, List.filter_true]

theorem mem_preorder {root node : Node} : node ∈ preorder root ↔ ReflTransGen Parent root node := by
  rw [← nodes_eq_preorder, mem_nodes]

/-! ### The nodes at places -/

/-- The node at a place of a tree, which is given by the numbers of the children on the way down to
it. -/
def nodeAt? (root : Node) (place : List Nat) : Option Node :=
  place.foldlM (fun node index => (children node)[index]?) root

theorem nodeAt?_concat (root : Node) (place : List Nat) (index : Nat) :
    nodeAt? root (place ++ [index]) =
      (nodeAt? root place).bind fun node => (children node)[index]? := by
  exact foldlM_concat _ root place index

end Tree

namespace Placed

variable {Node : Type} [Tree Node]

/-- The nodes below the root of a tree are those at its places. -/
theorem below_iff {root : Node} {placed : Placed Node} :
    ReflTransGen Tree.Parent { node := root } placed ↔
      Tree.nodeAt? root placed.place = some placed.node := by
  constructor
  · intro below
    induction below with
    | refl => rfl
    | tail _ parent ih =>
      obtain ⟨index, child, place⟩ := place_of_parent parent
      rw [place, Tree.nodeAt?_concat, ih]
      exact child
  · obtain ⟨node, place⟩ := placed
    dsimp only
    intro found
    induction place using List.reverseRecOn generalizing node with
    | nil =>
      cases found
      exact .refl
    | append_singleton place index ih =>
      rw [Tree.nodeAt?_concat] at found
      obtain ⟨parent, led, child⟩ := Option.bind_eq_some_iff.1 found
      obtain ⟨bound, rfl⟩ := List.getElem?_eq_some_iff.1 child
      exact (ih parent led).tail (List.mem_mapIdx.2 ⟨index, bound, rfl⟩)

/-- The children of a node have different places, and so have the nodes below them. -/
theorem disjoint_children (placed : Placed Node) :
    (Tree.children placed).Pairwise fun a b => (Tree.preorder a).Disjoint (Tree.preorder b) := by
  show ((Tree.children placed.node).mapIdx fun index child =>
    (⟨child, placed.place ++ [index]⟩ : Placed Node)).Pairwise _
  rw [List.pairwise_iff_getElem]
  intro i j boundI boundJ less node first second
  simp only [List.getElem_mapIdx] at first second
  have above := prefix_of_below (Tree.mem_preorder.1 first)
  have above' := prefix_of_below (Tree.mem_preorder.1 second)
  have same := List.prefix_of_prefix_length_le above above' (by simp)
  simp at same
  omega

/-- A search for any node finds every node once. -/
theorem nodup_preorder (placed : Placed Node) : (Tree.preorder placed).Nodup := by
  induction placed using Tree.of_children with
  | h placed ih =>
    rw [Tree.preorder_eq, List.nodup_cons, List.nodup_flatMap]
    refine ⟨fun among => ?_, ih, disjoint_children placed⟩
    obtain ⟨child, parent, below⟩ := List.mem_flatMap.1 among
    have smaller := Tree.size_lt_of_parent parent
    have larger := Tree.size_le_of_below (Tree.mem_preorder.1 below)
    omega

/-- The places of the nodes that satisfy a predicate, in the order in which a search comes to
them. -/
def placesWhere (p : Node → Bool) (root : Node) : List (List Nat) :=
  (Tree.dive (fun placed : Placed Node => p placed.node) { node := root }).map Placed.place

variable {p : Node → Bool} {root : Node} {place : List Nat}

theorem mem_placesWhere : place ∈ placesWhere p root ↔
    ∃ node, Tree.nodeAt? root place = some node ∧ p node = true := by
  unfold placesWhere
  simp only [Tree.dive_eq_preorder, List.mem_map, List.mem_filter, Tree.mem_preorder, below_iff]
  constructor
  · rintro ⟨placed, ⟨found, satisfied⟩, rfl⟩
    exact ⟨placed.node, found, satisfied⟩
  · rintro ⟨node, found, satisfied⟩
    exact ⟨⟨node, place⟩, ⟨found, satisfied⟩, rfl⟩

theorem nodup_placesWhere (p : Node → Bool) (root : Node) : (placesWhere p root).Nodup := by
  unfold placesWhere
  rw [Tree.dive_eq_preorder]
  refine List.Nodup.map_on (fun a first b second same => ?_) ((nodup_preorder _).filter _)
  have below := Tree.mem_preorder.1 (List.mem_filter.1 first).1
  exact eq_of_place below (Tree.mem_preorder.1 (List.mem_filter.1 second).1) same

/-- The nodes that a search finds stand at these places. -/
theorem nodeAt?_placesWhere (p : Node → Bool) (root : Node) :
    (placesWhere p root).map (Tree.nodeAt? root) = (Tree.dive p root).map some := by
  have same : (Tree.dive (fun placed : Placed Node => p placed.node) { node := root }).map
      Placed.node = Tree.dive p root := toList_map p [{ node := root }]
  rw [← same, placesWhere, List.map_map, List.map_map]
  refine List.map_congr_left fun placed found => ?_
  rw [Tree.dive_eq_preorder, List.mem_filter, Tree.mem_preorder, below_iff] at found
  exact found.1

end Placed

namespace Tree

variable {Node : Type} [Tree Node]

/-- A search yields the nodes that satisfy a predicate, each before its children and these from left
to right, and no place of the tree twice. Asked again and again, it gives them one after the other,
and nothing ever after. -/
theorem search_preorder (p : Node → Bool) (root : Node) :
    dive p root = (preorder root).filter p ∧
      (∀ n, answer (Dive.next p) ⟨#[root]⟩ n = (dive p root)[n]?) ∧
      ∃ places : List (List Nat), places.Nodup ∧
        (∀ place, place ∈ places ↔ ∃ node, nodeAt? root place = some node ∧ p node = true) ∧
        places.map (nodeAt? root) = (dive p root).map some :=
  ⟨dive_eq_preorder p root, (Dive.enumerates p).answer_eq ⟨#[root]⟩, Placed.placesWhere p root,
    Placed.nodup_placesWhere p root, fun _ => Placed.mem_placesWhere,
    Placed.nodeAt?_placesWhere p root⟩

end Tree

end Conformance
