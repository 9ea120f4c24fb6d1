import Conformance.Tree
import Mathlib.Data.List.Induction
import Mathlib.Logic.Relation

/-! The nodes of a tree as they stand in it. A node with its place is told apart from every other one,
even from an equal one, and the nodes with their places are a tree that is searched in the same way. -/

namespace Conformance

open Relation (ReflTransGen)

namespace Tree

variable {Node : Type} [Tree Node]

/-! ### Searches -/

/-- A search with the nodes that it has to visit, the next one first. -/
def Dive.of (pending : List Node) : Dive Node := ⟨pending.reverse.toArray⟩

theorem Dive.exists_of {α : Type} (d : Dive α) : ∃ pending, d = .of pending :=
  ⟨d.stack.toList.reverse, by simp [Dive.of]⟩

/-- A visited node gives its place to its children. -/
theorem Dive.visit_of (node : Node) (rest : List Node) :
    (⟨Dive.visit (Dive.of (node :: rest)).stack.pop node⟩ : Dive Node) =
      .of (children node ++ rest) := by
  have below : (Dive.of (node :: rest)).stack.pop = (Dive.of rest).stack := by simp [Dive.of]
  have stack := Dive.toList_visit (Dive.of rest).stack node
  rw [show (Dive.of rest).stack.toList ++ (children node).reverse =
    (Dive.of (children node ++ rest)).stack.toList by simp [Dive.of]] at stack
  rw [below, Array.toList_inj.1 stack]

/-- A visit replaces a node by its children, and what is left to visit is smaller then. -/
theorem Dive.size_of_visited (node : Node) (rest : List Node) :
    (Dive.of (children node ++ rest)).size < (Dive.of (node :: rest)).size := by
  rw [← Dive.visit_of]
  exact Dive.size_visit (by simp [Dive.of])

theorem Dive.next_nil (p : Node → Bool) : Dive.next p (.of []) = (none, .of []) := by
  rw [Dive.next]
  rfl

/-- The next node is what is found if it satisfies the predicate. -/
theorem Dive.next_cons (p : Node → Bool) (node : Node) (rest : List Node) :
    Dive.next p (.of (node :: rest)) =
      if p node then (some node, .of (children node ++ rest))
      else Dive.next p (.of (children node ++ rest)) := by
  have last : (Dive.of (node :: rest)).stack.back? = some node := by simp [Dive.of]
  rw [Dive.next, ← Dive.visit_of]
  split
  · rename_i found
    cases last.symm.trans found
  · rename_i first found
    cases last.symm.trans found
    rfl

theorem Dive.toList_eq (p : Node → Bool) (d : Dive Node) :
    d.toList p = match d.next p with
      | (none, _) => []
      | (some node, d') => node :: d'.toList p := by
  rw [Dive.toList]
  split
  · rename_i found
    rw [found]
  · rename_i found
    simp only [found]

theorem Dive.toList_nil (p : Node → Bool) : Dive.toList p (.of []) = [] := by
  rw [Dive.toList_eq, Dive.next_nil]

/-- A search yields the next node if it satisfies the predicate, and goes on with its children. -/
theorem Dive.toList_cons (p : Node → Bool) (node : Node) (rest : List Node) :
    Dive.toList p (.of (node :: rest)) =
      if p node then node :: Dive.toList p (.of (children node ++ rest))
      else Dive.toList p (.of (children node ++ rest)) := by
  rw [Dive.toList_eq, Dive.next_cons]
  by_cases satisfied : p node = true
  · rw [if_pos satisfied, if_pos satisfied]
  · rw [if_neg satisfied, if_neg satisfied, ← Dive.toList_eq]

/-- One node stands among the children of another. -/
def Parent (parent child : Node) : Prop := child ∈ children parent

/-- A search finds what stands below the nodes that it has still to visit. -/
theorem Dive.mem_toList {p : Node → Bool} {pending : List Node} {node : Node} :
    node ∈ Dive.toList p (.of pending) ↔
      p node = true ∧ ∃ start ∈ pending, ReflTransGen Parent start node := by
  induction visits : (Dive.of pending).size using Nat.strongRecOn generalizing pending with
  | ind n ih =>
    cases pending with
    | nil => simp [Dive.toList_nil]
    | cons first rest =>
      have smaller : (Dive.of (children first ++ rest)).size < n :=
        visits ▸ Dive.size_of_visited first rest
      have below := ih _ smaller rfl
      have split : (∃ start ∈ first :: rest, ReflTransGen Parent start node) ↔
          first = node ∨ ∃ start ∈ children first ++ rest, ReflTransGen Parent start node := by
        simp only [List.mem_cons, List.mem_append, or_and_right, exists_or, exists_eq_left]
        rw [ReflTransGen.cases_head_iff, or_assoc]
        rfl
      rw [Dive.toList_cons, split]
      by_cases satisfied : p first = true
      · rw [if_pos satisfied, List.mem_cons, below]
        constructor
        · rintro (rfl | ⟨holds, found⟩)
          · exact ⟨satisfied, .inl rfl⟩
          · exact ⟨holds, .inr found⟩
        · rintro ⟨holds, rfl | found⟩
          · exact .inl rfl
          · exact .inr ⟨holds, found⟩
      · rw [if_neg satisfied, below]
        constructor
        · rintro ⟨holds, found⟩
          exact ⟨holds, .inr found⟩
        · rintro ⟨holds, rfl | found⟩
          · exact (satisfied holds).elim
          · exact ⟨holds, found⟩

theorem dive_eq_toList (p : Node → Bool) (root : Node) : dive p root = Dive.toList p (.of [root]) :=
  rfl

/-- All nodes of a tree, as a search for any node yields them. -/
def nodes (root : Node) : List Node := dive (fun _ => true) root

theorem mem_nodes {root node : Node} : node ∈ nodes root ↔ ReflTransGen Parent root node := by
  unfold nodes
  rw [dive_eq_toList, Dive.mem_toList]
  simp

/-! ### Steps -/

/-- The last one of a row of steps is taken from where the others lead. -/
theorem foldlM_concat {σ α : Type} (next : σ → α → Option σ) (start : σ) (steps : List α)
    (last : α) :
    (steps ++ [last]).foldlM next start =
      (steps.foldlM next start).bind fun reached => next reached last := by
  rw [List.foldlM_append]
  cases steps.foldlM next start with
  | none => rfl
  | some reached =>
    show (next reached last >>= pure) = next reached last
    exact bind_pure _

theorem resolve_concat (root : Node) (path : Path) (step : Step) :
    resolve root (path ++ [step]) = (resolve root path).bind fun node => child? node step :=
  foldlM_concat child? root path step

/-- A step that is taken leads to a child of the kind that it names. -/
theorem child?_eq_some {node child : Node} {step : Step} (found : child? node step = some child) :
    Parent node child ∧ kind child = step.kind := by
  obtain ⟨mem, same⟩ := List.mem_filter.1 (List.mem_of_getElem? found)
  exact ⟨mem, beq_iff_eq.1 same⟩

/-- Every child can be stepped to, with a number below the number of the children. -/
theorem exists_child? {node child : Node} (parent : Parent node child) :
    ∃ index < (children node).length, child? node ⟨kind child, index⟩ = some child := by
  have mem : child ∈ (children node).filter fun other => kind other == kind child :=
    List.mem_filter.2 ⟨parent, beq_self_eq_true _⟩
  obtain ⟨index, found⟩ := List.mem_iff_getElem?.1 mem
  obtain ⟨bound, -⟩ := List.getElem?_eq_some_iff.1 found
  exact ⟨index, Nat.lt_of_lt_of_le bound (List.length_filter_le _ _), found⟩

/-- A path leads only to nodes below. -/
theorem resolve_below {root node : Node} {path : Path} (found : resolve root path = some node) :
    ReflTransGen Parent root node := by
  induction path using List.reverseRecOn generalizing node with
  | nil =>
    cases found
    exact .refl
  | append_singleton path step ih =>
    rw [resolve_concat] at found
    obtain ⟨parent, led, taken⟩ := Option.bind_eq_some_iff.1 found
    exact (ih led).tail (child?_eq_some taken).1

/-! ### Sizes -/

theorem size_pos (node : Node) : 1 ≤ size node := by
  rw [size_eq]
  omega

theorem le_sumOver {child : Node} {items : List Node} (mem : child ∈ items) :
    size child ≤ sumOver size items := by
  induction items with
  | nil => cases mem
  | cons item items ih =>
    rcases List.mem_cons.1 mem with rfl | later
    · exact Nat.le_add_right _ _
    · exact Nat.le_trans (ih later) (Nat.le_add_left _ _)

theorem length_le_sumOver (items : List Node) : items.length ≤ sumOver size items := by
  induction items with
  | nil => exact Nat.le_refl _
  | cons item items ih =>
    have one := size_pos item
    rw [List.length_cons, sumOver]
    omega

theorem length_children_lt (node : Node) : (children node).length < size node := by
  have all := length_le_sumOver (children node)
  rw [size_eq]
  omega

theorem size_lt_of_parent {parent child : Node} (h : Parent parent child) :
    size child < size parent := by
  have part := le_sumOver h
  rw [size_eq parent]
  omega

theorem size_le_of_below {above below : Node} (h : ReflTransGen Parent above below) :
    size below ≤ size above := by
  induction h with
  | refl => exact Nat.le_refl _
  | tail _ parent ih => exact Nat.le_trans (Nat.le_of_lt (size_lt_of_parent parent)) ih

/-! ### Ways -/

/-- A node on the way from the root of a tree to another node, which may be that node itself but is not
the root. -/
structure OnWay (root node above : Node) : Prop where
  high : above ∈ nodes root
  low : node ∈ nodes above
  inner : above ≠ root

theorem OnWay.tail {root parent child above : Node} (h : OnWay root parent above)
    (step : Parent parent child) : OnWay root child above :=
  ⟨h.high, mem_nodes.2 ((mem_nodes.1 h.low).tail step), h.inner⟩

theorem onWay_child {root parent child : Node} (h : ReflTransGen Parent root parent)
    (step : Parent parent child) : OnWay root child child := by
  refine ⟨mem_nodes.2 (h.tail step), mem_nodes.2 .refl, ?_⟩
  rintro rfl
  have smaller := size_lt_of_parent step
  have larger := size_le_of_below h
  omega

/-- A path leads to every node of a tree. Its steps name the kinds of the nodes on the way. -/
theorem exists_path {root node : Node} (h : ReflTransGen Parent root node) :
    ∃ path, resolve root path = some node ∧ ∀ step ∈ path, step.index + 1 < size root ∧
      ∃ above, OnWay root node above ∧ kind above = step.kind := by
  induction h with
  | refl => exact ⟨[], rfl, nofun⟩
  | @tail parent child below step ih =>
    obtain ⟨path, led, steps⟩ := ih
    obtain ⟨index, few, taken⟩ := exists_child? step
    refine ⟨path ++ [⟨kind child, index⟩], ?_, ?_⟩
    · rw [resolve_concat, led]
      exact taken
    · intro other mem
      rcases List.mem_append.1 mem with earlier | last
      · obtain ⟨bound, above, way, same⟩ := steps other earlier
        exact ⟨bound, above, way.tail step, same⟩
      · rw [List.mem_singleton.1 last]
        have children := length_children_lt parent
        have part := size_le_of_below below
        have bound : index + 1 < size root := by omega
        exact ⟨bound, child, onWay_child below step, rfl⟩

end Tree

/-! ### Places -/

/-- A node with its place in a tree, which is given by the numbers of the children on the way down to
it. -/
@[ext]
structure Placed (Node : Type) where
  node : Node
  place : List Nat := []

namespace Placed

variable {Node : Type} [Tree Node]

/-- The children of a node, each with its own place. -/
def children (placed : Placed Node) : List (Placed Node) :=
  (Tree.children placed.node).mapIdx fun index child => ⟨child, placed.place ++ [index]⟩

theorem map_node_children (placed : Placed Node) :
    placed.children.map Placed.node = Tree.children placed.node := by
  apply List.ext_getElem?
  intro index
  unfold children
  rw [List.getElem?_map, List.getElem?_mapIdx, Option.map_map]
  exact congrFun Option.map_id _

theorem sumOver_map {α β : Type} (measure : β → Nat) (f : α → β) (items : List α) :
    sumOver measure (items.map f) = sumOver (fun item => measure (f item)) items := by
  induction items with
  | nil => rfl
  | cons item items ih => exact congrArg (measure (f item) + ·) ih

instance : Tree (Placed Node) where
  kind placed := Tree.kind placed.node
  children := children
  location? placed := Tree.location? placed.node
  context? placed := Tree.context? placed.node
  same a b := Tree.same a.node b.node
  text placed := Tree.text placed.node
  layout placed := Tree.layout placed.node
  size placed := Tree.size placed.node
  size_eq placed := by
    rw [Tree.size_eq, ← map_node_children, sumOver_map]

/-! ### The same searches and paths -/

theorem toList_map (p : Node → Bool) (pending : List (Placed Node)) :
    (Tree.Dive.toList (fun placed : Placed Node => p placed.node) (.of pending)).map Placed.node =
      Tree.Dive.toList p (.of (pending.map Placed.node)) := by
  induction visits : (Tree.Dive.of pending).size using Nat.strongRecOn generalizing pending with
  | ind n ih =>
    cases pending with
    | nil => simp [Tree.Dive.toList_nil]
    | cons first rest =>
      have smaller : (Tree.Dive.of (Tree.children first ++ rest)).size < n :=
        visits ▸ Tree.Dive.size_of_visited first rest
      have same := ih _ smaller _ rfl
      rw [List.map_append, show (Tree.children first).map Placed.node = _ from
        map_node_children first] at same
      rw [Tree.Dive.toList_cons, List.map_cons, Tree.Dive.toList_cons, ← same]
      split <;> rfl

theorem nodes_map (root : Placed Node) :
    (Tree.nodes root).map Placed.node = Tree.nodes root.node :=
  toList_map (fun _ => true) [root]

theorem child?_map (placed : Placed Node) (step : Step) :
    (Tree.child? placed step).map Placed.node = Tree.child? placed.node step := by
  unfold Tree.child?
  rw [← List.getElem?_map, ← map_node_children, List.filter_map]
  rfl

theorem resolve_map (root : Placed Node) (path : Path) :
    (Tree.resolve root path).map Placed.node = Tree.resolve root.node path := by
  induction path using List.reverseRecOn with
  | nil => rfl
  | append_singleton path step ih =>
    rw [Tree.resolve_concat, Tree.resolve_concat, ← ih, Option.map_bind, Option.bind_map]
    congr 1
    funext placed
    exact child?_map placed step

/-! ### Places tell nodes apart -/

theorem place_of_parent {parent child : Placed Node} (h : Tree.Parent parent child) :
    ∃ index, (Tree.children parent.node)[index]? = some child.node ∧
      child.place = parent.place ++ [index] := by
  obtain ⟨index, bound, rfl⟩ := List.mem_mapIdx.1 h
  exact ⟨index, List.getElem?_eq_getElem bound, rfl⟩

/-- The place of a node starts with that of every node above it. -/
theorem prefix_of_below {above below : Placed Node} (h : ReflTransGen Tree.Parent above below) :
    above.place <+: below.place := by
  induction h with
  | refl => exact List.prefix_rfl
  | tail _ parent ih =>
    obtain ⟨index, -, place⟩ := place_of_parent parent
    exact place ▸ ih.trans (List.prefix_append _ _)

/-- Two nodes of a tree with the same place are the same node. -/
theorem eq_of_place {root a b : Placed Node} (ha : ReflTransGen Tree.Parent root a)
    (hb : ReflTransGen Tree.Parent root b) (same : a.place = b.place) : a = b := by
  induction ha generalizing b with
  | refl =>
    cases hb with
    | refl => rfl
    | tail above parent =>
      -- A node below the root has a longer place than the root.
      have longer := (prefix_of_below above).length_le
      obtain ⟨index, -, place⟩ := place_of_parent parent
      rw [same, place, List.length_append, List.length_singleton] at longer
      omega
  | @tail above a first parent ih =>
    obtain ⟨index, child, place⟩ := place_of_parent parent
    cases hb with
    | refl =>
      have longer := (prefix_of_below first).length_le
      rw [← same, place, List.length_append, List.length_singleton] at longer
      omega
    | @tail other _ second parent' =>
      obtain ⟨index', child', place'⟩ := place_of_parent parent'
      rw [place, place'] at same
      obtain ⟨places, indices⟩ := List.append_inj' same rfl
      obtain rfl := ih second places
      obtain rfl : index = index' := List.singleton_inj.1 indices
      exact Placed.ext (Option.some.inj (child.symm.trans child')) (place.trans place'.symm)

/-- A node has one parent. -/
theorem parent_unique {root a b child : Placed Node} (ha : ReflTransGen Tree.Parent root a)
    (hb : ReflTransGen Tree.Parent root b) (first : Tree.Parent a child)
    (second : Tree.Parent b child) : a = b := by
  obtain ⟨_, -, place⟩ := place_of_parent first
  obtain ⟨_, -, place'⟩ := place_of_parent second
  exact eq_of_place ha hb (List.append_inj' (place.symm.trans place') rfl).1

/-- A path that leads to a node names the kind of every node on the way. -/
theorem kind_mem_of_resolve {root placed above : Placed Node} {path : Path}
    (led : Tree.resolve root path = some placed) (way : Tree.OnWay root placed above) :
    ∃ step ∈ path, step.kind = Tree.kind above := by
  obtain ⟨high, low, inner⟩ := way
  rw [Tree.mem_nodes] at high low
  induction path using List.reverseRecOn generalizing placed with
  | nil =>
    cases led
    have larger := Tree.size_le_of_below low
    rcases high.cases_tail with same | ⟨parent, upper, step⟩
    · exact (inner same).elim
    · have smaller := Tree.size_lt_of_parent step
      have bound := Tree.size_le_of_below upper
      omega
  | append_singleton path step ih =>
    rw [Tree.resolve_concat] at led
    obtain ⟨parent, before, taken⟩ := Option.bind_eq_some_iff.1 led
    obtain ⟨child, same⟩ := Tree.child?_eq_some taken
    rcases low.cases_tail with rfl | ⟨other, under, child'⟩
    · exact ⟨step, List.mem_append_right _ (.head _), same.symm⟩
    · -- The way goes through the only parent, to which the steps before lead.
      obtain rfl := parent_unique (high.trans under) (Tree.resolve_below before) child' child
      obtain ⟨found, mem, named⟩ := ih before under
      exact ⟨found, List.mem_append_left _ mem, named⟩

end Placed

end Conformance
