import Conformance.Proofs.Searches
import Mathlib.Data.Set.Card

/-! Paths as addresses of the nodes of a tree. A step names a kind and counts among the children of
that kind only, and still every child is led to by one step; so every place of a tree is led to by
one path. -/

namespace Conformance

open Relation (ReflTransGen)

namespace Placed

variable {Node : Type} [Tree Node] {root : Node}

/-! ### One path to every place -/

theorem nodup_children (placed : Placed Node) : (Tree.children placed).Nodup := by
  refine (disjoint_children placed).imp ?_
  rintro child _ disjoint rfl
  have below : child ∈ Tree.preorder child := Tree.mem_preorder.2 .refl
  exact disjoint below below

/-- A child is led to by one step: its kind is that of the child, and it stands once among the
children of that kind. -/
theorem step_unique {placed child : Placed Node} {a b : Step}
    (first : Tree.child? placed a = some child) (second : Tree.child? placed b = some child) :
    a = b := by
  obtain ⟨kind, index⟩ := a
  obtain ⟨kind', index'⟩ := b
  obtain rfl : kind = kind' :=
    (Tree.child?_eq_some first).2.symm.trans (Tree.child?_eq_some second).2
  have once := (nodup_children placed).filter fun child => Tree.kind child == kind
  obtain ⟨bound, -⟩ := List.getElem?_eq_some_iff.1 first
  exact congrArg (Step.mk kind) ((List.getElem?_inj bound once).1 (first.trans second.symm))

/-- No step leads to the root. -/
theorem resolve_concat_ne (path : Path) (step : Step) :
    Tree.resolve ({ node := root } : Placed Node) (path ++ [step]) ≠ some { node := root } := by
  intro led
  rw [Tree.resolve_concat] at led
  obtain ⟨parent, -, taken⟩ := Option.bind_eq_some_iff.1 led
  obtain ⟨index, -, place⟩ := place_of_parent (Tree.child?_eq_some taken).1
  exact List.append_ne_nil_of_right_ne_nil _ (List.cons_ne_nil index []) place.symm

/-- A node is led to by one path: the last step comes from its parent, of which there is one. -/
theorem path_unique {placed : Placed Node} {a b : Path}
    (first : Tree.resolve { node := root } a = some placed)
    (second : Tree.resolve { node := root } b = some placed) : a = b := by
  induction a using List.reverseRecOn generalizing placed b with
  | nil =>
    cases first
    obtain rfl | ⟨path, step, rfl⟩ := List.eq_nil_or_concat' b
    · rfl
    · exact (resolve_concat_ne path step second).elim
  | append_singleton a step ih =>
    obtain rfl | ⟨b, step', rfl⟩ := List.eq_nil_or_concat' b
    · cases second
      exact (resolve_concat_ne a step first).elim
    · rw [Tree.resolve_concat] at first second
      obtain ⟨parent, before, taken⟩ := Option.bind_eq_some_iff.1 first
      obtain ⟨parent', before', taken'⟩ := Option.bind_eq_some_iff.1 second
      obtain rfl := parent_unique (Tree.resolve_below before) (Tree.resolve_below before')
        (Tree.child?_eq_some taken).1 (Tree.child?_eq_some taken').1
      rw [ih before before', step_unique taken taken']

end Placed

namespace Tree

variable {Node : Type} [Tree Node] {root : Node} {path : Path} {place : List Nat}

/-- The place to which a path leads. -/
def place? (root : Node) (path : Path) : Option (List Nat) :=
  (resolve ({ node := root } : Placed Node) path).map Placed.place

/-- A path leads to the node at its place. -/
theorem resolve_eq_bind (root : Node) (path : Path) :
    resolve root path = (place? root path).bind (nodeAt? root) := by
  have same := Placed.resolve_map { node := root } path
  unfold place?
  cases led : resolve ({ node := root } : Placed Node) path with
  | none => rw [← same, led]; rfl
  | some placed =>
    rw [← same, led]
    exact (Placed.below_iff.1 (resolve_below led)).symm

/-- The paths that lead somewhere, and where they lead. -/
theorem resolve_isSome_iff : (resolve root path).isSome = true ↔
    ∃ place, place? root path = some place ∧ (nodeAt? root place).isSome = true := by
  rw [resolve_eq_bind]
  cases place? root path <;> simp

/-- Every place of a tree is led to by one path. -/
theorem existsUnique_path (there : (nodeAt? root place).isSome = true) :
    ∃! path, place? root path = some place := by
  obtain ⟨node, there⟩ := Option.isSome_iff_exists.1 there
  have below : ReflTransGen Parent ({ node := root } : Placed Node) ⟨node, place⟩ :=
    Placed.below_iff.2 there
  obtain ⟨path, led, -⟩ := exists_path below
  refine ⟨path, congrArg (Option.map Placed.place) led, fun other led' => ?_⟩
  obtain ⟨placed, found, same⟩ := Option.map_eq_some_iff.1 led'
  obtain rfl := Placed.eq_of_place (resolve_below found) below same
  exact Placed.path_unique found led

/-- The paths that lead somewhere and the places of a tree belong together one to one. -/
theorem place?_bijOn (root : Node) :
    Set.BijOn (place? root) {path | (resolve root path).isSome = true}
      (some '' {place | (nodeAt? root place).isSome = true}) := by
  refine ⟨fun path found => ?_, fun path found other found' same => ?_, ?_⟩
  · obtain ⟨place, led, there⟩ := resolve_isSome_iff.1 found
    exact ⟨place, there, led.symm⟩
  · obtain ⟨place, led, there⟩ := resolve_isSome_iff.1 found
    exact (existsUnique_path there).unique led (same.symm.trans led)
  · rintro _ ⟨place, there, rfl⟩
    obtain ⟨path, led, -⟩ := existsUnique_path there
    exact ⟨path, resolve_isSome_iff.2 ⟨place, led, there⟩, led⟩

/-- A search for any node finds one for every place. -/
theorem encard_places (root : Node) :
    {place | (nodeAt? root place).isSome = true}.encard = (dive (fun _ => true) root).length := by
  have every : {place | (nodeAt? root place).isSome = true} =
      ↑(Placed.placesWhere (fun _ => true) root).toFinset := by
    ext place
    simp [Placed.mem_placesWhere, Option.isSome_iff_exists]
  have count := congrArg List.length (Placed.nodeAt?_placesWhere (fun _ => true) root)
  rw [List.length_map, List.length_map] at count
  rw [every, Set.encard_coe_eq_coe_finsetCard,
    List.toFinset_card_of_nodup (Placed.nodup_placesWhere _ root), count]

/-- A path leads to the node at its place, and the paths that lead somewhere belong to the places of
the tree one to one. There are as many of them as a search for any node finds nodes. -/
theorem paths_bijective (root : Node) :
    (∀ path, resolve root path = (place? root path).bind (nodeAt? root)) ∧
      Set.BijOn (place? root) {path | (resolve root path).isSome = true}
        (some '' {place | (nodeAt? root place).isSome = true}) ∧
      {path | (resolve root path).isSome = true}.encard = (dive (fun _ => true) root).length := by
  have oneToOne := place?_bijOn root
  refine ⟨resolve_eq_bind root, oneToOne, ?_⟩
  rw [← oneToOne.injOn.encard_image, oneToOne.image_eq,
    (Option.some_injective _).encard_image, encard_places]

end Tree

end Conformance
