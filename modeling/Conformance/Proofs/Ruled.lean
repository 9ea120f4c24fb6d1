import Conformance.Proofs.Acceptance
import Conformance.Proofs.Distinct

/-! Accepted trees are under the rules: what a phrase stands for obeys them, and stands for no class
where the body of a method is open. -/

namespace Conformance.Dialect

namespace Node

/-- What a node may be, inside or outside the body of a method. -/
structure Allowed (inMethod : Bool) (node : Node) : Prop where
  ruled : node.Ruled
  noClass : inMethod = true → node.kind ≠ .classDef

/-- All nodes of a tree are allowed. -/
def Obeys (inMethod : Bool) (node : Node) : Prop := node.Every (Allowed inMethod)

variable {kind : NodeKind} {children : List Child} {location : Option Location}
  {context : Option Flags} {inMethod : Bool}

theorem ruled_of_other (parameters : kind ≠ .args) (bindings : kind ≠ .inPattern)
    (keys : kind ≠ .hashPattern) (classes : kind ≠ .method) :
    (mk kind children location context).Ruled :=
  ⟨fun is => absurd is parameters, fun is => absurd is bindings, fun is => absurd is keys,
    fun is => absurd is classes⟩

theorem ruled_args
    (distinct : ((mk .args children location context).parameterNames.filter isStrict).Nodup) :
    (mk .args children location context).Ruled := ⟨fun _ => distinct, nofun, nofun, nofun⟩

theorem ruled_inPattern
    (distinct : ∀ pattern ∈ (mk .inPattern children location context).children.head?,
      (pattern.boundNames.filter isStrict).Nodup) :
    (mk .inPattern children location context).Ruled := ⟨nofun, fun _ => distinct, nofun, nofun⟩

theorem ruled_hashPattern
    (distinct : ((mk .hashPattern children location context).children.filterMap key?).Nodup) :
    (mk .hashPattern children location context).Ruled := ⟨nofun, nofun, fun _ => distinct, nofun⟩

theorem ruled_method
    (classless : ∀ child ∈ (mk .method children location context).children,
      child.Every fun below => below.kind ≠ .classDef) :
    (mk .method children location context).Ruled := ⟨nofun, nofun, nofun, fun _ => classless⟩

theorem allowed_of_ruled (ruled : (mk kind children location context).Ruled)
    (noClass : kind ≠ .classDef) : (mk kind children location context).Allowed inMethod :=
  ⟨ruled, fun _ => noClass⟩

theorem allowed_of_ordinary (ordinary : kind.isOrdinary = true) :
    (mk kind children location context).Allowed inMethod := by
  constructor
  · apply ruled_of_other <;> (rintro rfl; cases ordinary)
  · rintro - rfl
    cases ordinary

theorem obeys_mk (own : (mk kind children location context).Allowed inMethod)
    (below : ∀ child ∈ children.filterMap Child.node?, child.Obeys inMethod) :
    (mk kind children location context).Obeys inMethod := .intro own below

theorem Obeys.classless {node : Node} (h : node.Obeys true) :
    node.Every fun below => below.kind ≠ .classDef := h.mono fun _ allowed => allowed.noClass rfl

/-- What may be in a method may be anywhere. -/
theorem Obeys.anywhere {node : Node} (h : node.Obeys true) : node.Obeys inMethod :=
  h.mono fun _ allowed => ⟨allowed.ruled, fun _ => allowed.noClass rfl⟩

end Node

namespace Grammar

open Node
open List (forall_mem_nil forall_mem_cons forall_mem_singleton)

/-! ### The nodes of the grammar -/

section Nodes

variable {inMethod : Bool} {nodes body : List Node} {s t : ParseState} {close : TokenKind}
  {parameters : Node × Bool}

theorem inherited_obeys (inMethod : Bool) : Inherited (Obeys inMethod) :=
  ⟨fun ordinary below => obeys_mk (allowed_of_ordinary ordinary) below⟩

theorem matchVariableNode_obeys (name : String) (span : Span) :
    (matchVariableNode name span).Obeys inMethod :=
  obeys_mk ⟨ruled_of_other nofun nofun nofun nofun, nofun⟩ nofun

section Bodies

variable {parameters : Node} {whole : Option Span}
  {fields : List (String × Option Span)}

/-- A method is allowed anywhere, as no class is in it. -/
theorem method_obeys (name : String) (list : parameters.Obeys true)
    (all : ∀ node ∈ body, node.Obeys true) :
    (located .method [.sym name, .node parameters, .ofOption (sequence body)] whole
      fields).Obeys inMethod := by
  have below : ∀ node ∈ [Child.sym name, .node parameters, .ofOption (sequence body)].filterMap
      Child.node?, node.Obeys true := by
    rw [forall_mem_children_cons, forall_mem_children_cons, forall_mem_children_cons,
      node?_ofOption]
    refine ⟨by simp, by simpa using list, (inherited_obeys true).sequence all, by simp⟩
  refine obeys_mk (allowed_of_ruled (ruled_method ?_) (by decide)) fun node mem => ?_
  · exact fun node mem => (below node mem).classless
  · exact (below node mem).anywhere

theorem class_obeys (name : Token) (all : ∀ node ∈ body, node.Obeys false) :
    (located .classDef [.node (constantNode name), .nil, .ofOption (sequence body)] whole
      fields).Obeys false := by
  have constant : (constantNode name).Obeys false := (inherited_obeys false).up rfl (by simp)
  refine obeys_mk ⟨ruled_of_other (by decide) (by decide) (by decide) (by decide),
    fun inside => absurd inside Bool.false_ne_true⟩ ?_
  rw [forall_mem_children_cons, forall_mem_children_cons, forall_mem_children_cons,
    node?_ofOption]
  exact ⟨by simpa using constant, by simp, (inherited_obeys false).sequence all, by simp⟩

theorem case_obeys {subject : Node} {clauses : List Node} (keyword last : Token)
    (alternative : Option Token) (first : subject.Obeys inMethod)
    (parts : ∀ node ∈ clauses, node.Obeys inMethod) (all : ∀ node ∈ body, node.Obeys inMethod) :
    (caseNode keyword subject clauses alternative body last).Obeys inMethod := by
  refine (inherited_obeys inMethod).up rfl ?_
  rw [List.cons_append, forall_mem_children_cons, List.filterMap_append, filterMap_node?_map]
  refine ⟨by simpa using first, fun node mem => ?_⟩
  rcases List.mem_append.1 mem with part | other
  · exact parts node part
  · rw [filterMap_node?_cons, node?_ofOption] at other
    exact (inherited_obeys inMethod).sequence all node (by simpa using other)

theorem hashPattern_obeys {entries : List Node} (keys : (entries.filterMap key?).Nodup)
    (all : ∀ node ∈ entries, node.Obeys inMethod) :
    (located .hashPattern (entries.map .node) whole fields).Obeys inMethod := by
  refine obeys_mk (allowed_of_ruled (ruled_hashPattern ?_) (by decide)) ?_
  · show (((entries.map Child.node).filterMap Child.node?).filterMap key?).Nodup
    rwa [filterMap_node?_map]
  · rwa [filterMap_node?_map]

theorem clause_obeys {pattern : Node} (keyword : Token) (opener : Option Token)
    (names : (pattern.boundNames.filter isStrict).Nodup) (own : pattern.Obeys inMethod)
    (all : ∀ node ∈ body, node.Obeys inMethod) :
    (clauseNode keyword pattern opener body).Obeys inMethod := by
  refine obeys_mk (allowed_of_ruled (ruled_inPattern ?_) (by decide)) ?_
  · rintro _ ⟨⟩
    exact names
  · rw [forall_mem_children_cons, forall_mem_children_cons, forall_mem_children_cons,
      node?_ofOption]
    exact ⟨by simpa using own, by simp, (inherited_obeys inMethod).sequence all, by simp⟩

end Bodies

theorem strictNames_cons (name : Token) (more : List Node) :
    ((parameterNode name :: more).filterMap name?).filter isStrict =
      if isStrict name.text then
        name.text :: (more.filterMap name?).filter isStrict
      else (more.filterMap name?).filter isStrict := List.filter_cons

/-- The names in a list of parameters are new, as far as they may not repeat. -/
theorem Names.distinct {seen : List String} (h : Names close seen s nodes t) :
    ((nodes.filterMap name?).filter isStrict).Nodup ∧
      ∀ name ∈ (nodes.filterMap name?).filter isStrict, name ∉ seen := by
  induction h with
  | none => exact ⟨.nil, forall_mem_nil _⟩
  | last _ fresh =>
    rw [strictNames_cons]
    split
    · rename_i strict
      have new := fresh.resolve_left (by simpa [isStrict] using strict)
      exact ⟨List.nodup_singleton _, forall_mem_singleton.2 new⟩
    · exact ⟨.nil, forall_mem_nil _⟩
  | more _ fresh _ _ ih =>
    obtain ⟨nodup, others⟩ := ih
    rw [strictNames_cons]
    split
    · rename_i strict
      have under := show ¬ _ = some '_' by simpa [isStrict] using strict
      rw [if_neg under] at others
      refine ⟨List.nodup_cons.2 ⟨fun again => others _ again (.head _), nodup⟩, ?_⟩
      exact forall_mem_cons.2 ⟨fresh.resolve_left under, fun name mem seen =>
        others name mem (.tail _ seen)⟩
    · rename_i loose
      rw [if_pos (by simpa [isStrict] using loose)] at others
      exact ⟨nodup, others⟩

theorem Names.all_parameters {seen : List String} (h : Names close seen s nodes t) :
    ∀ node ∈ nodes, ∃ name, node = parameterNode name := by
  induction h with
  | none => exact forall_mem_nil _
  | last => exact forall_mem_singleton.2 ⟨_, rfl⟩
  | more _ _ _ _ ih => exact forall_mem_cons.2 ⟨⟨_, rfl⟩, ih⟩

theorem Names.obeys {first last : Span} (h : Names close [] s nodes t) :
    (parametersNode nodes first last).Obeys inMethod := by
  have arguments : nodes.filter (·.kind == .arg) = nodes := by
    refine List.filter_eq_self.2 fun node mem => ?_
    obtain ⟨name, rfl⟩ := h.all_parameters node mem
    rfl
  have names : (parametersNode nodes first last).parameterNames = nodes.filterMap name? := by
    rw [Node.parameterNames, parametersNode, children_located, filterMap_node?_map, arguments]
  refine obeys_mk (allowed_of_ruled (ruled_args ?_) (by decide)) ?_
  · show ((parametersNode nodes first last).parameterNames.filter isStrict).Nodup
    rw [names]
    exact h.distinct.1
  · rw [filterMap_node?_map]
    intro node mem
    obtain ⟨name, rfl⟩ := h.all_parameters node mem
    exact (inherited_obeys inMethod).up rfl (forall_mem_nil _)

/-- A list without parameters. -/
theorem noNames_obeys {location : Option Location} :
    (mk .args [] location none).Obeys inMethod :=
  obeys_mk (allowed_of_ruled (ruled_args .nil) (by decide)) (forall_mem_nil _)

theorem BlockParameters.obeys (h : BlockParameters s parameters t) :
    parameters.1.Obeys inMethod := by
  cases h with
  | bars | none => exact noNames_obeys
  | list _ names _ =>
    cases names with
    | intro names => exact names.obeys

theorem ParenthesizedParameters.obeys (h : ParenthesizedParameters s parameters t) :
    parameters.1.Obeys inMethod := by
  cases h with
  | none => exact noNames_obeys
  | list _ names _ =>
    cases names with
    | intro names => exact names.obeys

end Nodes

/-! ### Phrases -/

variable {features : Features} {phrase : Phrase} {value : phrase.Result} {s t : ParseState}

theorem Derives.inDef_eq (h : Derives features phrase s value t) :
    t.book.context.inDef = s.book.context.inDef := congrArg Flags.inDef h.context_eq

/-- What a phrase stands for obeys the rules of the place where it is read. -/
theorem Derives.obeys {inMethod : Bool} (h : Derives features phrase s value t)
    (inside : s.book.context.inDef = inMethod)
    (given : ∀ node ∈ phrase.given, node.Obeys inMethod) :
    ∀ node ∈ phrase.nodes value, node.Obeys inMethod := by
  induction h generalizing inMethod with
  | noStatements | emptyParens | noActuals | noEntries | noClauses => exact forall_mem_nil _
  | noOperator | noCall | noBlock => exact given
  | lastStatement _ _ _ _ ih | unassigned _ _ ih | adjacentCall _ _ _ ih
  | wordCall _ _ _ _ _ ih | parens _ _ _ _ _ ih | commandArguments _ _ _ ih
  | lastArgument _ _ ih | plainArgument _ _ ih | valuePattern _ _ ih | lastEntry _ _ _ ih =>
    exact ih inside (forall_mem_nil _)
  | moreStatements _ node _ _ ih1 ih2 | moreArguments node _ _ ih1 ih2
  | moreEntries _ node _ _ ih1 ih2 | moreClauses node _ ih1 ih2 =>
    exact forall_mem_cons.2
      ⟨ih1 inside (forall_mem_nil _) _ (.head _),
        ih2 (node.inDef_eq.trans inside) (forall_mem_nil _)⟩
  | operators left _ ih1 ih2 | chain _ _ left _ ih1 ih2 =>
    exact ih2 (left.inDef_eq.trans inside) (ih1 inside (forall_mem_nil _))
  | operator _ _ _ right _ ih1 ih2 =>
    exact ih2 (right.inDef_eq.trans inside) (forall_mem_singleton.2
      ((inherited_obeys inMethod).operatorNode _ (given _ (.head _))
        (ih1 inside (forall_mem_nil _) _ (.head _))))
  | dotCall _ _ called _ ih1 ih2 =>
    exact ih2 (called.inDef_eq.trans inside)
      (ih1 inside (by simpa [Phrase.given] using given))
  | call actuals _ ih1 ih2 =>
    exact ih2 (actuals.inDef_eq.trans inside) (forall_mem_singleton.2
      ((inherited_obeys inMethod).recordedCall _ _ _ (by simpa [Phrase.given] using given)
        (ih1 inside (forall_mem_nil _))))
  | @assignment s _ name _ _ _ _ _ _ _ ih =>
    have declared := congrArg (Flags.inDef ∘ Outline.context) (s.book.outline_declare name.text)
    have value := ih (declared.trans inside) (forall_mem_nil _)
    exact forall_mem_singleton.2 ((inherited_obeys inMethod).up rfl value)
  | negative _ _ _ value | integer _ value =>
    exact forall_mem_singleton.2 ((inherited_obeys inMethod).integer value)
  | string | symbol | constant | localVariable | numberedVariable =>
    exact forall_mem_singleton.2 ((inherited_obeys inMethod).up rfl (forall_mem_nil _))
  | @keyword _ kind _ _ _ value =>
    refine forall_mem_singleton.2 ((inherited_obeys inMethod).up ?_ (forall_mem_nil _))
    cases kind <;> cases value <;> rfl
  | minus _ _ _ ih | bang _ _ ih | definedWord _ _ _ ih | definedParens _ _ _ _ ih =>
    exact forall_mem_singleton.2 ((inherited_obeys inMethod).up rfl (ih inside (forall_mem_nil _)))
  | parenthesized _ _ _ ih =>
    refine forall_mem_singleton.2 ((inherited_obeys inMethod).up rfl ?_)
    rw [filterMap_node?_map]
    exact ih inside (forall_mem_nil _)
  | @signedArgument _ _ _ kind _ _ _ _ signs _ _ ih =>
    refine forall_mem_singleton.2 ((inherited_obeys inMethod).up ?_ (ih inside (forall_mem_nil _)))
    cases kind <;> cases signs <;> rfl
  | lambda _ _ parameters _ _ _ _ ih =>
    have body := ih ((congrArg Flags.inDef parameters.context_eq).trans inside) (forall_mem_nil _)
    exact forall_mem_singleton.2 ((inherited_obeys inMethod).closureNode _
      ((inherited_obeys inMethod).up rfl (forall_mem_nil _)) parameters.obeys body)
  | block _ _ parameters _ _ ih =>
    have body := ih ((congrArg Flags.inDef parameters.context_eq).trans inside) (forall_mem_nil _)
    exact forall_mem_singleton.2 ((inherited_obeys inMethod).closureNode _
      (given _ (.head _)) parameters.obeys body)
  | method _ _ list _ _ ih =>
    -- The body is inside a method, wherever this one is.
    exact forall_mem_singleton.2 (method_obeys _ list.obeys (ih rfl (forall_mem_nil _)))
  | classDefinition _ outside _ _ _ ih =>
    -- Inside a method there is no such phrase.
    subst inside
    rw [outside]
    exact forall_mem_singleton.2 (class_obeys _ (ih rfl (forall_mem_nil _)))
  | whileLoop _ condition _ _ _ _ ih1 ih2 =>
    exact forall_mem_singleton.2 ((inherited_obeys inMethod).whileLoop
      (ih1 inside (forall_mem_nil _) _ (.head _))
      (ih2 (condition.inDef_eq.trans inside) (forall_mem_nil _)))
  | caseMatch _ _ subject _ _ _ ih1 ih2 =>
    exact forall_mem_singleton.2 (case_obeys _ _ none (ih1 inside (forall_mem_nil _) _ (.head _))
      (ih2 (subject.inDef_eq.trans inside) (forall_mem_nil _)) (forall_mem_nil _))
  | caseElse _ _ subject _ clauses _ _ _ ih1 ih2 ih3 =>
    have first := subject.inDef_eq.trans inside
    exact forall_mem_singleton.2 (case_obeys _ _ _ (ih1 inside (forall_mem_nil _) _ (.head _))
      (ih2 first (forall_mem_nil _)) (ih3 (clauses.inDef_eq.trans first) (forall_mem_nil _)))
  | variablePattern | bareEntry => exact forall_mem_singleton.2 (matchVariableNode_obeys _ _)
  | hashPattern _ entries _ ih =>
    exact forall_mem_singleton.2
      (hashPattern_obeys (entries.binds (forall_mem_nil _)).keys.of_empty.2
        (ih inside (forall_mem_nil _)))
  | pairEntry _ _ _ ih =>
    exact forall_mem_singleton.2
      ((inherited_obeys inMethod).pairNode _ (ih inside (forall_mem_nil _) _ (.head _)))
  | clause _ pattern same _ _ _ ih1 ih2 =>
    subst same
    have names := (pattern.binds (forall_mem_nil _)).names.of_empty.2
    exact forall_mem_singleton.2 (clause_obeys _ _ names
      (ih1 inside (forall_mem_nil _) _ (.head _)) (ih2 inside (forall_mem_nil _)))

/-- The nodes of a program are under the rules. -/
theorem Program.ruled {tokens : List Token} {body : List Node} {after : ParseState}
    (h : Program features tokens body after) : ∀ node ∈ sequence body, node.Every Ruled := by
  have obeys : ∀ node ∈ body, node.Obeys false := Derives.obeys h rfl (forall_mem_nil _)
  intro node mem
  exact ((inherited_obeys false).sequence obeys node mem).mono fun _ allowed => allowed.ruled

end Grammar

end Conformance.Dialect
