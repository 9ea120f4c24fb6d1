import Conformance.Proofs.Attachment
import Conformance.Proofs.Expressions
import Conformance.Proofs.Probes
import Conformance.Proofs.Sound
import Mathlib.Data.List.Nodup

/-! The rules that a tree obeys besides the grammar: parameters, variables that a pattern binds and
keys of a hash pattern do not repeat, and no class is defined in a method. -/

namespace Conformance.Dialect

/-! ### Names that a tree binds -/

/-- Whether a name may not repeat. One that starts with an underscore may. -/
def isStrict (name : String) : Bool := name.toList.head? != some '_'

/-- The kinds of nodes that bind nothing themselves and are under no rule. -/
def NodeKind.isOrdinary : NodeKind → Bool
  | .args | .inPattern | .matchVar | .hashPattern | .method | .classDef => false
  | _ => true

namespace Node

/-- The name that a node starts with. -/
def name? (node : Node) : Option String :=
  match node.allChildren with
  | .sym name :: _ => some name
  | _ => none

/-- The names of the parameters in a list of parameters. -/
def parameterNames (node : Node) : List String :=
  (node.children.filter (·.kind == .arg)).filterMap name?

mutual

/-- The names that a pattern binds. The case expressions in it have patterns of their own. -/
def boundNames : Node → List String
  | .mk .caseMatch _ _ _ => []
  | .mk .matchVar children location context => (mk .matchVar children location context).name?.toList
  | .mk _ children _ _ => childrenBoundNames children

def childrenBoundNames : List Child → List String
  | [] => []
  | .node node :: more => boundNames node ++ childrenBoundNames more
  | _ :: more => childrenBoundNames more

end

/-- The key of an entry in a hash pattern: that of a pair, or the name that a label alone binds. -/
def key? (entry : Node) : Option String :=
  match entry.kind with
  | .pair => entry.children.head?.bind name?
  | .matchVar => entry.name?
  | _ => none

/-- The rules for one node. -/
structure Ruled (node : Node) : Prop where
  parameters : node.kind = .args → (node.parameterNames.filter isStrict).Nodup
  bindings : node.kind = .inPattern →
    ∀ pattern ∈ node.children.head?, (pattern.boundNames.filter isStrict).Nodup
  keys : node.kind = .hashPattern → (node.children.filterMap key?).Nodup
  classes : node.kind = .method →
    ∀ child ∈ node.children, child.Every fun below => below.kind ≠ .classDef

variable {kind : NodeKind} {children : List Child} {location : Option Location}
  {context : Option Flags}

theorem childrenBoundNames_eq (children : List Child) :
    childrenBoundNames children = (children.filterMap Child.node?).flatMap boundNames := by
  induction children with
  | nil => rfl
  | cons child more ih => cases child <;> simp [childrenBoundNames, ih, Child.node?]

/-- A node binds what the nodes below it do, unless it is a variable of a pattern or a case
expression. -/
theorem boundNames_mk (other : kind ≠ .matchVar) (noCase : kind ≠ .caseMatch) :
    (mk kind children location context).boundNames =
      (children.filterMap Child.node?).flatMap boundNames := by
  rw [← childrenBoundNames_eq]
  cases kind <;> first | rfl | contradiction

theorem boundNames_eq_nil (other : kind ≠ .matchVar)
    (none : ∀ child ∈ children.filterMap Child.node?, child.boundNames = []) :
    (mk kind children location context).boundNames = [] := by
  by_cases isCase : kind = .caseMatch
  · subst isCase
    rfl
  · rw [boundNames_mk other isCase, List.flatMap_eq_nil_iff]
    exact none

end Node

/-! ### Sets of names -/

/-- The names have been entered into the innermost of some sets of names, one after the other and
none of them twice. -/
structure Entered (names : List String) (before after : List (List String)) : Prop where
  eq : after = before.modifyHead (names.reverse ++ ·)
  nodup : ∀ set ∈ before.head?, set.Nodup → (names.reverse ++ set).Nodup

namespace Entered

variable {names more : List String} {a b c : List (List String)} {name : String}

theorem nil (sets : List (List String)) : Entered [] sets sets :=
  ⟨by cases sets <;> rfl, fun _ _ nodup => nodup⟩

theorem of_eq (same : b = a) : Entered [] a b := same ▸ .nil b

theorem eq_of_nil (h : Entered [] a b) : b = a := h.eq.trans (nil a).eq.symm

theorem of_enter? (enters : Bookkeeping.enter? name a = some b) : Entered [name] a b := by
  cases a with
  | nil =>
    cases enters
    exact ⟨rfl, by simp⟩
  | cons set outer =>
    obtain ⟨fresh, rfl⟩ : name ∉ set ∧ (name :: set) :: outer = b := by
      simpa [Bookkeeping.enter?] using enters
    refine ⟨rfl, ?_⟩
    rintro _ ⟨⟩ nodup
    exact List.nodup_cons.2 ⟨fresh, nodup⟩

theorem trans (h1 : Entered names a b) (h2 : Entered more b c) : Entered (names ++ more) a c := by
  obtain ⟨rfl, first⟩ := h1
  obtain ⟨rfl, second⟩ := h2
  cases a with
  | nil => exact ⟨rfl, by simp⟩
  | cons set outer =>
    refine ⟨by simp, ?_⟩
    rintro _ ⟨⟩ nodup
    simpa using second _ rfl (first _ rfl nodup)

/-- What has been entered into an empty set. -/
theorem of_empty (h : Entered names ([] :: a) b) : b.tail = a ∧ names.Nodup := by
  obtain ⟨rfl, nodup⟩ := h
  have distinct := nodup [] rfl List.nodup_nil
  rw [List.append_nil, List.nodup_reverse] at distinct
  exact ⟨rfl, distinct⟩

end Entered

namespace Bookkeeping

/-- What the open patterns have bound, and the keys of the open hash patterns. -/
def patterns (book : Bookkeeping) : List (List String) × List (List String) :=
  (book.patternVariables, book.patternKeys)

theorem patterns_declare (book : Bookkeeping) (name : String) :
    (book.declare name).patterns = book.patterns := by
  unfold declare
  split <;> rfl

theorem patterns_useNumber (book : Bookkeeping) (number : Nat) :
    (book.useNumber number).patterns = book.patterns := by
  unfold useNumber
  split <;> rfl

/-- What a variable of a pattern adds to the innermost open pattern. -/
theorem Binds.entered {book after : Bookkeeping} {name : String} (binds : Binds name book after) :
    Entered ([name].filter isStrict) book.patternVariables after.patternVariables ∧
      after.patternKeys = book.patternKeys := by
  cases binds with
  | free free =>
    have loose : isStrict name = false := by simp [isStrict, free]
    have same := book.patterns_declare name
    rw [List.filter_singleton, loose]
    exact ⟨.of_eq (congrArg Prod.fst same), congrArg Prod.snd same⟩
  | @fresh strict sets enters =>
    have once : isStrict name = true := by simp [isStrict, strict]
    have same := patterns_declare { book with patternVariables := sets } name
    rw [List.filter_singleton, once]
    refine ⟨?_, congrArg Prod.snd same⟩
    exact (Entered.of_enter? enters).trans (.of_eq (congrArg Prod.fst same))

end Bookkeeping

namespace Grammar

open Node
open List (forall_mem_nil forall_mem_cons forall_mem_singleton)

/-! ### Parameters -/

section Parameters

variable {s t : ParseState} {close : TokenKind} {nodes : List Node} {parameters : Node × Bool}

theorem Names.patterns_eq {seen : List String} (h : Names close seen s nodes t) :
    t.book.patterns = s.book.patterns := by
  induction h with
  | none => rfl
  | last => exact Bookkeeping.patterns_declare _ _
  | more _ _ _ _ ih => exact ih.trans (Bookkeeping.patterns_declare _ _)

theorem BlockParameters.patterns_eq (h : BlockParameters s parameters t) :
    t.book.patterns = s.book.patterns := by
  cases h with
  | bars | none => rfl
  | list _ names _ =>
    cases names with
    | intro names => exact names.patterns_eq

theorem ParenthesizedParameters.patterns_eq (h : ParenthesizedParameters s parameters t) :
    t.book.patterns = s.book.patterns := by
  cases h with
  | none => rfl
  | list _ names _ =>
    cases names with
    | intro names => exact names.patterns_eq

end Parameters

/-! ### The nodes of the grammar -/

/-- A property that an ordinary node has if the nodes below it have it. -/
structure Inherited (p : Node → Prop) : Prop where
  up {kind : NodeKind} {children : List Child} {location : Option Location}
    {context : Option Flags} : kind.isOrdinary = true →
    (∀ child ∈ children.filterMap Child.node?, p child) → p (.mk kind children location context)

section Nodes

variable {kind : NodeKind} {children : List Child} {whole : Option Span}
  {fields : List (String × Option Span)} {body : List Node}

theorem forall_mem_children_cons {p : Node → Prop} {child : Child} {more : List Child} :
    (∀ node ∈ (child :: more).filterMap Child.node?, p node) ↔
      (∀ node ∈ child.node?, p node) ∧ ∀ node ∈ more.filterMap Child.node?, p node := by
  rw [filterMap_node?_cons]
  simp [or_imp, forall_and]

namespace Inherited

variable {p : Node → Prop} (h : Inherited p)
include h

theorem located (ordinary : kind.isOrdinary = true)
    (below : ∀ child ∈ children.filterMap Child.node?, p child) :
    p (.located kind children whole fields) := h.up ordinary below

theorem sequence (all : ∀ node ∈ body, p node) : ∀ node ∈ Grammar.sequence body, p node := by
  match body with
  | [] => simp [Grammar.sequence]
  | [node] =>
    rintro _ ⟨⟩
    exact all node (.head _)
  | first :: second :: more =>
    rintro _ ⟨⟩
    exact h.located rfl (by rwa [filterMap_node?_map])

theorem operatorNode {left right : Node} (operator : Token) (hl : p left) (hr : p right) :
    p (Grammar.operatorNode left operator right) := by
  unfold Grammar.operatorNode
  split
  all_goals exact h.located rfl (by simp [hl, hr])

theorem recordedCall (context : Flags) {receiver : Option Node} (dot : Option Token)
    (selector : Token) {actuals : Actuals} (hr : ∀ node ∈ receiver, p node)
    (ha : ∀ node ∈ actuals.nodes, p node) :
    p (Grammar.recordedCall context receiver dot selector actuals) := by
  rw [recordedCall_eq]
  refine h.up rfl ?_
  rw [forall_mem_children_cons, forall_mem_children_cons, node?_ofOption, filterMap_node?_map]
  exact ⟨hr, by simp, ha⟩

theorem closureNode {target parameters : Node} (numbering : Option Numbering)
    {whole : Span} {first last : Token} (ht : p target) (hp : p parameters)
    (hb : ∀ node ∈ body, p node) :
    p (Grammar.closureNode target parameters numbering body whole first last) := by
  have statements := h.sequence hb
  unfold Grammar.closureNode
  dsimp only
  split
  · refine h.located rfl ?_
    rw [forall_mem_children_cons, forall_mem_children_cons, forall_mem_children_cons,
      node?_ofOption]
    exact ⟨by simpa using ht, by simp [Child.node?], statements, by simp⟩
  · refine h.located rfl ?_
    rw [forall_mem_children_cons, forall_mem_children_cons, forall_mem_children_cons,
      node?_ofOption]
    exact ⟨by simpa using ht, by simpa using hp, statements, by simp⟩

theorem integer {text : List Char} {value : Child} (read : Child.integer? text = some value) :
    p (.located .int [value] whole fields) :=
  h.located rfl (by simp [Child.node?_integer? read])

theorem pairNode (label : Token) {value : Node} (all : p value) :
    p (Grammar.pairNode label value) := by
  have symbol : p (.located .sym [.sym (keyOf label)] (some (keySpan label)) [("begin", none)]) :=
    h.located rfl (by simp)
  exact h.located rfl (by simp [symbol, all])

theorem whileLoop {condition : Node} (hc : p condition) (hb : ∀ node ∈ body, p node) :
    p (.located .whileLoop [.node condition, .ofOption (Grammar.sequence body)] whole fields) := by
  refine h.located rfl ?_
  rw [forall_mem_children_cons, forall_mem_children_cons, node?_ofOption]
  exact ⟨by simpa using hc, h.sequence hb, by simp⟩

end Inherited

theorem boundNames_located (other : kind ≠ .matchVar)
    (none : ∀ child ∈ children.filterMap Child.node?, child.boundNames = []) :
    (located kind children whole fields).boundNames = [] := boundNames_eq_nil other none

theorem inherited_boundNames : Inherited fun node => node.boundNames = [] :=
  ⟨fun ordinary below => boundNames_eq_nil (by rintro rfl; cases ordinary) below⟩

/-- A method or a class, with its name, its parameters and its body. -/
theorem definition_boundNames {first second : Child} {body : List Node} (other : kind ≠ .matchVar)
    (name : ∀ node ∈ first.node?, node.boundNames = [])
    (parameters : ∀ node ∈ second.node?, node.boundNames = [])
    (statements : ∀ node ∈ body, node.boundNames = []) :
    (located kind [first, second, .ofOption (Grammar.sequence body)] whole fields).boundNames =
      [] := by
  refine boundNames_located other ?_
  rw [forall_mem_children_cons, forall_mem_children_cons, forall_mem_children_cons,
    node?_ofOption]
  exact ⟨name, parameters, inherited_boundNames.sequence statements, by simp⟩

theorem boundNames_hashPattern (entries : List Node) :
    (located .hashPattern (entries.map .node) whole fields).boundNames =
      entries.flatMap boundNames := by
  rw [located, boundNames_mk (by decide) (by decide), filterMap_node?_map]

theorem boundNames_pairNode (label : Token) (value : Node) :
    (pairNode label value).boundNames = value.boundNames := by
  rw [pairNode, located, boundNames_mk (by decide) (by decide)]
  simp [boundNames_located]

theorem filterMap_key?_cons (entry : Node) (more : List Node) :
    (entry :: more).filterMap key? = entry.key?.toList ++ more.filterMap key? := by
  cases found : entry.key? <;> simp [found]

end Nodes

section Parameters

variable {s t : ParseState} {close : TokenKind} {nodes : List Node} {parameters : Node × Bool}

theorem Names.boundNames {seen : List String} (h : Names close seen s nodes t) :
    ∀ node ∈ nodes, node.boundNames = [] := by
  induction h with
  | none => exact forall_mem_nil _
  | last => exact List.forall_mem_singleton.2 rfl
  | more _ _ _ _ ih => exact List.forall_mem_cons.2 ⟨rfl, ih⟩

theorem parametersNode_boundNames {first last : Span} (h : ∀ node ∈ nodes, node.boundNames = []) :
    (parametersNode nodes first last).boundNames = [] :=
  boundNames_located (by decide) (by simpa using h)

theorem BlockParameters.boundNames (h : BlockParameters s parameters t) :
    parameters.1.boundNames = [] := by
  cases h with
  | bars | none => rfl
  | list _ names _ =>
    cases names with
    | intro names => exact parametersNode_boundNames names.boundNames

theorem ParenthesizedParameters.boundNames (h : ParenthesizedParameters s parameters t) :
    parameters.1.boundNames = [] := by
  cases h with
  | none => rfl
  | list _ names _ =>
    cases names with
    | intro names => exact parametersNode_boundNames names.boundNames

end Parameters

/-! ### What a phrase binds -/

/-- The names that a phrase binds in the innermost open pattern. -/
def Phrase.bound : (phrase : Phrase) → phrase.Result → List String
  | .of .pattern, node | .entry _, node => node.boundNames.filter isStrict
  | .of .entries, nodes => (nodes.flatMap boundNames).filter isStrict
  | _, _ => []

/-- The keys that a phrase adds to the innermost open hash pattern. -/
def Phrase.keys : (phrase : Phrase) → phrase.Result → List String
  | .entry _, node => node.key?.toList
  | .of .entries, nodes => nodes.filterMap key?
  | _, _ => []

/-- What stands for no pattern, and no part of one, binds nothing. -/
def Phrase.BindsNothing : (phrase : Phrase) → phrase.Result → Prop
  | .of .pattern, _ | .of .entries, _ | .of .clauses, _ | .entry _, _ | .clause, _ => True
  | phrase, value => ∀ node ∈ phrase.nodes value, node.boundNames = []

/-- The names and the keys of a phrase are what the books get, each of them once. -/
structure Phrase.Binds (phrase : Phrase) (value : phrase.Result) (before after : Bookkeeping) :
    Prop where
  names : Entered (phrase.bound value) before.patternVariables after.patternVariables
  keys : Entered (phrase.keys value) before.patternKeys after.patternKeys
  nothing : phrase.BindsNothing value

variable {features : Features} {phrase : Phrase} {value : phrase.Result} {s t : ParseState}

theorem Derives.binds (h : Derives features phrase s value t)
    (given : ∀ node ∈ phrase.given, node.boundNames = []) :
    phrase.Binds value s.book t.book := by
  -- A value in a pattern enters nothing and has to bind nothing, so that both are shown at once.
  induction h with
  | noStatements | emptyParens | noActuals => exact ⟨.nil _, .nil _, forall_mem_nil _⟩
  | noEntries | noClauses => exact ⟨.nil _, .nil _, trivial⟩
  | noOperator | noCall | noBlock => exact ⟨.nil _, .nil _, given⟩
  | lastStatement _ _ _ _ ih | unassigned _ _ ih | adjacentCall _ _ _ ih
  | wordCall _ _ _ _ _ ih | parens _ _ _ _ _ ih | commandArguments _ _ _ ih
  | lastArgument _ _ ih | plainArgument _ _ ih =>
    obtain ⟨names, keys, nothing⟩ := ih (forall_mem_nil _)
    exact ⟨names, keys, nothing⟩
  | moreStatements _ _ _ _ ih1 ih2 | moreArguments _ _ _ ih1 ih2 =>
    obtain ⟨names, keys, nothing⟩ := ih1 (forall_mem_nil _)
    obtain ⟨names', keys', nothing'⟩ := ih2 (forall_mem_nil _)
    exact ⟨names.trans names', keys.trans keys',
      forall_mem_cons.2 ⟨nothing _ (.head _), nothing'⟩⟩
  | operators _ _ ih1 ih2 | chain _ _ _ _ ih1 ih2 =>
    obtain ⟨names, keys, nothing⟩ := ih1 (forall_mem_nil _)
    obtain ⟨names', keys', nothing'⟩ := ih2 nothing
    exact ⟨names.trans names', keys.trans keys', nothing'⟩
  | operator _ _ _ _ _ ih1 ih2 =>
    obtain ⟨names, keys, nothing⟩ := ih1 (forall_mem_nil _)
    obtain ⟨names', keys', nothing'⟩ := ih2 (forall_mem_singleton.2
      (inherited_boundNames.operatorNode _ (given _ (.head _)) (nothing _ (.head _))))
    exact ⟨names.trans names', keys.trans keys', nothing'⟩
  | dotCall _ _ _ _ ih1 ih2 =>
    obtain ⟨names, keys, nothing⟩ := ih1 (by simpa [Phrase.given] using given)
    obtain ⟨names', keys', nothing'⟩ := ih2 nothing
    exact ⟨names.trans names', keys.trans keys', nothing'⟩
  | call _ _ ih1 ih2 =>
    obtain ⟨names, keys, nothing⟩ := ih1 (forall_mem_nil _)
    obtain ⟨names', keys', nothing'⟩ := ih2 (forall_mem_singleton.2
      (inherited_boundNames.recordedCall _ _ _ (by simpa [Phrase.given] using given) nothing))
    exact ⟨names.trans names', keys.trans keys', nothing'⟩
  | @assignment s _ name _ _ _ _ _ _ _ ih =>
    obtain ⟨names, keys, nothing⟩ := ih (forall_mem_nil _)
    have declared := s.book.patterns_declare name.text
    refine ⟨(Entered.of_eq (congrArg Prod.fst declared)).trans names,
      (Entered.of_eq (congrArg Prod.snd declared)).trans keys, forall_mem_singleton.2 ?_⟩
    exact boundNames_located (by decide) (by simpa using nothing _ (.head _))
  | negative _ _ _ value | integer _ value =>
    exact ⟨.nil _, .nil _, forall_mem_singleton.2 (inherited_boundNames.integer value)⟩
  | string | symbol | constant | localVariable =>
    exact ⟨.nil _, .nil _, forall_mem_singleton.2 rfl⟩
  | @keyword _ kind _ _ _ value =>
    refine ⟨.nil _, .nil _, forall_mem_singleton.2 (boundNames_located ?_ (forall_mem_nil _))⟩
    cases kind <;> cases value <;> decide
  | @numberedVariable s _ _ number =>
    have used := s.book.patterns_useNumber number
    exact ⟨.of_eq (congrArg Prod.fst used), .of_eq (congrArg Prod.snd used),
      forall_mem_singleton.2 rfl⟩
  | minus _ _ _ ih | bang _ _ ih | definedWord _ _ _ ih | definedParens _ _ _ _ ih =>
    obtain ⟨names, keys, nothing⟩ := ih (forall_mem_nil _)
    refine ⟨names, keys, forall_mem_singleton.2 (boundNames_located (by decide) ?_)⟩
    simpa using nothing _ (.head _)
  | parenthesized _ _ _ ih =>
    obtain ⟨names, keys, nothing⟩ := ih (forall_mem_nil _)
    refine ⟨names, keys, forall_mem_singleton.2 (boundNames_located (by decide) ?_)⟩
    rw [filterMap_node?_map]
    exact nothing
  | @signedArgument first _ _ kind sign _ _ _ signs _ _ ih =>
    obtain ⟨names, keys, nothing⟩ := ih (forall_mem_nil _)
    have other : sign ≠ .matchVar := by cases kind <;> cases signs <;> decide
    have operand := nothing _ (.head _)
    cases first <;>
      exact ⟨names, keys, forall_mem_singleton.2
        (boundNames_located other (forall_mem_singleton.2 operand))⟩
  | lambda _ _ parameters _ _ _ _ ih =>
    obtain ⟨names, keys, nothing⟩ := ih (forall_mem_nil _)
    have same := parameters.patterns_eq
    refine ⟨(Entered.of_eq (congrArg Prod.fst same)).trans names,
      (Entered.of_eq (congrArg Prod.snd same)).trans keys, forall_mem_singleton.2 ?_⟩
    exact inherited_boundNames.closureNode _ rfl parameters.boundNames nothing
  | block _ _ parameters _ _ ih =>
    obtain ⟨names, keys, nothing⟩ := ih (forall_mem_nil _)
    have same := parameters.patterns_eq
    refine ⟨(Entered.of_eq (congrArg Prod.fst same)).trans names,
      (Entered.of_eq (congrArg Prod.snd same)).trans keys, forall_mem_singleton.2 ?_⟩
    exact inherited_boundNames.closureNode _ (given _ (.head _)) parameters.boundNames nothing
  | method _ _ parameters _ _ ih =>
    obtain ⟨names, keys, nothing⟩ := ih (forall_mem_nil _)
    have same := parameters.patterns_eq
    refine ⟨(Entered.of_eq (congrArg Prod.fst same)).trans names,
      (Entered.of_eq (congrArg Prod.snd same)).trans keys, forall_mem_singleton.2 ?_⟩
    refine definition_boundNames (by decide) nofun ?_ nothing
    rintro _ ⟨⟩
    exact parameters.boundNames
  | classDefinition _ _ _ _ _ ih =>
    obtain ⟨names, keys, nothing⟩ := ih (forall_mem_nil _)
    refine ⟨names, keys, forall_mem_singleton.2 ?_⟩
    refine definition_boundNames (by decide) ?_ nofun nothing
    rintro _ ⟨⟩
    rfl
  | whileLoop _ _ _ _ _ _ ih1 ih2 =>
    obtain ⟨names, keys, nothing⟩ := ih1 (forall_mem_nil _)
    obtain ⟨names', keys', nothing'⟩ := ih2 (forall_mem_nil _)
    exact ⟨names.trans names', keys.trans keys', forall_mem_singleton.2
      (inherited_boundNames.whileLoop (nothing _ (.head _)) nothing')⟩
  | caseMatch _ _ _ _ _ _ ih1 ih2 =>
    obtain ⟨names, keys, nothing⟩ := ih1 (forall_mem_nil _)
    obtain ⟨names', keys', -⟩ := ih2 (forall_mem_nil _)
    exact ⟨names.trans names', keys.trans keys', forall_mem_singleton.2 rfl⟩
  | caseElse _ _ _ _ _ _ _ _ ih1 ih2 ih3 =>
    obtain ⟨names, keys, nothing⟩ := ih1 (forall_mem_nil _)
    obtain ⟨names', keys', -⟩ := ih2 (forall_mem_nil _)
    obtain ⟨names'', keys'', -⟩ := ih3 (forall_mem_nil _)
    exact ⟨(names.trans names').trans names'', (keys.trans keys').trans keys'',
      forall_mem_singleton.2 rfl⟩
  | variablePattern _ binds =>
    obtain ⟨names, keys⟩ := binds.entered
    exact ⟨names, .of_eq keys, trivial⟩
  | hashPattern _ _ _ ih =>
    obtain ⟨names, keys, -⟩ := ih (forall_mem_nil _)
    refine ⟨?_, .of_eq keys.of_empty.1, trivial⟩
    rw [Phrase.bound, boundNames_hashPattern]
    exact names
  | valuePattern _ _ ih =>
    obtain ⟨names, keys, nothing⟩ := ih (forall_mem_nil _)
    refine ⟨?_, keys, trivial⟩
    rw [Phrase.bound, nothing _ (.head _)]
    exact names
  | lastEntry _ _ _ ih =>
    obtain ⟨names, keys, -⟩ := ih (forall_mem_nil _)
    refine ⟨?_, ?_, trivial⟩
    · rw [Phrase.bound, List.flatMap_singleton]
      exact names
    · rw [Phrase.keys, filterMap_key?_cons, List.filterMap_nil, List.append_nil]
      exact keys
  | moreEntries _ _ _ _ ih1 ih2 =>
    obtain ⟨names, keys, -⟩ := ih1 (forall_mem_nil _)
    obtain ⟨names', keys', -⟩ := ih2 (forall_mem_nil _)
    refine ⟨?_, ?_, trivial⟩
    · rw [Phrase.bound, List.flatMap_cons, List.filter_append]
      exact names.trans names'
    · rw [Phrase.keys, filterMap_key?_cons]
      exact keys.trans keys'
  | bareEntry enters _ binds =>
    obtain ⟨names, same⟩ := binds.entered
    exact ⟨names, (Entered.of_enter? enters).trans (.of_eq same), trivial⟩
  | pairEntry enters _ _ ih =>
    obtain ⟨names, keys, -⟩ := ih (forall_mem_nil _)
    refine ⟨?_, (Entered.of_enter? enters).trans keys, trivial⟩
    rw [Phrase.bound, boundNames_pairNode]
    exact names
  | moreClauses _ _ ih1 ih2 =>
    obtain ⟨names, keys, -⟩ := ih1 (forall_mem_nil _)
    obtain ⟨names', keys', -⟩ := ih2 (forall_mem_nil _)
    exact ⟨names.trans names', keys.trans keys', trivial⟩
  | clause _ _ same _ _ _ ih1 ih2 =>
    subst same
    obtain ⟨names, keys, -⟩ := ih1 (forall_mem_nil _)
    obtain ⟨names', keys', -⟩ := ih2 (forall_mem_nil _)
    exact ⟨(Entered.of_eq names.of_empty.1).trans names', keys.trans keys', trivial⟩

end Grammar

end Conformance.Dialect
