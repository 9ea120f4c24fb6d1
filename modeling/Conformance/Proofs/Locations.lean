import Conformance.Proofs.Acceptance
import Conformance.Proofs.Idle
import Conformance.Proofs.Nodes
import Conformance.Proofs.Sound
import Conformance.Proofs.Succession

/-! Where the nodes of a tree stand: the ranges of a node are within its range as a whole, and so
are its children, which stand one after the other. -/

namespace Conformance.Dialect

namespace Node

/-- What holds of the ranges of a node in a source of `n` characters. -/
structure Nested (n : Nat) (node : Node) : Prop where
  /-- Only a list of parameters that is not written has no range. -/
  unwritten : node.range? = none → node.kind = .args ∧ node.children = []
  fields_within : ∀ location ∈ node.location?, ∀ field ∈ location.fields, ∀ span ∈ field.2,
    span.stop ≤ n ∧ ∀ whole ∈ node.range?, span.Within whole
  children_within : ∀ child ∈ node.children, ∀ inner ∈ child.range?, ∃ whole ∈ node.range?,
    inner.Within whole
  children_in_order : (node.children.filterMap Node.range?).Pairwise Span.Before

/-- A node that has a range, with nested ranges throughout. -/
structure Neat (n : Nat) (node : Node) : Prop where
  range?_eq : node.range? = some node.range
  nested : node.Every (Nested n)

variable {n : Nat} {kind : NodeKind} {children : List Child} {whole : Span}
  {fields : List (String × Option Span)} {context : Option Flags}

/-- A node with a range as the grammar builds it; a call of the probe has flags as well. -/
def ranged (kind : NodeKind) (children : List Child) (whole : Span)
    (fields : List (String × Option Span)) (context : Option Flags) : Node :=
  .mk kind children (some { fields := (wholeField, some whole) :: fields }) context

@[simp] theorem range?_located :
    (located kind children (some whole) fields).range? = some whole := rfl

@[simp] theorem range_located : (located kind children (some whole) fields).range = whole := rfl

theorem filterMap_range? {nodes : List Node} (neat : ∀ node ∈ nodes, node.Neat n) :
    nodes.filterMap Node.range? = nodes.map Node.range := by
  induction nodes with
  | nil => rfl
  | cons node more ih =>
    obtain ⟨first, others⟩ := List.forall_mem_cons.1 neat
    rw [List.filterMap_cons_some first.range?_eq, ih others, List.map_cons]

end Node

namespace Grammar.Actuals

/-- The pieces of what follows a selector. -/
def pieces (actuals : Actuals) : List Span :=
  (actuals.parens.map Prod.fst).toList ++ actuals.nodes.map Node.range ++
    (actuals.parens.map Prod.snd).toList

end Grammar.Actuals

/-- Nodes that have been passed, in this order, and the tokens ahead. -/
structure Spread (n : Nat) (passed : List Span) (nodes : List Node) (ahead : List Token) :
    Prop where
  laid : Laid n ((nodes.map Node.range).reverse ++ passed) ahead
  neat : ∀ node ∈ nodes, node.Neat n

section Spread

variable {n : Nat} {passed : List Span} {ahead : List Token} {node : Node}
  {nodes : List Node}

theorem spread_nil : Spread n passed [] ahead ↔ Laid n passed ahead :=
  ⟨fun spread => spread.laid, fun laid => ⟨laid, nofun⟩⟩

theorem Spread.cons {middle : List Token} (first : Spread n passed [node] middle)
    (others : Spread n (node.range :: passed) nodes ahead) :
    Spread n passed (node :: nodes) ahead := by
  refine ⟨?_, List.forall_mem_cons.2 ⟨first.neat node (.head _), others.neat⟩⟩
  simpa using others.laid

/-- A node with a range, which has been read in pieces: its range is from the first to the last of
them, and its other ranges and its children are among them. -/
theorem Laid.ranged {kind : NodeKind} {children : List Child} {first last : Span}
    {fields : List (String × Option Span)} {context : Option Flags} (run : List Span)
    (nodes : List Node) (laid : Laid n (run ++ passed) ahead) (starts : run.getLast? = some first)
    (ends : run.head? = some last) (marks : ∀ field ∈ fields, ∀ span ∈ field.2, span ∈ run)
    (parts : children.filterMap Child.node? = nodes)
    (below : ∀ child ∈ nodes, child.Every (Node.Nested n))
    (among : (nodes.filterMap Node.range?).reverse.Sublist run) :
    Spread n passed [.ranged kind children (first.join last) fields context] ahead := by
  have whole : Laid n (first.join last :: passed) ahead :=
    laid.join (List.mem_of_getLast? starts) (List.mem_of_head? ends)
  have covered := laid.within_join starts ends
  subst parts
  have nested : Node.Nested n (.ranged kind children (first.join last) fields context) := by
    refine ⟨nofun, ?_, ?_, ?_⟩
    · rintro _ ⟨⟩ field mem span present
      obtain rfl | mem := List.mem_cons.1 mem
      · cases present
        refine ⟨whole.stop_le _ (by simp), ?_⟩
        rintro _ ⟨⟩
        exact .refl _
      · have piece := marks field mem span present
        refine ⟨laid.passed_stop_le span piece, ?_⟩
        rintro _ ⟨⟩
        exact covered span piece
    · intro child mem inner present
      have piece : inner ∈ run := among.mem (by
        rw [List.mem_reverse]
        exact List.mem_filterMap.2 ⟨child, mem, present⟩)
      exact ⟨_, rfl, covered inner piece⟩
    · have in_order := laid.passed_in_order.sublist among
      rwa [List.pairwise_reverse] at in_order
  exact ⟨whole, List.forall_mem_singleton.2 ⟨rfl, .intro nested below⟩⟩

/-- The same, where every child has a range. -/
theorem Laid.located {kind : NodeKind} {children : List Child} {first last : Span}
    {fields : List (String × Option Span)} {context : Option Flags} (run : List Span)
    (nodes : List Node) (laid : Laid n (run ++ passed) ahead) (starts : run.getLast? = some first)
    (ends : run.head? = some last) (marks : ∀ field ∈ fields, ∀ span ∈ field.2, span ∈ run)
    (parts : children.filterMap Child.node? = nodes) (neat : ∀ child ∈ nodes, child.Neat n)
    (among : (nodes.map Node.range).reverse.Sublist run) :
    Spread n passed [.ranged kind children (first.join last) fields context] ahead := by
  refine Laid.ranged run nodes laid starts ends marks parts ?_ ?_
  · exact fun child mem => (neat child mem).nested
  · rwa [Node.filterMap_range? neat]

/-- A node for one token; its other ranges are parts of the token. -/
theorem Laid.leaf {kind : NodeKind} {children : List Child} {span : Span}
    {fields : List (String × Option Span)} (laid : Laid n (span :: passed) ahead)
    (marks : ∀ field ∈ fields, ∀ mark ∈ field.2, mark.Within span)
    (childless : children.filterMap Child.node? = []) :
    Spread n passed [.located kind children (some span) fields] ahead := by
  have stop_le : span.stop ≤ n := laid.stop_le span (by simp)
  have none_below : (Node.located kind children (some span) fields).children = [] := childless
  refine ⟨laid, List.forall_mem_singleton.2 ⟨rfl, .intro ⟨nofun, ?_, ?_, ?_⟩ ?_⟩⟩
  · rintro _ ⟨⟩ field mem mark present
    obtain rfl | mem := List.mem_cons.1 mem
    · cases present
      exact ⟨stop_le, by simp⟩
    · have within := marks field mem mark present
      exact ⟨Nat.le_trans within.2 stop_le, by simpa using within⟩
  · simp [none_below]
  · simp [none_below]
  · simp [none_below]

/-- Nodes between two tokens, such as statements in parentheses or the entries of a pattern. -/
theorem Spread.bracketed {kind : NodeKind} {first last : Span}
    (laid : Laid n (last :: ((nodes.map Node.range).reverse ++ first :: passed)) ahead)
    (neat : ∀ node ∈ nodes, node.Neat n) :
    Spread n passed [.located kind (nodes.map .node) (some (first.join last))
      [("begin", some first), ("end", some last)]] ahead := by
  have run : Laid n ((last :: (nodes.map Node.range).reverse ++ [first]) ++ passed) ahead := by
    simpa using laid
  exact run.located _ nodes List.getLast?_concat rfl (by simp) Node.filterMap_node?_map neat
    (.cons _ (List.sublist_append_left _ _))

end Spread

open Grammar

/-- The last character of a label. -/
def colonSpan (label : Token) : Span := .ofLength (label.span.stop - 1) 1

section Nodes

variable {n : Nat} {passed : List Span} {ahead : List Token}

theorem operatorNode_spread {left right : Node} {operator : Token}
    (laid : Laid n (right.range :: operator.span :: left.range :: passed) ahead)
    (left_neat : left.Neat n) (right_neat : right.Neat n) :
    Spread n passed [operatorNode left operator right] ahead := by
  have run : Laid n ([right.range, operator.span, left.range] ++ passed) ahead := laid
  have neat : ∀ child ∈ [left, right], child.Neat n := by simpa using ⟨left_neat, right_neat⟩
  have among : [right.range, left.range].Sublist [right.range, operator.span, left.range] := by
    simp
  unfold operatorNode
  split
  · exact run.located _ [left, right] rfl rfl (by simp) rfl neat among
  · exact run.located _ [left, right] rfl rfl (by simp) rfl neat among
  · exact run.located _ [left, right] rfl rfl (by simp) rfl neat among

theorem sequence_spread {body : List Node} (spread : Spread n passed body ahead) :
    Spread n passed (sequence body).toList ahead := by
  match body with
  | [] | [_] => exact spread
  | first :: second :: more =>
    refine spread.laid.located _ _ ?_ ?_ (by simp) Node.filterMap_node?_map spread.neat (.refl _)
    · simp
    · rw [List.head?_reverse, List.getLast?_map, List.getLast?_cons_cons,
        List.getLast?_eq_some_getLast (by simp)]
      rfl

/-- The dot and the selector of a call are read. -/
theorem Laid.selector {receiver : Option Node} {dot : Option Token} {selector : Token}
    (laid : Laid n ((receiver.toList.map Node.range).reverse ++ passed)
      (dot.toList ++ selector :: ahead)) :
    Laid n (selector.span :: (dot.toList.map Token.span ++
      (receiver.toList.map Node.range ++ passed))) ahead := by
  have same : (receiver.toList.map Node.range).reverse = receiver.toList.map Node.range := by
    cases receiver <;> rfl
  rw [same] at laid
  cases dot with
  | none => exact laid.read
  | some dot => exact laid.read.read

/-- A call. Its selector comes after the receiver and the dot, and the arguments come after it. -/
theorem recordedCall_spread {context : Flags} {receiver : Option Node} {dot : Option Token}
    {selector : Token} {actuals : Actuals} (dotted : receiver = none → dot = none)
    (laid : Laid n (actuals.pieces.reverse ++ selector.span :: (dot.toList.map Token.span ++
      (receiver.toList.map Node.range ++ passed))) ahead)
    (last_eq : actuals.last = actuals.pieces.getLast?)
    (receiver_neat : ∀ node ∈ receiver, node.Neat n) (neat : ∀ node ∈ actuals.nodes, node.Neat n) :
    Spread n passed [recordedCall context receiver dot selector actuals] ahead := by
  rw [recordedCall_eq]
  have run : Laid n ((actuals.pieces.reverse ++ selector.span ::
      (dot.toList.map Token.span ++ receiver.toList.map Node.range)) ++ passed) ahead := by
    simpa using laid
  refine run.located _ (receiver.toList ++ actuals.nodes) ?_ ?_ ?_ ?_ ?_ ?_
  · cases receiver with
    | none => simp [dotted rfl]
    | some receiver => simp [List.getLast?_append, List.getLast?_cons]
  · rw [last_eq, List.head?_append, List.head?_reverse]
    cases actuals.pieces.getLast? <;> rfl
  · obtain ⟨nodes, parens, last⟩ := actuals
    cases dot <;> cases parens <;> simp [Actuals.pieces]
  · simp
  · intro child mem
    obtain at_receiver | argument := List.mem_append.1 mem
    · exact receiver_neat child (Option.mem_toList.1 at_receiver)
    · exact neat child argument
  · rw [List.map_append, List.reverse_append]
    refine .append ?_ ?_
    · exact ((List.sublist_append_right _ _).trans (List.sublist_append_left _ _)).reverse
    · refine .cons _ (.trans ?_ (List.sublist_append_right _ _))
      cases receiver <;> simp

/-- What ends with statements and a last token, with `inner` for what has been read between the
first piece and the statements, and `nodes` for the other children. -/
theorem Spread.bodied {kind : NodeKind} {children : List Child}
    {fields : List (String × Option Span)} {body : List Node} {first : Span} {last : Token}
    {close : TokenKind} {s : ParseState} (inner : List Span) (nodes : List Node)
    (spread : Spread n (inner ++ first :: passed) body s.rest) (closer : s.Next close last ahead)
    (marks : ∀ field ∈ fields, ∀ span ∈ field.2, span = last.span ∨ span ∈ inner ++ [first])
    (parts : children.filterMap Child.node? = nodes ++ (sequence body).toList)
    (nested : ∀ node ∈ nodes, node.Every (Node.Nested n))
    (among : (nodes.filterMap Node.range?).reverse.Sublist (inner ++ [first])) :
    Spread n passed [.located kind children (some (first.join last.span)) fields] ahead := by
  have whole := sequence_spread spread
  have run : Laid n (last.span :: ((sequence body).toList.map Node.range).reverse ++
      (inner ++ [first]) ++ passed) ahead := by
    simpa using closer.laid whole.laid
  refine run.ranged _ (nodes ++ (sequence body).toList) ?_ rfl ?_ parts ?_ ?_
  · rw [← List.append_assoc]
    exact List.getLast?_concat
  · intro field mem span present
    obtain rfl | piece := marks field mem span present
    · exact .head _
    · exact List.mem_append_right _ piece
  · intro child mem
    obtain other | statement := List.mem_append.1 mem
    · exact nested child other
    · exact (whole.neat child statement).nested
  · rw [List.filterMap_append, List.reverse_append, Node.filterMap_range? whole.neat]
    exact .append (List.sublist_cons_self _ _) among

/-- A block or a lambda literal, with `inner` for what stands between the target and the body. -/
theorem closureNode_spread {target parameters : Node} {numbering : Option Numbering}
    {body : List Node} {first last : Token} {close : TokenKind} {s : ParseState}
    (inner : List Span) (spread : Spread n (inner ++ target.range :: passed) body s.rest)
    (closer : s.Next close last ahead) (opener : first.span ∈ inner) (target_neat : target.Neat n)
    (nested : parameters.Every (Node.Nested n))
    (among : parameters.range?.toList.Sublist inner) :
    Spread n passed
      [closureNode target parameters numbering body (target.range.join last.span) first last]
      ahead := by
  have marks : ∀ field ∈ [("begin", some first.span), ("end", some last.span)],
      ∀ span ∈ field.2, span = last.span ∨ span ∈ inner ++ [target.range] := by
    simp [opener]
  have target_range : [target].filterMap Node.range? = [target.range] := by
    simp [target_neat.range?_eq]
  unfold closureNode
  dsimp only
  split
  · refine Spread.bodied inner [target] spread closer marks ?_ ?_ ?_
    · cases sequence body <;> rfl
    · exact List.forall_mem_singleton.2 target_neat.nested
    · rw [target_range]
      exact List.sublist_append_right _ _
  · refine Spread.bodied inner [target, parameters] spread closer marks ?_ ?_ ?_
    · simp
    · exact List.forall_mem_cons.2 ⟨target_neat.nested, List.forall_mem_singleton.2 nested⟩
    · have ranges : ([target, parameters].filterMap Node.range?).reverse =
          parameters.range?.toList ++ [target.range] := by
        cases written : parameters.range? <;> simp [target_neat.range?_eq, written]
      rw [ranges]
      exact .append among (.refl _)

/-- A label that is read is a key and the colon after it. -/
theorem Laid.label {label : Token} (laid : Laid n passed (label :: ahead)) :
    Laid n (colonSpan label :: keySpan label :: passed) ahead := by
  obtain ⟨exact, read⟩ := Laid.cons_iff.1 laid
  have positive := exact.start_lt_stop
  refine read.split ⟨Nat.le_refl _, ?_⟩ exact.last_within ?_
  · simp only [keySpan, Span.ofLength, Span.length]
    omega
  · simp only [Span.Before, colonSpan, keySpan, Span.ofLength, Span.length]
    omega

/-- A key and a pattern for its value; the colon of the label stands between them. -/
theorem pairNode_spread {label : Token} {value : Node} (exact : label.Exact)
    (laid : Laid n (value.range :: colonSpan label :: keySpan label :: passed) ahead)
    (neat : value.Neat n) : Spread n passed [pairNode label value] ahead := by
  have run : Laid n ([value.range, colonSpan label, keySpan label] ++ passed) ahead := laid
  -- The range is built from the whole label; what it has beyond the key ends before the value.
  have whole : label.span.join value.range = (keySpan label).join value.range := by
    have positive := exact.start_lt_stop
    have after : (colonSpan label).stop ≤ value.range.start :=
      (List.pairwise_cons.1 run.passed_in_order).1 _ (.head _)
    have value_ordered := value.range.ordered
    simp only [colonSpan, Span.ofLength] at after
    simp only [Span.join, keySpan, Span.ofLength, Span.length, Span.mk.injEq, true_and]
    omega
  have key : ∀ node ∈ [Node.located .sym [.sym (keyOf label)] (some (keySpan label))
      [("begin", none)]], node.Neat n := by
    have read : Laid n (keySpan label :: passed) ahead := laid.of_sublist (by simp) List.suffix_rfl
    exact (read.leaf (by simp) rfl).neat
  unfold pairNode
  rw [whole]
  refine run.located _ [_, value] rfl rfl (by simp [colonSpan]) rfl ?_ (by simp)
  exact List.forall_mem_cons.2 ⟨key _ (.head _), List.forall_mem_singleton.2 neat⟩

theorem signNode_spread {selector : String} {sign : Token} {operand : Node}
    (spread : Spread n (sign.span :: passed) [operand] ahead) :
    Spread n passed [signNode selector sign operand] ahead :=
  Laid.located [operand.range, sign.span] [operand] spread.laid rfl rfl (by simp) rfl spread.neat
    (by simp)

theorem sequence_eq_none {body : List Node} : sequence body = none ↔ body = [] := by
  match body with
  | [] | [_] | _ :: _ :: _ => simp [Grammar.sequence]

/-- What reaches up to the last statement covers all of them. -/
theorem join_sequence {start absent : Span} {middle : List Span} {body : List Node} {node : Node}
    (laid : Laid n ((body.map Node.range).reverse ++ (middle ++ start :: passed)) ahead)
    (whole : sequence body = some node) :
    start.join ((body.getLast?.map Node.range).getD absent) = start.join node.range := by
  match body with
  | [] => cases whole
  | [_] =>
    cases whole
    rfl
  | first :: second :: more =>
    have run : Laid n (((first :: second :: more).map Node.range).reverse ++ (middle ++ [start]) ++
        passed) ahead := by simpa using laid
    obtain ⟨statements, -, across⟩ := List.pairwise_append.1 run.passed_in_order
    rw [List.pairwise_reverse] at statements
    have starts_before : start.Before first.range := across _ (by simp) _ (by simp)
    have first_before : first.range.Before ((second :: more).getLast (by simp)).range :=
      (List.pairwise_cons.1 statements).1 _ (List.mem_map_of_mem (List.getLast_mem _))
    cases whole
    rw [List.getLast?_cons_cons, List.getLast?_eq_some_getLast (by simp)]
    exact (Span.join_join_of_before starts_before first_before).symm

theorem clauseNode_spread {keyword : Token} {pattern : Node} {opener : Option Token}
    {body : List Node} (pattern_neat : pattern.Neat n)
    (spread : Spread n (opener.toList.map Token.span ++ [pattern.range] ++ keyword.span :: passed)
      body ahead) :
    Spread n passed [clauseNode keyword pattern opener body] ahead := by
  have marks {after : List Span} : ∀ field ∈
      [("keyword", some keyword.span), ("begin", opener.map Token.span)], ∀ span ∈ field.2,
      span ∈ after ++ (opener.toList.map Token.span ++ [pattern.range, keyword.span]) := by
    cases opener <;> simp
  have body_spread := sequence_spread spread
  unfold clauseNode
  dsimp only
  cases whole : sequence body with
  | none =>
    obtain rfl := sequence_eq_none.1 whole
    have run : Laid n ([] ++ (opener.toList.map Token.span ++ [pattern.range, keyword.span]) ++
        passed) ahead := by simpa using spread.laid
    refine run.located _ [pattern] ?_ ?_ marks rfl (List.forall_mem_singleton.2 pattern_neat) ?_
    · cases opener <;> rfl
    · cases opener <;> rfl
    · simp
  | some node =>
    rw [whole] at body_spread
    rw [join_sequence spread.laid whole]
    have run : Laid n ([node.range] ++ (opener.toList.map Token.span ++
        [pattern.range, keyword.span]) ++ passed) ahead := by simpa using body_spread.laid
    have neat : ∀ child ∈ [pattern, node], child.Neat n :=
      List.forall_mem_cons.2 ⟨pattern_neat, body_spread.neat⟩
    refine run.located _ [pattern, node] ?_ rfl marks rfl neat ?_
    · cases opener <;> rfl
    · simp

theorem caseNode_spread {keyword last : Token} {subject : Node} {clauses otherwise : List Node}
    {alternative : Option Token} {close : TokenKind} {s : ParseState}
    (subject_neat : subject.Neat n) (clauses_neat : ∀ node ∈ clauses, node.Neat n)
    (spread : Spread n (alternative.toList.map Token.span ++ ((clauses.map Node.range).reverse ++
      subject.range :: keyword.span :: passed)) otherwise s.rest)
    (closer : s.Next close last ahead) :
    Spread n passed [caseNode keyword subject clauses alternative otherwise last] ahead := by
  have neat : ∀ node ∈ subject :: clauses, node.Neat n :=
    List.forall_mem_cons.2 ⟨subject_neat, clauses_neat⟩
  refine Spread.bodied (alternative.toList.map Token.span ++ ((clauses.map Node.range).reverse ++
    [subject.range])) (subject :: clauses) (by simpa using spread) closer ?_ ?_ ?_ ?_
  · cases alternative <;> simp
  · simp
  · exact fun node mem => (neat node mem).nested
  · rw [Node.filterMap_range? neat, List.map_cons, List.reverse_cons]
    exact (List.sublist_append_right _ _).trans (List.sublist_append_left _ _)

theorem assignment_spread {name sign : Token} {value : Node}
    (spread : Spread n (sign.span :: name.span :: passed) [value] ahead) :
    Spread n passed [.located .lvasgn [.sym name.text, .node value]
      (some (name.span.join value.range))
      [("name", some name.span), ("operator", some sign.span)]] ahead :=
  Laid.located [value.range, sign.span, name.span] [value] spread.laid rfl rfl (by simp) rfl
    spread.neat (by simp)

theorem negative_spread {sign digits : Token} {number : Child} (literal : number.node? = none)
    (laid : Laid n (digits.span :: sign.span :: passed) ahead) :
    Spread n passed [.located .int [number] (some (sign.span.join digits.span))
      [("operator", some sign.span)]] ahead :=
  Laid.located [digits.span, sign.span] [] laid rfl rfl (by simp) (by simp [literal]) nofun
    (List.nil_sublist _)

/-- A word or a sign, and the operand after it. -/
theorem operand_spread {kind : NodeKind} {first : Token} {operand : Node}
    {fields : List (String × Option Span)}
    (spread : Spread n (first.span :: passed) [operand] ahead)
    (marks : ∀ field ∈ fields, ∀ span ∈ field.2, span = first.span) :
    Spread n passed [.located kind [.node operand] (some (first.span.join operand.range)) fields]
      ahead := by
  refine Laid.located [operand.range, first.span] [operand] spread.laid rfl rfl ?_ rfl spread.neat
    (by simp)
  intro field mem span present
  simp [marks field mem span present]

theorem definedParens_spread {keyword first last : Token} {operand : Node}
    (neat : operand.Neat n)
    (laid : Laid n (last.span :: operand.range :: first.span :: keyword.span :: passed) ahead) :
    Spread n passed [.located .definedCheck [.node operand] (some (keyword.span.join last.span))
      [("keyword", some keyword.span), ("begin", some first.span), ("end", some last.span)]]
      ahead :=
  Laid.located [last.span, operand.range, first.span, keyword.span] [operand] laid rfl rfl
    (by simp) rfl (List.forall_mem_singleton.2 neat) (by simp)

theorem whileLoop_spread {keyword last : Token} {opener : Option Token} {condition : Node}
    {body : List Node} {close : TokenKind} {s : ParseState} (neat : condition.Neat n)
    (spread : Spread n (opener.toList.map Token.span ++ condition.range :: keyword.span :: passed)
      body s.rest)
    (closer : s.Next close last ahead) :
    Spread n passed [.located .whileLoop [.node condition, .ofOption (sequence body)]
      (some (keyword.span.join last.span))
      [("keyword", some keyword.span), ("begin", opener.map Token.span),
        ("end", some last.span)]] ahead := by
  refine Spread.bodied (opener.toList.map Token.span ++ [condition.range]) [condition]
    (by simpa using spread) closer ?_ (by simp) (List.forall_mem_singleton.2 neat.nested)
    (by simp [neat.range?_eq])
  cases opener <;> simp

theorem method_spread {keyword name last : Token} {parameters : Node} {body : List Node}
    {close : TokenKind} {s : ParseState} (nested : parameters.Every (Node.Nested n))
    (spread : Spread n (parameters.range?.toList ++ name.span :: keyword.span :: passed) body
      s.rest)
    (closer : s.Next close last ahead) :
    Spread n passed [.located .method
      [.sym name.text, .node parameters, .ofOption (sequence body)]
      (some (keyword.span.join last.span))
      [("keyword", some keyword.span), ("name", some name.span), ("end", some last.span)]]
      ahead := by
  refine Spread.bodied (parameters.range?.toList ++ [name.span]) [parameters]
    (by simpa using spread) closer (by simp) (by simp) (List.forall_mem_singleton.2 nested) ?_
  cases written : parameters.range? <;> simp [written]

theorem classDefinition_spread {keyword name last : Token} {body : List Node}
    {close : TokenKind} {s : ParseState} (neat : (constantNode name).Neat n)
    (spread : Spread n (name.span :: keyword.span :: passed) body s.rest)
    (closer : s.Next close last ahead) :
    Spread n passed [.located .classDef
      [.node (constantNode name), .nil, .ofOption (sequence body)]
      (some (keyword.span.join last.span))
      [("keyword", some keyword.span), ("end", some last.span)]] ahead :=
  Spread.bodied [name.span] [constantNode name] spread closer (by simp) (by simp)
    (List.forall_mem_singleton.2 neat.nested) (List.sublist_append_left [name.span] _)

/-- A list of parameters, which has been passed if it is written. -/
structure Written (n : Nat) (passed : List Span) (parameters : Node) (ahead : List Token) :
    Prop where
  laid : Laid n (parameters.range?.toList ++ passed) ahead
  nested : parameters.Every (Node.Nested n)

theorem Spread.written {parameters : Node} (spread : Spread n passed [parameters] ahead) :
    Written n passed parameters ahead := by
  have neat := spread.neat parameters (.head _)
  refine ⟨?_, neat.nested⟩
  rw [neat.range?_eq]
  exact spread.laid

theorem noParametersNode_written (laid : Laid n passed ahead) :
    Written n passed noParametersNode ahead := by
  refine ⟨laid, .intro ⟨fun _ => ⟨rfl, rfl⟩, ?_, nofun, .nil⟩ nofun⟩
  rintro _ ⟨⟩ field mem span present
  simp only [List.mem_cons, List.not_mem_nil, or_false] at mem
  obtain rfl | rfl | rfl := mem <;> cases present

theorem Grammar.Names.spread {close : TokenKind} {seen : List String} {nodes : List Node}
    {s t : ParseState} (h : Names close seen s nodes t) (laid : Laid n passed s.rest) :
    Spread n passed nodes t.rest := by
  induction h generalizing passed with
  | none => exact spread_nil.2 laid
  | last name _ _ => exact (name.laid laid).leaf (by simp) rfl
  | more name _ comma _ ih =>
    have parameter : Spread n passed [parameterNode _] _ := (name.laid laid).leaf (by simp) rfl
    exact parameter.cons (ih ((name.laid laid).past comma.past))

theorem Grammar.ParameterList.spread {close : TokenKind} {nodes : List Node} {s t : ParseState}
    (h : ParameterList close s nodes t) (laid : Laid n passed s.rest) :
    Spread n passed nodes t.rest := by
  cases h with
  | intro names => exact names.spread laid

theorem Grammar.BlockParameters.written {parameters : Node × Bool} {s t : ParseState}
    (h : BlockParameters s parameters t) (laid : Laid n passed s.rest) :
    Written n passed parameters.1 t.rest := by
  cases h with
  | @bars bars r next =>
    -- One token is the opening and the closing bar of the list.
    have length := (next.exact laid).stop_bars next.kind_eq
    have halves : Laid n ([.ofLength (bars.span.start + 1) 1, .ofLength bars.span.start 1] ++
        passed) r := by
      refine (next.laid laid).split ⟨?_, ?_⟩ ⟨?_, ?_⟩ ?_ <;>
        simp [Span.ofLength, Span.Before, length]
    have spread : Spread n passed [.located .args [] (some ((Span.ofLength bars.span.start 1).join
        (.ofLength (bars.span.start + 1) 1))) [("begin", some (.ofLength bars.span.start 1)),
          ("end", some (.ofLength (bars.span.start + 1) 1))]] r :=
      halves.located _ [] rfl rfl (by simp) rfl (List.forall_mem_nil _) (List.nil_sublist _)
    rw [← Span.eq_join_of_stop length] at spread
    exact spread.written
  | none => exact noParametersNode_written laid
  | list first list last =>
    have names := list.spread (first.laid laid)
    exact (Spread.bracketed (last.laid names.laid) names.neat).written

theorem Grammar.ParenthesizedParameters.written {parameters : Node × Bool} {s t : ParseState}
    (h : ParenthesizedParameters s parameters t) (laid : Laid n passed s.rest) :
    Written n passed parameters.1 t.rest := by
  cases h with
  | none => exact noParametersNode_written laid
  | list first list last =>
    have names := list.spread (first.laid laid)
    exact (Spread.bracketed (last.laid names.laid) names.neat).written

end Nodes

/-! ### Phrases -/

namespace Grammar

/-- What a phrase goes on from has been passed, except for the dot and the selector of a call and
for a label. -/
def Phrase.Begins (n : Nat) (passed : List Span) (ahead : List Token) : Phrase → Prop
  | .of (.operatorsAfter _ node) | .of (.callsAfter node) | .blockAfter node =>
    Spread n passed [node] ahead
  | .call receiver dot selector =>
    (receiver = none → dot = none) ∧
      Spread n passed receiver.toList (dot.toList ++ selector :: ahead)
  | .entry label => Laid n passed (label :: ahead)
  | _ => Laid n passed ahead

/-- The nodes that a phrase stands for are spread from `passed` up to the tokens `ahead`, and so are
the pieces of what follows a selector. -/
def Phrase.Spreads (n : Nat) (passed : List Span) (ahead : List Token) :
    (phrase : Phrase) → phrase.Result → Prop
  | .of (.statements _), nodes | .of (.arguments _), nodes | .of .entries, nodes
  | .of .clauses, nodes => Spread n passed nodes ahead
  | .of .expression, node | .of (.operators _), node | .of (.operatorsAfter _ _), node
  | .of .unary, node | .of (.callsAfter _), node | .of .pattern, node | .primary, node
  | .call _ _ _, node | .blockAfter _, node | .argument _, node | .entry _, node
  | .clause, node => Spread n passed [node] ahead
  | .actuals, given =>
    Laid n (given.pieces.reverse ++ passed) ahead ∧ given.last = given.pieces.getLast? ∧
      ∀ node ∈ given.nodes, node.Neat n

variable {features : Features} {s t : ParseState} {n : Nat}

theorem Derives.spreads {phrase : Phrase} {value : phrase.Result} {passed : List Span}
    (h : Derives features phrase s value t) (given : phrase.Begins n passed s.rest) :
    phrase.Spreads n passed t.rest value := by
  -- What a phrase starts behind differs from one premise of a rule to the next.
  induction h generalizing passed with
  | noStatements => exact spread_nil.2 (Laid.past given (past_terminators _))
  | lastStatement _ _ _ _ ih => exact ih (Laid.past given (past_terminators _))
  | moreStatements _ _ _ _ ih1 ih2 =>
    have first := ih1 (Laid.past given (past_terminators _))
    exact first.cons (ih2 first.laid)
  | assignment name operator _ ih =>
    exact assignment_spread (ih ((operator.laid (name.laid given)).past (past_newlines _)))
  | unassigned _ _ ih | plainArgument _ _ ih | valuePattern _ _ ih | lastArgument _ _ ih =>
    exact ih given
  | operators _ _ ih1 ih2 | chain _ _ _ _ ih1 ih2 => exact ih2 (ih1 given)
  | noOperator | noCall | noBlock => exact given
  | operator _ _ operator _ _ ih1 ih2 =>
    have right := ih1 ((operator.laid given.laid).past (past_newlines _))
    exact ih2 (operatorNode_spread right.laid (given.neat _ (.head _)) (right.neat _ (.head _)))
  | negative sign digits _ value =>
    exact negative_spread (Child.node?_integer? value) (digits.laid (sign.laid given))
  | minus sign _ _ ih | bang sign _ ih => exact signNode_spread (ih (sign.laid given))
  | integer next value =>
    exact (next.laid given).leaf (by simp) (by simp [Child.node?_integer? value])
  | string next =>
    have exact := next.exact given
    exact (next.laid given).leaf (by simp [exact.first_within, exact.last_within]) rfl
  | symbol next =>
    have exact := next.exact given
    exact (next.laid given).leaf (by simp [exact.first_within]) rfl
  | keyword _ next | constant next | numberedVariable next | localVariable next
  | variablePattern next => exact (next.laid given).leaf (by simp) rfl
  | adjacentCall next _ _ ih | wordCall next _ _ _ _ ih =>
    exact ih ⟨fun _ => rfl, spread_nil.2 (next.ahead given)⟩
  | parenthesized first _ last ih =>
    have body := ih (first.laid given)
    exact Spread.bracketed (last.laid body.laid) body.neat
  | @lambda _ _ _ arrow first _ _ _ _ _ _ parameters _ _ next written _ opener _ closer ih =>
    have list := written.written (next.laid given)
    have target : Spread n passed [leaf .lambda arrow] _ := (next.laid given).leaf (by simp) rfl
    exact closureNode_spread (first.span :: parameters.1.range?.toList)
      (ih (opener.laid list.laid)) closer (.head _) (target.neat _ (.head _)) list.nested
      (List.sublist_cons_self _ _)
  | method keyword name parameters _ last ih =>
    have list := parameters.written (name.laid (keyword.laid given))
    exact method_spread list.nested (ih list.laid) last
  | @classDefinition _ _ _ name _ _ _ _ _ keyword _ named _ last ih =>
    have constant : Spread n _ [constantNode name] _ :=
      (named.laid (keyword.laid given)).leaf (by simp) rfl
    exact classDefinition_spread (constant.neat _ (.head _)) (ih constant.laid) last
  | whileLoop keyword _ opener _ _ last ih1 ih2 =>
    have condition := ih1 (keyword.laid given)
    exact whileLoop_spread (condition.neat _ (.head _)) (ih2 (opener.laid condition.laid)) last
  | definedWord keyword _ _ ih => exact operand_spread (ih (keyword.laid given)) (by simp)
  | definedParens keyword first _ last ih =>
    have operand := ih ((first.laid (keyword.laid given)).past (past_newlines _))
    exact definedParens_spread (operand.neat _ (.head _))
      (last.laid (operand.laid.past (past_newlines _)))
  | caseMatch _ keyword _ _ _ last ih1 ih2 =>
    have subject := ih1 (keyword.laid given)
    have clauses := ih2 (subject.laid.past (past_terminators _))
    exact caseNode_spread (subject.neat _ (.head _)) clauses.neat (spread_nil.2 clauses.laid) last
  | caseElse _ keyword _ _ _ alternative _ last ih1 ih2 ih3 =>
    have subject := ih1 (keyword.laid given)
    have clauses := ih2 (subject.laid.past (past_terminators _))
    exact caseNode_spread (subject.neat _ (.head _)) clauses.neat
      (ih3 (alternative.laid clauses.laid)) last
  | @dotCall _ _ _ _ selector r1 r2 _ _ _ dot second _ _ ih1 ih2 =>
    have ahead := dot.ahead given.laid
    obtain rfl : r1 = selector :: r2 := second.eq
    exact ih2 (ih1 ⟨nofun, ahead, given.neat⟩)
  | call _ _ ih1 ih2 =>
    obtain ⟨dotted, spread⟩ := given
    obtain ⟨laid, last_eq, neat⟩ := ih1 (Laid.selector spread.laid)
    exact ih2 (recordedCall_spread dotted laid last_eq
      (fun node mem => spread.neat node (Option.mem_toList.2 mem)) neat)
  | emptyParens first _ last =>
    have laid := last.laid ((first.laid given).past (past_newlines _))
    exact ⟨laid, rfl, nofun⟩
  | parens first _ _ _ last ih =>
    have nodes := ih ((first.laid given).past (past_newlines _))
    have laid := last.laid (nodes.laid.past (past_newlines _))
    exact ⟨by simpa [Actuals.pieces] using laid, List.getLast?_concat.symm, nodes.neat⟩
  | commandArguments _ _ _ ih =>
    have nodes := ih given
    refine ⟨?_, ?_, nodes.neat⟩
    · simpa [Actuals.pieces] using nodes.laid
    · simp [Actuals.pieces]
  | noActuals => exact ⟨given, rfl, nofun⟩
  | moreArguments _ comma _ ih1 ih2 =>
    have first := ih1 given
    exact first.cons (ih2 ((first.laid.past comma.past).past (past_newlines _)))
  | @signedArgument first _ _ _ _ _ _ _ _ next _ ih =>
    cases first with
    | true | false => exact operand_spread (ih (next.laid given)) (by simp)
  | @block _ _ _ _ _ first _ _ _ parameters _ _ read written _ closer ih =>
    have opener : ParseState.Next _ first.kind first _ := ⟨read, rfl⟩
    have list := written.written (opener.laid given.laid)
    refine closureNode_spread (parameters.1.range?.toList ++ [first.span]) ?_ closer (by simp)
      (given.neat _ (.head _)) list.nested (List.sublist_append_left _ _)
    rw [List.append_assoc]
    exact ih list.laid
  | hashPattern first _ last ih =>
    have entries := ih ((first.laid given).past (past_newlines _))
    exact Spread.bracketed (last.laid (entries.laid.past (past_newlines _))) entries.neat
  | noEntries | noClauses => exact spread_nil.2 given
  | lastEntry label _ _ ih => exact ih (label.ahead given)
  | moreEntries label _ comma _ ih1 ih2 =>
    have first := ih1 (label.ahead given)
    exact first.cons (ih2 ((first.laid.past comma.past).past (past_newlines _)))
  | bareEntry =>
    -- The colon is passed, but the node is the key alone.
    have parts := Laid.label given
    exact (parts.of_sublist (.cons _ (.refl _)) List.suffix_rfl).leaf (by simp) rfl
  | pairEntry _ _ _ ih =>
    have value := ih (Laid.label given)
    exact pairNode_spread (Laid.cons_iff.1 given).1 value.laid (value.neat _ (.head _))
  | moreClauses _ _ ih1 ih2 =>
    have first := ih1 given
    exact first.cons (ih2 first.laid)
  | clause keyword _ same opener _ _ ih1 ih2 =>
    subst same
    have pattern := ih1 (keyword.laid given)
    refine clauseNode_spread (pattern.neat _ (.head _)) ?_
    rw [List.append_assoc]
    exact ih2 (opener.laid pattern.laid)

end Grammar

/-- In the tree for an accepted source the ranges of every node are in the source and within the
range of the node as a whole, which its children divide from left to right. -/
theorem Parser.locations_nested {parser : Parser} {source : String} {tree : Node}
    (accepted : (parser.parse source).1 = .ok (some tree)) :
    tree.Every (Node.Nested source.toList.length) := by
  obtain ⟨tokens, body, after, tokenized, derived, root, -⟩ := Parser.program_of_accepted accepted
  have statements : Spread source.toList.length [] body after.rest :=
    Derives.spreads derived (placed_laid tokenized)
  have whole := (sequence_spread statements).neat tree (by simp [← root])
  exact whole.nested

/-- The block of a call has no list of parameters here, and so one child without a range. -/
theorem Parser.locations_nested_block :
    let source := "a.b(1) do 2 end"
    ∃ tree, (Parser.newest.parse source).1 = .ok (some tree) ∧
      tree.children.map Node.range? = [some (.ofLength 0 6), none, some (.ofLength 10 1)] ∧
      tree.Every (Node.Nested source.toList.length) := by
  intro source
  have found : (Parser.newest.parse source).1.toOption.join.any (fun tree =>
      tree.children.map Node.range? == [some (.ofLength 0 6), none, some (.ofLength 10 1)]) := by
    decide +kernel
  obtain ⟨tree, accepted, ranges⟩ := Parser.accepted_of_any found
  exact ⟨tree, accepted, beq_iff_eq.1 ranges, Parser.locations_nested accepted⟩

end Conformance.Dialect
