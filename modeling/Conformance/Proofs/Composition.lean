import Conformance.Proofs.Attachment
import Conformance.Proofs.Idle
import Conformance.Proofs.Junction
import Conformance.Proofs.Portability
import Conformance.Proofs.Resolution
import Conformance.Proofs.Sound
import Conformance.Proofs.Succession

/-! Programs one line after the other. A program that names no variable leaves the books as they
were, so that what follows on a line of its own is read as a program by itself. -/

namespace Conformance.Dialect

/-! ### Trees that name no variable -/

namespace Node

/-- No variable is assigned in a tree, and none is bound by a pattern in it. -/
def NamesNothing (node : Node) : Prop :=
  node.Every fun below => below.kind ≠ .lvasgn ∧ below.kind ≠ .matchVar

variable {kind : NodeKind} {children : List Child} {location : Option Location}
  {context : Option Flags}

theorem NamesNothing.child {child : Node}
    (h : (mk kind children location context).NamesNothing) (mem : .node child ∈ children) :
    child.NamesNothing := (every_iff.1 h).2 _ mem child rfl

theorem not_namesNothing (names : kind = .lvasgn ∨ kind = .matchVar) :
    ¬ (mk kind children location context).NamesNothing := by
  intro h
  obtain ⟨unassigned, unbound⟩ := (every_iff.1 h).1
  exact names.elim unassigned unbound

end Node

namespace Grammar

open Node

section Nodes

variable {body : List Node} {target parameters : Node}

theorem namesNothing_sequence (h : ∀ node ∈ sequence body, node.NamesNothing) :
    ∀ node ∈ body, node.NamesNothing := by
  match body with
  | [] => exact nofun
  | [node] => exact List.forall_mem_singleton.2 (h node rfl)
  | first :: second :: more =>
    exact fun node mem => (h _ rfl).child (List.mem_map_of_mem mem)

theorem namesNothing_ofOption {kind : NodeKind} {children : List Child}
    {location : Option Location} {context : Option Flags}
    (h : (mk kind children location context).NamesNothing)
    (mem : .ofOption (sequence body) ∈ children) : ∀ node ∈ body, node.NamesNothing := by
  refine namesNothing_sequence fun node found => ?_
  rw [Option.mem_def.1 found] at mem
  exact h.child mem

theorem namesNothing_operatorNode {left right : Node} {operator : Token}
    (h : (operatorNode left operator right).NamesNothing) :
    left.NamesNothing ∧ right.NamesNothing := by
  unfold operatorNode at h
  split at h
  all_goals exact ⟨h.child (by simp), h.child (by simp)⟩

theorem namesNothing_recordedCall {context : Flags} {receiver : Option Node} {dot : Option Token}
    {selector : Token} {actuals : Actuals}
    (h : (recordedCall context receiver dot selector actuals).NamesNothing) :
    (∀ node ∈ receiver, node.NamesNothing) ∧ ∀ node ∈ actuals.nodes, node.NamesNothing := by
  rw [recordedCall_eq] at h
  refine ⟨fun node mem => h.child ?_, fun node mem => h.child (by simp [mem])⟩
  rw [Option.mem_def.1 mem]
  exact .head _

theorem namesNothing_closureNode {numbering : Option Numbering} {whole : Span} {first last : Token}
    (h : (closureNode target parameters numbering body whole first last).NamesNothing) :
    target.NamesNothing := by
  unfold closureNode at h
  dsimp only at h
  split at h
  all_goals exact h.child (.head _)

end Nodes

/-! ### What a phrase leaves of the books -/

variable {features : Features} {phrase : Phrase} {value : phrase.Result} {s t : ParseState}

/-- Without variables the scopes stay as they were. -/
theorem Derives.scopes_eq (h : Derives features phrase s value t)
    (nothing : ∀ node ∈ phrase.nodes value, node.NamesNothing) :
    (∀ node ∈ phrase.given, node.NamesNothing) ∧ t.book.scopes = s.book.scopes := by
  induction h with
  | noStatements | negative | integer | string | symbol | keyword | constant | localVariable
  | emptyParens | noActuals | noEntries | noClauses => exact ⟨nofun, rfl⟩
  | noOperator | noCall | noBlock => exact ⟨nothing, rfl⟩
  | lastStatement _ _ _ _ ih | unassigned _ _ ih | adjacentCall _ _ _ ih
  | wordCall _ _ _ _ _ ih | parens _ _ _ _ _ ih | commandArguments _ _ _ ih
  | lastArgument _ _ ih | plainArgument _ _ ih | valuePattern _ _ ih | lastEntry _ _ _ ih =>
    exact ⟨nofun, (ih nothing).2⟩
  | moreStatements _ _ _ _ ih1 ih2 | moreArguments _ _ _ ih1 ih2 | moreEntries _ _ _ _ ih1 ih2
  | moreClauses _ _ ih1 ih2 =>
    obtain ⟨first, more⟩ := List.forall_mem_cons.1 nothing
    have first' := ih1 (List.forall_mem_singleton.2 first)
    exact ⟨nofun, (ih2 more).2.trans first'.2⟩
  | assignment =>
    exact absurd (nothing _ (.head _)) (not_namesNothing (.inl rfl))
  | variablePattern | bareEntry =>
    exact absurd (nothing _ (.head _)) (not_namesNothing (.inr rfl))
  | operators _ _ ih1 ih2 | chain _ _ _ _ ih1 ih2 =>
    obtain ⟨left, after⟩ := ih2 nothing
    exact ⟨nofun, after.trans (ih1 left).2⟩
  | operator _ _ _ _ _ ih1 ih2 =>
    obtain ⟨combined, after⟩ := ih2 nothing
    obtain ⟨left, right⟩ := namesNothing_operatorNode (combined _ (.head _))
    have right' := ih1 (List.forall_mem_singleton.2 right)
    exact ⟨List.forall_mem_singleton.2 left, after.trans right'.2⟩
  | dotCall _ _ _ _ ih1 ih2 =>
    obtain ⟨called, after⟩ := ih2 nothing
    obtain ⟨receiver, before⟩ := ih1 called
    exact ⟨by simpa [Phrase.given] using receiver, after.trans before⟩
  | call _ _ ih1 ih2 =>
    obtain ⟨target, after⟩ := ih2 nothing
    obtain ⟨receiver, actuals⟩ := namesNothing_recordedCall (target _ (.head _))
    exact ⟨by simpa [Phrase.given] using receiver, after.trans (ih1 actuals).2⟩
  | minus _ _ _ ih | bang _ _ ih | parenthesized _ _ _ ih | definedWord _ _ _ ih
  | definedParens _ _ _ _ ih | hashPattern _ _ _ ih | pairEntry _ _ _ ih =>
    have whole := nothing _ (.head _)
    exact ⟨nofun, (ih fun node mem => whole.child (by simp_all [Phrase.nodes])).2⟩
  | numberedVariable => exact ⟨nofun, Bookkeeping.scopes_useNumber _ _⟩
  | @signedArgument first _ _ _ _ _ _ _ _ _ _ ih =>
    have operand := (nothing _ (.head _)).child (.head _)
    have after := (ih (List.forall_mem_singleton.2 operand)).2
    cases first <;> exact ⟨nofun, after⟩
  | lambda _ _ parameters _ _ body =>
    have inside := body.frame_eq.trans (congrArg (Frame.numbered · _) parameters.frame_eq)
    exact ⟨nofun, Bookkeeping.tail_scopes_eq inside⟩
  | method _ _ parameters body =>
    have inside := body.frame_eq.trans parameters.frame_eq
    exact ⟨nofun, Bookkeeping.tail_scopes_eq inside⟩
  | classDefinition _ _ _ body => exact ⟨nofun, Bookkeeping.tail_scopes_eq body.frame_eq⟩
  | block _ _ parameters body =>
    have inside := body.frame_eq.trans (congrArg (Frame.numbered · _) parameters.frame_eq)
    have target := namesNothing_closureNode (nothing _ (.head _))
    exact ⟨List.forall_mem_singleton.2 target, Bookkeeping.tail_scopes_eq inside⟩
  | whileLoop _ _ _ _ _ _ ih1 ih2 =>
    have whole := nothing _ (.head _)
    have condition := ih1 (List.forall_mem_singleton.2 (whole.child (.head _)))
    have body := ih2 (namesNothing_ofOption whole (.tail _ (.head _)))
    exact ⟨nofun, body.2.trans condition.2⟩
  | caseMatch _ _ _ _ _ _ ih1 ih2 =>
    have whole := nothing _ (.head _)
    have subject := ih1 (List.forall_mem_singleton.2 (whole.child (.head _)))
    have clauses := ih2 fun node mem => whole.child (by simp_all [Phrase.nodes])
    exact ⟨nofun, clauses.2.trans subject.2⟩
  | caseElse _ _ _ _ _ _ _ _ ih1 ih2 ih3 =>
    have whole := nothing _ (.head _)
    have subject := ih1 (List.forall_mem_singleton.2 (whole.child (.head _)))
    have clauses := ih2 fun node mem => whole.child (by simp_all [Phrase.nodes])
    have otherwise := ih3 (namesNothing_ofOption whole (by simp [Phrase.nodes]))
    exact ⟨nofun, otherwise.2.trans (clauses.2.trans subject.2)⟩
  | clause _ _ same _ _ _ ih1 ih2 =>
    subst same
    have whole := nothing _ (.head _)
    have pattern := ih1 (List.forall_mem_singleton.2 (whole.child (.head _)))
    have body := ih2 (namesNothing_ofOption whole (by simp [Phrase.nodes]))
    exact ⟨nofun, body.2.trans pattern.2⟩

/-- A program that names no variable leaves the books as they were. -/
theorem Program.book_eq {tokens : List Token} {body : List Node} {after : ParseState}
    (h : Program features tokens body after) (nothing : ∀ node ∈ body, node.NamesNothing) :
    after.book = Bookkeeping.empty.openScope false := by
  have outline := Derives.outline_eq h
  have scopes := (Derives.scopes_eq h nothing).2
  generalize after.book = book at outline scopes ⊢
  obtain ⟨nesting, context, declared, numbering, parameters, bound, keys⟩ := book
  simp only [Bookkeeping.outline, Outline.mk.injEq] at outline
  obtain ⟨rfl, rfl, -, numbering', parameters', bound', keys'⟩ := outline
  obtain rfl := List.length_eq_zero_iff.1 numbering'
  obtain rfl := List.length_eq_zero_iff.1 parameters'
  obtain rfl := List.length_eq_zero_iff.1 bound'
  obtain rfl := List.length_eq_zero_iff.1 keys'
  exact congrArg (fun scopes => ({ scopes } : Bookkeeping)) scopes

/-! ### One program after the other -/

/-- What a list of statements is read as depends only on what follows the terminators before it. -/
theorem Derives.statements_of_pastTerminators {stops : List TokenKind} {body : List Node}
    {u : ParseState} (same : u.pastTerminators = s.pastTerminators)
    (h : Derives features (.of (.statements stops)) s body t) :
    Derives features (.of (.statements stops)) u body t := by
  cases h with
  | noStatements stop =>
    rw [← same] at stop ⊢
    exact .noStatements stop
  | lastStatement noStop node noBreak stop =>
    rw [← same] at noStop node
    exact .lastStatement noStop node noBreak stop
  | moreStatements noStop node breaks more =>
    rw [← same] at noStop node
    exact .moreStatements noStop node breaks more

/-- A list of statements that goes on to the end of the tokens, followed by others on a new line. -/
theorem Derives.followed {e : Surroundings} {body more : List Node} {u : ParseState}
    (h : Derives features (.of (.statements [])) s body t) (present : Present s.rest)
    (later : Derives features (.of (.statements [])) (t.amid e) more u) :
    Derives features (.of (.statements [])) (s.amid e)
      (body.map (Node.moved e.shift) ++ more) u := by
  induction body generalizing s with
  | nil =>
    cases h
    exact later.statements_of_pastTerminators
      ParseState.pastTerminators_amid_pastTerminators.symm
  | cons node rest ih =>
    cases h with
    | lastStatement _ _ noBreak stop =>
      exact absurd (fun kind here => nomatch stop kind here) noBreak
    | moreStatements noStop node breaks more =>
      have read := (past_terminators _).on node.past
      have node' := node.amid (e := e)
        ⟨trivial, trivial, trivial, present.of_past (past_terminators _)⟩
      have noStop' := ParseState.not_stops_amid (e := e) noStop
      rw [ParseState.amid_pastTerminators (Surroundings.apart_of_past node.past)] at node' noStop'
      exact .moreStatements noStop' node' breaks.amid (ih more (present.of_past read))

/-- A program and another one on a new line, which the first does not change the books for. -/
theorem Program.append {first second : List Token} {body more : List Node}
    {after last : ParseState} {newline : Token} {n : Nat}
    (h1 : Program features first body after) (h2 : Program features second more last)
    (present1 : Present first) (present2 : Present second) (isNewline : newline.kind = .newline)
    (nothing : ∀ node ∈ body, node.NamesNothing) :
    ∃ final, Program features (first ++ newline :: second.map (Token.moved n))
        (body ++ more.map (Node.moved n)) final ∧
      final.emitted = after.emitted ++ last.emitted.map (Diagnostic.moved n) := by
  let line : Surroundings := ⟨0, newline :: second.map (Token.moved n), [], by simp [isNewline]⟩
  let next : Surroundings := ⟨n, [], after.emitted, nofun⟩
  have before : after.amid line =
      ⟨newline :: second.map (Token.moved n), Bookkeeping.empty.openScope false,
        after.emitted⟩ := by
    simp [ParseState.amid, Surroundings.tokens, line, h1.rest_eq, h1.book_eq nothing,
      List.map_id'' Diagnostic.moved_zero]
  have start : (({ rest := second } : ParseState).keeping (·.openScope false)).amid next =
      ⟨second.map (Token.moved n), Bookkeeping.empty.openScope false, after.emitted⟩ := by
    simp [ParseState.amid, ParseState.keeping, Surroundings.tokens, next]
    rfl
  have later := Derives.amid (e := next) h2 ⟨trivial, trivial, fun _ => rfl, present2⟩
  rw [start] at later
  have rest : Derives features (.of (.statements [])) (after.amid line)
      (more.map (Node.moved n)) (last.amid next) := by
    refine Derives.statements_of_pastTerminators ?_ later
    rw [before]
    simp [ParseState.pastTerminators, ParseState.leaving, isNewline]
  have whole := Derives.followed h1 present1 rest
  refine ⟨last.amid next, ?_, rfl⟩
  have tokens : first.map (Token.moved 0) = first := List.map_id'' Token.moved_zero _
  have nodes : body.map (Node.moved 0) = body := List.map_id'' Node.moved_zero _
  rw [show line.shift = 0 from rfl, nodes] at whole
  rw [← tokens]
  exact whole

/-- The statements that a tree stands for: those in a list of statements that nothing delimits, or
the tree itself. -/
def statementsOf : Option Node → List Node
  | none => []
  | some node => if node.isOpen then node.children else [node]

theorem isOpen_of_no_delimiters (children : List Child) (whole : Option Span) :
    (located .begin children whole [("begin", none), ("end", none)]).isOpen = true := rfl

theorem statementsOf_sequence {body : List Node} (expressions : ∀ node ∈ body, node.IsExpression) :
    statementsOf (sequence body) = body := by
  match body with
  | [] => rfl
  | [node] => exact if_neg (by simp [(expressions node (.head _)).closed])
  | first :: second :: more =>
    rw [sequence, statementsOf, if_pos (isOpen_of_no_delimiters _ _), children_located,
      filterMap_node?_map]

end Grammar

open Grammar

theorem present_placed {source : List Char} {tokens : List Token}
    (h : placed source = .ok tokens) : Present tokens := fun token mem =>
  Nat.zero_lt_of_lt ((placed_laid h).exact token mem).start_lt_stop

namespace Parser

/-- Programs compose line by line: where the first names no variable, the statements of both and
their diagnostics follow one another, those of the second moved past the first line. -/
theorem lines_compose {parser : Parser} {a b : String} {first second : Option Node}
    (accepted : (parser.parse a).1 = .ok first) (accepted' : (parser.parse b).1 = .ok second)
    (nothing : ∀ node ∈ first, node.NamesNothing) :
    (parser.parse (a ++ "\n" ++ b)).1 =
        .ok (sequence (statementsOf first ++
          (statementsOf second).map (Node.moved (a.length + 1)))) ∧
      (parser.parse (a ++ "\n" ++ b)).2.2 =
        (parser.parse a).2.2 ++ (parser.parse b).2.2.map (Diagnostic.moved (a.length + 1)) := by
  obtain ⟨tokens, body, after, tokenized, derived, rfl, emitted⟩ := program_of_accepted accepted
  obtain ⟨tokens', body', after', tokenized', derived', rfl, emitted'⟩ :=
    program_of_accepted accepted'
  obtain ⟨spaced, both⟩ := placed_junction tokenized tokenized'
  let newline : Token := ⟨.newline, .ofLength a.toList.length 1, "\n", spaced⟩
  obtain ⟨final, program, reported⟩ := derived.append (n := a.length + 1) derived'
    (present_placed tokenized) (present_placed tokenized') (rfl : newline.kind = .newline)
    (namesNothing_sequence nothing)
  have text : (a ++ "\n" ++ b).toList = a.toList ++ '\n' :: b.toList := by simp
  have joined : parser.parse (a ++ "\n" ++ b) = _ := parse_of_program (text ▸ both) program
  rw [statementsOf_sequence derived.statements_shaped,
    statementsOf_sequence derived'.statements_shaped, emitted, emitted', ← reported, joined]
  exact ⟨rfl, rfl⟩

/-- The report for the sign on the first line comes before that for the sign on the last, which
stands as many characters later as the first line has. -/
theorem lines_compose_reports :
    ∃ first second, (Parser.newest.parse "foo *1").1 = .ok (some first) ∧
      (Parser.newest.parse "x = 2\nbar &x").1 = .ok (some second) ∧ first.NamesNothing ∧
      (Parser.newest.parse ("foo *1" ++ "\n" ++ "x = 2\nbar &x")).1 =
        .ok (sequence (first :: second.children.map (Node.moved 7))) ∧
      ((Parser.newest.parse ("foo *1" ++ "\n" ++ "x = 2\nbar &x")).2.2.map
        (·.location.start)) = [4, 17] := by
  have found : (Parser.newest.parse "foo *1").1.toOption.join.any (fun tree =>
      tree.kind == .send && !tree.isOpen && tree.children.all fun argument =>
        argument.kind == .splat && argument.children.all fun operand =>
          operand.kind == .int && operand.children.isEmpty) = true := by decide +kernel
  have found' : (Parser.newest.parse "x = 2\nbar &x").1.toOption.join.any (·.isOpen) = true := by
    decide +kernel
  obtain ⟨first, accepted, shape⟩ := Parser.accepted_of_any found
  obtain ⟨second, accepted', isOpen⟩ := Parser.accepted_of_any found'
  simp only [Bool.and_eq_true, beq_iff_eq, List.all_eq_true, List.isEmpty_iff] at shape
  obtain ⟨⟨call, closed⟩, arguments⟩ := shape
  have nothing : first.NamesNothing := by
    refine .intro (by simp [call]) fun argument mem => ?_
    refine .intro (by simp [(arguments argument mem).1]) fun operand below => ?_
    obtain ⟨literal, none⟩ := (arguments argument mem).2 operand below
    exact .intro (by simp [literal]) (by simp [none])
  have lines := lines_compose accepted accepted' (by rintro _ ⟨⟩; exact nothing)
  have one : statementsOf (some first) = [first] := if_neg (by simpa using closed)
  have many : statementsOf (some second) = second.children := if_pos isOpen
  rw [one, many] at lines
  exact ⟨first, second, accepted, accepted', nothing, lines.1, by decide +kernel⟩

end Parser

end Conformance.Dialect
