import Conformance.Proofs.Acceptance
import Conformance.Proofs.Idle
import Conformance.Proofs.Nodes
import Conformance.Proofs.Scoping
import Conformance.Proofs.Succession

/-! The names in a tree are those of the source: every name that is read stands in the tree once,
where it was read. -/

namespace Conformance.Dialect

/-- A name at some place. -/
structure Mention where
  /-- Whether the name is the key of a label. -/
  label : Bool
  name : String
  span : Option Span
  deriving DecidableEq

/-! ### Names of tokens -/

namespace Grammar

def nameMention (token : Token) : Mention := ⟨false, token.text, some token.span⟩

def labelMention (token : Token) : Mention := ⟨true, keyOf token, some (keySpan token)⟩

end Grammar

open Grammar

/-- Whether tokens of a kind are no names. -/
def TokenKind.silent : TokenKind → Bool
  | .identifier | .constant | .label => false
  | _ => true

/-- The name that a token is. -/
def Token.mention? (token : Token) : Option Mention :=
  match token.kind with
  | .identifier | .constant => some (nameMention token)
  | .label => some (labelMention token)
  | _ => none

/-! ### Names of nodes -/

namespace Node

/-- Where a node stands, as far as this tells whether it is a key. -/
inductive Place where
  /-- An entry of a hash pattern. -/
  | entry
  /-- The first child of a pair. -/
  | key
  | other
  deriving DecidableEq

/-- The place of a child of a node of some kind. -/
def Place.of (parent : NodeKind) (first : Bool) : Place :=
  match parent, first with
  | .hashPattern, _ => .entry
  | .pair, true => .key
  | _, _ => .other

/-- Whether a call is written with a name, and not as an operator or a sign. -/
def isNamedCall (node : Node) : Bool :=
  (node.allChildren.head?.bind Child.node?).isNone || (node.span? "dot").isSome

/-- Whether a node stands for a key or for another name, and the range of it. -/
def spot? (place : Place) (node : Node) : Option (Bool × Option Span) :=
  match node.kind with
  | .lvar | .lvasgn | .arg | .method | .const => some (false, node.span? "name")
  | .matchVar => some (place == .entry, node.span? "name")
  | .send => if node.isNamedCall then some (false, node.span? "selector") else none
  | .sym => if place = .key then some (true, node.range?) else none
  | _ => none

mutual

/-- The names in a tree, in their order: a node with a name has it as one of its children. -/
def mentions (place : Place) : Node → List Mention
  | .mk kind children location context =>
    childrenMentions (spot? place (.mk kind children location context)) kind true children

def childrenMentions (spot : Option (Bool × Option Span)) (parent : NodeKind) (first : Bool) :
    List Child → List Mention
  | [] => []
  | child :: more =>
    childMentions spot (.of parent first) child ++ childrenMentions spot parent false more

def childMentions (spot : Option (Bool × Option Span)) (place : Place) : Child → List Mention
  | .node node => mentions place node
  | .sym name => (spot.map fun (label, span) => ⟨label, name, span⟩).toList
  | _ => []

end

variable {kind : NodeKind} {children : List Child} {location : Option Location}
  {context : Option Flags} {place inner : Place} {spot : Option (Bool × Option Span)}

theorem childrenMentions_eq {parent : NodeKind} (same : ∀ first, Place.of parent first = inner)
    (first : Bool) :
    childrenMentions spot parent first children =
      children.flatMap (childMentions spot inner) := by
  induction children generalizing first with
  | nil => rfl
  | cons child more ih => rw [childrenMentions, ih, same, List.flatMap_cons]

/-- Other than in a pair, the place of a child does not depend on whether it is the first. -/
theorem mentions_mk (spot : Option (Bool × Option Span))
    (same : ∀ first, Place.of kind first = inner)
    (spot_eq : (Node.mk kind children location context).spot? place = spot) :
    (Node.mk kind children location context).mentions place =
      children.flatMap (childMentions spot inner) := by
  rw [mentions, spot_eq, childrenMentions_eq same]

@[simp] theorem childMentions_node (node : Node) :
    childMentions spot inner (.node node) = node.mentions inner := rfl

@[simp] theorem childMentions_sym (name : String) :
    childMentions spot inner (.sym name) =
      (spot.map fun (label, span) => ⟨label, name, span⟩).toList := rfl

@[simp] theorem childMentions_nil : childMentions spot inner .nil = [] := rfl

@[simp] theorem childMentions_ofOption (found : Option Node) :
    childMentions spot inner (.ofOption found) = found.toList.flatMap (mentions inner) := by
  cases found <;> simp [Child.ofOption]

theorem childMentions_integer? {text : List Char} {value : Child}
    (read : Child.integer? text = some value) : childMentions spot inner value = [] := by
  obtain ⟨number, -, rfl⟩ := Option.map_eq_some_iff.1 read
  split <;> rfl

end Node

/-! ### The nodes of the grammar -/

section Nodes

variable {place : Node.Place}

/-- The names in some nodes that are neither keys nor entries. -/
def namesIn (nodes : List Node) : List Mention := nodes.flatMap (Node.mentions .other)

theorem leaf_mentions (kind : NodeKind) (token : Token) : (leaf kind token).mentions place = [] :=
  rfl

theorem integer_mentions {kind : NodeKind} {text : List Char} {value : Child}
    {whole : Option Span} {fields : List (String × Option Span)}
    (read : Child.integer? text = some value) :
    (Node.located kind [value] whole fields).mentions place = [] := by
  show Node.childMentions _ _ value ++ [] = []
  rw [Node.childMentions_integer? read, List.append_nil]

/-- A node with one operand, such as one after a sign before an argument. -/
theorem operand_mentions {kind : NodeKind} {operand : Node} {whole : Option Span}
    {fields : List (String × Option Span)} (other : Node.Place.of kind true = .other) :
    (Node.located kind [.node operand] whole fields).mentions place = operand.mentions .other := by
  show operand.mentions (Node.Place.of kind true) ++ [] = _
  rw [other, List.append_nil]

theorem begin_mentions (body : List Node) (whole : Option Span)
    (fields : List (String × Option Span)) :
    (Node.located .begin (body.map .node) whole fields).mentions place = namesIn body :=
  (Node.mentions_mk none (fun _ => rfl) rfl).trans (by simp [namesIn, List.flatMap_map])

theorem namesIn_sequence (body : List Node) : namesIn (sequence body).toList = namesIn body := by
  match body with
  | [] | [_] => rfl
  | first :: second :: more => exact (List.append_nil _).trans (begin_mentions _ _ _)

theorem assignment_mentions (name operator : Token) (value : Node) (whole : Option Span) :
    (Node.located .lvasgn [.sym name.text, .node value] whole
      [("name", some name.span), ("operator", some operator.span)]).mentions place =
        nameMention name :: value.mentions .other :=
  (Node.mentions_mk (some (false, some name.span)) (fun _ => rfl) rfl).trans
    (by simp [nameMention])

theorem operatorNode_mentions (left right : Node) (operator : Token) :
    (operatorNode left operator right).mentions place =
      left.mentions .other ++ right.mentions .other := by
  unfold operatorNode
  split
  · exact (Node.mentions_mk none (fun _ => rfl) rfl).trans (by simp)
  · exact (Node.mentions_mk none (fun _ => rfl) rfl).trans (by simp)
  · exact (Node.mentions_mk none (fun _ => rfl) rfl).trans (by simp)

theorem signNode_mentions (selector : String) (sign : Token) (operand : Node) :
    (signNode selector sign operand).mentions place = operand.mentions .other :=
  (Node.mentions_mk none (fun _ => rfl) rfl).trans (by simp)

theorem recordedCall_mentions {context : Flags} {receiver : Option Node} {dot : Option Token}
    {selector : Token} {actuals : Actuals} (dotted : receiver = none ∨ dot ≠ none) :
    (recordedCall context receiver dot selector actuals).mentions place =
      namesIn receiver.toList ++ nameMention selector :: namesIn actuals.nodes := by
  rw [recordedCall_eq]
  refine (Node.mentions_mk (some (false, some selector.span)) (fun _ => rfl) ?_).trans ?_
  · obtain rfl | present := dotted
    · rfl
    · cases dot with
      | none => exact absurd rfl present
      | some dot => cases receiver <;> rfl
  · simp [namesIn, nameMention, List.flatMap_map]

theorem closureNode_mentions {target parameters : Node} {numbering : Option Numbering}
    {body : List Node} {whole : Span} {first last : Token}
    (unlisted : ∀ highest ordinary, numbering = some (.body (highest + 1) ordinary) →
      parameters.mentions .other = []) :
    (closureNode target parameters numbering body whole first last).mentions place =
      target.mentions .other ++ parameters.mentions .other ++ namesIn body := by
  rw [← namesIn_sequence body]
  unfold closureNode
  dsimp only
  split
  · rw [unlisted _ _ rfl]
    exact (Node.mentions_mk none (fun _ => rfl) rfl).trans (by simp [namesIn, Node.childMentions])
  · exact (Node.mentions_mk none (fun _ => rfl) rfl).trans (by simp [namesIn])

theorem pairNode_mentions (label : Token) (value : Node) :
    (pairNode label value).mentions place = labelMention label :: value.mentions .other := by
  have key : (Node.located .sym [.sym (keyOf label)] (some (keySpan label))
      [("begin", none)]).mentions .key = [labelMention label] :=
    Node.mentions_mk (some (true, some (keySpan label))) (fun _ => rfl) rfl
  show Node.mentions .key _ ++ (value.mentions .other ++ []) = _
  rw [key, List.append_nil, List.singleton_append]

theorem hashPattern_mentions (entries : List Node) (whole : Option Span)
    (fields : List (String × Option Span)) :
    (Node.located .hashPattern (entries.map .node) whole fields).mentions place =
      entries.flatMap (Node.mentions .entry) :=
  (Node.mentions_mk none (fun _ => rfl) rfl).trans (by simp [List.flatMap_map])

theorem whileLoop_mentions (condition : Node) (body : List Node) (whole : Option Span)
    (fields : List (String × Option Span)) :
    (Node.located .whileLoop [.node condition, .ofOption (sequence body)] whole fields).mentions
      place = condition.mentions .other ++ namesIn body := by
  rw [← namesIn_sequence body]
  exact (Node.mentions_mk none (fun _ => rfl) rfl).trans (by simp [namesIn])

theorem classDefinition_mentions (name : Token) (body : List Node) (whole : Option Span)
    (fields : List (String × Option Span)) :
    (Node.located .classDef [.node (constantNode name), .nil, .ofOption (sequence body)] whole
      fields).mentions place = nameMention name :: namesIn body := by
  rw [← namesIn_sequence body]
  refine (Node.mentions_mk none (fun _ => rfl) rfl).trans ?_
  show [nameMention name] ++ _ = _
  simp [namesIn]

theorem clauseNode_mentions (keyword : Token) (pattern : Node) (opener : Option Token)
    (body : List Node) :
    (clauseNode keyword pattern opener body).mentions place =
      pattern.mentions .other ++ namesIn body := by
  rw [← namesIn_sequence body]
  exact (Node.mentions_mk none (fun _ => rfl) rfl).trans (by simp [namesIn])

theorem caseNode_mentions (keyword : Token) (subject : Node) (clauses : List Node)
    (alternative : Option Token) (otherwise : List Node) (last : Token) :
    (caseNode keyword subject clauses alternative otherwise last).mentions place =
      subject.mentions .other ++ namesIn clauses ++ namesIn otherwise := by
  rw [← namesIn_sequence otherwise]
  exact (Node.mentions_mk none (fun _ => rfl) rfl).trans (by simp [namesIn, List.flatMap_map])

theorem method_mentions (keyword name last : Token) (parameters : Node) (body : List Node)
    (whole : Option Span) :
    (Node.located .method [.sym name.text, .node parameters, .ofOption (sequence body)] whole
      [("keyword", some keyword.span), ("name", some name.span),
        ("end", some last.span)]).mentions place =
      nameMention name :: parameters.mentions .other ++ namesIn body := by
  rw [← namesIn_sequence body]
  exact (Node.mentions_mk (some (false, some name.span)) (fun _ => rfl) rfl).trans
    (by simp [nameMention, namesIn])

theorem parametersNode_mentions (nodes : List Node) (first last : Span) :
    (parametersNode nodes first last).mentions place = namesIn nodes :=
  (Node.mentions_mk none (fun _ => rfl) rfl).trans (by simp [namesIn, List.flatMap_map])

end Nodes

/-! ### Names that are read -/

/-- Of all names of a source, those that have been read and those of the tokens ahead. -/
def Heard (all earlier : List Mention) (ahead : List Token) : Prop :=
  earlier ++ ahead.filterMap Token.mention? = all

section Heard

variable {all earlier : List Mention} {ahead rest : List Token} {s : ParseState} {kind : TokenKind}
  {token : Token}

theorem filterMap_mention?_dropWhile {p : Token → Bool}
    (silent : ∀ token, p token = true → token.mention? = none) (tokens : List Token) :
    (tokens.dropWhile p).filterMap Token.mention? = tokens.filterMap Token.mention? := by
  induction tokens with
  | nil => rfl
  | cons token more ih =>
    cases drop : p token with
    | false => rw [List.dropWhile_cons_of_neg (by simp [drop])]
    | true =>
      rw [List.dropWhile_cons_of_pos drop, ih, List.filterMap_cons_none (silent token drop)]

theorem Heard.of_eq {found : List Mention} (h : Heard all earlier ahead)
    (same : earlier = found) : Heard all found ahead := same ▸ h

theorem Heard.newlines (h : Heard all earlier s.rest) : Heard all earlier s.pastNewlines.rest := by
  have silent (token : Token) (newline : (token.kind == .newline) = true) :
      token.mention? = none := by
    simp [Token.mention?, beq_iff_eq.1 newline]
  exact (congrArg (earlier ++ ·) (filterMap_mention?_dropWhile silent s.rest)).trans h

theorem Heard.terminators (h : Heard all earlier s.rest) :
    Heard all earlier s.pastTerminators.rest := by
  have silent (token : Token)
      (terminator : (token.kind == .newline || token.kind == .semicolon) = true) :
      token.mention? = none := by
    obtain newline | semicolon := Bool.or_eq_true_iff.1 terminator
    · simp [Token.mention?, beq_iff_eq.1 newline]
    · simp [Token.mention?, beq_iff_eq.1 semicolon]
  exact (congrArg (earlier ++ ·) (filterMap_mention?_dropWhile silent s.rest)).trans h

namespace ParseState

theorem Next.hear (next : s.Next kind token rest) {mention : Mention}
    (is : token.mention? = some mention) (h : Heard all earlier s.rest) :
    Heard all (earlier ++ [mention]) rest := by
  unfold Heard at *
  rw [← h, next.eq, List.filterMap_cons_some is, List.append_assoc, List.singleton_append]

theorem Next.hearName (next : s.Next kind token rest)
    (name : kind = .identifier ∨ kind = .constant) (h : Heard all earlier s.rest) :
    Heard all (earlier ++ [nameMention token]) rest := by
  refine next.hear ?_ h
  obtain rfl | rfl := name <;> simp [Token.mention?, next.kind_eq]

theorem Next.hearLabel (next : s.Next .label token rest) (h : Heard all earlier s.rest) :
    Heard all (earlier ++ [labelMention token]) rest :=
  next.hear (by simp [Token.mention?, next.kind_eq]) h

theorem Next.silently (next : s.Next kind token rest) (quiet : kind.silent = true)
    (h : Heard all earlier s.rest) : Heard all earlier rest := by
  have none : token.mention? = none := by
    unfold Token.mention?
    rw [next.kind_eq]
    cases kind <;> first | rfl | cases quiet
  unfold Heard at *
  rw [← h, next.eq, List.filterMap_cons_none none]

theorem Eats.silently {found : Option Token} (eats : s.Eats kind found rest)
    (quiet : kind.silent = true) (h : Heard all earlier s.rest) : Heard all earlier rest := by
  cases eats with
  | none _ => exact h
  | some next => exact next.silently quiet h

end ParseState

end Heard

/-! ### Phrases -/

namespace Grammar

variable {features : Features} {s t : ParseState} {all earlier : List Mention}

theorem Names.heard {close : TokenKind} {seen : List String} {nodes : List Node}
    (h : Names close seen s nodes t) (given : Heard all earlier s.rest) :
    Heard all (earlier ++ namesIn nodes) t.rest := by
  induction h generalizing earlier with
  | none => simpa [namesIn] using given
  | last name => exact name.hearName (.inl rfl) given
  | more name _ comma _ ih =>
    have more := ih (comma.silently rfl (name.hearName (.inl rfl) given))
    rwa [List.append_assoc] at more

theorem ParameterList.heard {close : TokenKind} {nodes : List Node}
    (h : ParameterList close s nodes t) (given : Heard all earlier s.rest) :
    Heard all (earlier ++ namesIn nodes) t.rest := by
  cases h with
  | intro names => exact names.heard given

/-- The names of parameters are read; there is none if there are no parameters. -/
structure Listed (all earlier : List Mention) (parameters : Node × Bool) (ahead : List Token) :
    Prop where
  heard : Heard all (earlier ++ parameters.1.mentions .other) ahead
  unlisted : parameters.2 = false → parameters.1.mentions .other = []

theorem listed_nil {parameters : Node × Bool} {ahead : List Token}
    (none : parameters.1.mentions .other = []) (given : Heard all earlier ahead) :
    Listed all earlier parameters ahead := by
  refine ⟨?_, fun _ => none⟩
  rwa [none, List.append_nil]

theorem listed_parametersNode {nodes : List Node} {first last : Span} {ahead : List Token}
    (given : Heard all (earlier ++ namesIn nodes) ahead) :
    Listed all earlier (parametersNode nodes first last, !nodes.isEmpty) ahead := by
  refine ⟨?_, fun none => ?_⟩
  · rwa [parametersNode_mentions]
  · rw [parametersNode_mentions]
    cases nodes with
    | nil => rfl
    | cons node more => cases none

theorem BlockParameters.listed {parameters : Node × Bool} (h : BlockParameters s parameters t)
    (given : Heard all earlier s.rest) : Listed all earlier parameters t.rest := by
  cases h with
  | bars bars => exact listed_nil rfl (bars.silently rfl given)
  | none => exact listed_nil rfl given
  | list first list last =>
    exact listed_parametersNode (last.silently rfl (list.heard (first.silently rfl given)))

theorem ParenthesizedParameters.listed {parameters : Node × Bool}
    (h : ParenthesizedParameters s parameters t) (given : Heard all earlier s.rest) :
    Listed all earlier parameters t.rest := by
  cases h with
  | none => exact listed_nil rfl given
  | list first list last =>
    exact listed_parametersNode (last.silently rfl (list.heard (first.silently rfl given)))

/-- A body with numbered parameters has no others, so no name is lost with their list. -/
theorem Listed.unlisted_of_body {parameters : Node × Bool} {ahead : List Token}
    {book body : Bookkeeping} {inherits : Bool} (listed : Listed all earlier parameters ahead)
    (inside : body.frame = (book.frame.opened book.scopes inherits).numbered
      (.body 0 parameters.2)) :
    ∀ highest ordinary, body.numbering.head? = some (.body (highest + 1) ordinary) →
      parameters.1.mentions .other = [] := by
  intro highest ordinary head
  have rigid := Bookkeeping.head?_numbering_eq inside
  rw [head] at rigid
  cases explicit : parameters.2 with
  | false => exact listed.unlisted explicit
  | true =>
    rw [explicit] at rigid
    cases ordinary <;> cases rigid

/-- The nodes and the tokens that a phrase goes on from are among what has been heard. -/
def Phrase.Heard (all earlier : List Mention) (ahead : List Token) : Phrase → Prop
  | .of (.operatorsAfter _ node) | .of (.callsAfter node) | .blockAfter node =>
    Dialect.Heard all (earlier ++ node.mentions .other) ahead
  | .call receiver dot selector =>
    (receiver = none ∨ dot ≠ none) ∧
      Dialect.Heard all (earlier ++ namesIn receiver.toList ++ [nameMention selector]) ahead
  | .entry label => Dialect.Heard all (earlier ++ [labelMention label]) ahead
  | _ => Dialect.Heard all earlier ahead

/-- The names in what a phrase stands for. -/
def Phrase.mentions : (phrase : Phrase) → phrase.Result → List Mention
  | .of (.statements _), nodes | .of (.arguments _), nodes | .of .clauses, nodes => namesIn nodes
  | .of .entries, nodes => nodes.flatMap (Node.mentions .entry)
  | .of .expression, node | .of (.operators _), node | .of (.operatorsAfter _ _), node
  | .of .unary, node | .of (.callsAfter _), node | .of .pattern, node | .primary, node
  | .call _ _ _, node | .blockAfter _, node | .argument _, node
  | .clause, node => node.mentions .other
  | .entry _, node => node.mentions .entry
  | .actuals, given => namesIn given.nodes

theorem silent_of_bindingPower? {kind : TokenKind} {power : Nat}
    (h : bindingPower? kind = some power) : kind.silent = true := by
  cases kind <;> first | rfl | cases h

theorem silent_of_keywordValue? {kind : TokenKind} {value : NodeKind}
    (h : keywordValue? kind = some value) : kind.silent = true := by
  cases kind <;> first | rfl | cases h

theorem silent_of_argumentSign? {kind : TokenKind} {sign : NodeKind}
    (h : argumentSign? (some kind) = some sign) : kind.silent = true := by
  cases kind <;> first | rfl | cases h

theorem other_of_argumentSign? {kind : TokenKind} {sign : NodeKind}
    (h : argumentSign? (some kind) = some sign) : Node.Place.of sign true = .other := by
  cases kind <;> cases h <;> rfl

theorem silent_of_lambdaClose? {opening closing : TokenKind}
    (h : lambdaClose? opening = some closing) : opening.silent = true ∧ closing.silent = true := by
  cases opening <;> cases h <;> exact ⟨rfl, rfl⟩

theorem silent_of_blockClose? {close : TokenKind} {first : Token} {rest : List Token}
    (h : blockClose? s = some close) (read : s.rest = first :: rest) :
    first.kind.silent = true ∧ close.silent = true := by
  have kind : s.kind? = some first.kind := by simp [ParseState.kind?, read]
  obtain ⟨opens, rfl⟩ | ⟨opens, rfl⟩ := blockClose?_eq_some h
  · rw [Option.some.inj (kind.symm.trans opens)]
    exact ⟨rfl, rfl⟩
  · rw [Option.some.inj (kind.symm.trans opens)]
    exact ⟨rfl, rfl⟩

theorem Derives.heard {phrase : Phrase} {value : phrase.Result}
    (h : Derives features phrase s value t) (given : phrase.Heard all earlier s.rest) :
    Dialect.Heard all (earlier ++ phrase.mentions value) t.rest := by
  -- `earlier` grows from premise to premise, in the order in which a rule reads them.
  induction h generalizing earlier with
  | noStatements => exact (Heard.terminators given).of_eq (List.append_nil _).symm
  | lastStatement _ _ _ _ ih =>
    exact (ih (Heard.terminators given)).of_eq (by simp [Phrase.mentions, namesIn])
  | moreStatements _ _ _ _ ih1 ih2 =>
    exact (ih2 (ih1 (Heard.terminators given))).of_eq (by simp [Phrase.mentions, namesIn])
  | assignment next operator _ ih =>
    have value := ih (Heard.newlines (operator.silently rfl (next.hearName (.inl rfl) given)))
    exact value.of_eq (by simp [Phrase.mentions, assignment_mentions])
  | unassigned _ _ ih => exact ih given
  | operators _ _ ih1 ih2 => exact ih2 (ih1 given)
  | noOperator => exact given
  | operator binds _ operator _ _ ih1 ih2 =>
    have right := ih1 (Heard.newlines (operator.silently (silent_of_bindingPower? binds) given))
    exact ih2 (right.of_eq (by simp [Phrase.mentions, operatorNode_mentions]))
  | negative sign digits _ value =>
    have heard := digits.silently rfl (sign.silently rfl given)
    exact heard.of_eq (by simp [Phrase.mentions, integer_mentions value])
  | minus next _ _ ih | bang next _ ih =>
    exact (ih (next.silently rfl given)).of_eq (by simp [Phrase.mentions, signNode_mentions])
  | chain _ _ _ _ ih1 ih2 => exact ih2 (ih1 given)
  | integer next value =>
    exact (next.silently rfl given).of_eq (by simp [Phrase.mentions, integer_mentions value])
  | string next | symbol next => exact (next.silently rfl given).of_eq (List.append_nil _).symm
  | keyword value next =>
    exact (next.silently (silent_of_keywordValue? value) given).of_eq (List.append_nil _).symm
  | constant next => exact next.hearName (.inr rfl) given
  | numberedVariable next | localVariable next => exact next.hearName (.inl rfl) given
  | adjacentCall next _ _ ih | wordCall next _ _ _ _ ih =>
    refine ih ⟨.inl rfl, ?_⟩
    exact (next.hearName (.inl rfl) given).of_eq (by simp [namesIn])
  | parenthesized first _ last ih =>
    have body := last.silently rfl (ih (first.silently rfl given))
    exact body.of_eq (by simp [Phrase.mentions, begin_mentions])
  | lambda _ next parameters closes opener h1 closer ih =>
    have list := parameters.listed (next.silently rfl given)
    have inside := h1.frame_eq.trans (congrArg (Frame.numbered · _) parameters.frame_eq)
    have braces := silent_of_lambdaClose? closes
    have body := closer.silently braces.2 (ih (opener.silently braces.1 list.heard))
    have unlisted := list.unlisted_of_body inside
    exact body.of_eq (by simp [Phrase.mentions, closureNode_mentions unlisted, leaf_mentions])
  | method keyword name parameters _ last ih =>
    have list := parameters.listed (name.hearName (.inl rfl) (keyword.silently rfl given))
    have body := last.silently rfl (ih list.heard)
    exact body.of_eq (by simp [Phrase.mentions, method_mentions])
  | classDefinition keyword _ name _ last ih =>
    have body := last.silently rfl (ih (name.hearName (.inr rfl) (keyword.silently rfl given)))
    exact body.of_eq (by simp [Phrase.mentions, classDefinition_mentions])
  | whileLoop keyword _ opener _ _ last ih1 ih2 =>
    have condition := ih1 (keyword.silently rfl given)
    have body := last.silently rfl (ih2 (opener.silently rfl condition))
    exact body.of_eq (by simp [Phrase.mentions, whileLoop_mentions])
  | definedWord keyword _ _ ih =>
    exact (ih (keyword.silently rfl given)).of_eq (congrArg _ (operand_mentions rfl).symm)
  | definedParens keyword first _ last ih =>
    have operand := ih (Heard.newlines (first.silently rfl (keyword.silently rfl given)))
    exact (last.silently rfl (Heard.newlines operand)).of_eq
      (congrArg _ (operand_mentions rfl).symm)
  | caseMatch _ keyword _ _ _ last ih1 ih2 =>
    have clauses := ih2 (Heard.terminators (ih1 (keyword.silently rfl given)))
    exact (last.silently rfl clauses).of_eq (by simp [Phrase.mentions, caseNode_mentions, namesIn])
  | caseElse _ keyword _ _ _ alternative _ last ih1 ih2 ih3 =>
    have clauses := ih2 (Heard.terminators (ih1 (keyword.silently rfl given)))
    have otherwise := ih3 (alternative.silently rfl clauses)
    exact (last.silently rfl otherwise).of_eq (by simp [Phrase.mentions, caseNode_mentions])
  | noCall => exact given
  | dotCall dot selector _ _ ih1 ih2 =>
    refine ih2 (ih1 ⟨.inr nofun, ?_⟩)
    exact (selector.hearName (.inl rfl) (dot.silently rfl given)).of_eq (by simp [namesIn])
  | call _ _ ih1 ih2 =>
    obtain ⟨dotted, heard⟩ := given
    refine ih2 ((ih1 heard).of_eq ?_)
    simp [Phrase.mentions, recordedCall_mentions dotted]
  | emptyParens first _ last =>
    have heard := last.silently rfl (Heard.newlines (first.silently rfl given))
    exact heard.of_eq (List.append_nil _).symm
  | parens first _ _ _ last ih =>
    exact last.silently rfl (Heard.newlines (ih (Heard.newlines (first.silently rfl given))))
  | commandArguments _ _ _ ih => exact ih given
  | noActuals => exact Heard.of_eq given (List.append_nil _).symm
  | lastArgument _ _ ih => exact (ih given).of_eq (by simp [Phrase.mentions, namesIn])
  | moreArguments _ comma _ ih1 ih2 =>
    have more := ih2 (Heard.newlines (comma.silently rfl (ih1 given)))
    exact more.of_eq (by simp [Phrase.mentions, namesIn])
  | plainArgument _ _ ih => exact ih given
  | signedArgument sign next _ ih =>
    have operand := ih (next.silently (silent_of_argumentSign? sign) given)
    have other := other_of_argumentSign? sign
    split
    · exact operand.of_eq (congrArg _ (operand_mentions other).symm)
    · exact operand.of_eq (congrArg _ (operand_mentions other).symm)
  | noBlock => exact given
  | @block _ _ _ _ _ first _ _ _ _ _ closes read parameters h1 closer ih =>
    have opener : ParseState.Next _ first.kind first _ := ⟨read, rfl⟩
    have braces := silent_of_blockClose? closes read
    have list := parameters.listed (opener.silently braces.1 given)
    have inside := h1.frame_eq.trans (congrArg (Frame.numbered · _) parameters.frame_eq)
    have body := closer.silently braces.2 (ih list.heard)
    have unlisted := list.unlisted_of_body inside
    exact body.of_eq (by simp [Phrase.mentions, closureNode_mentions unlisted])
  | variablePattern next _ => exact next.hearName (.inl rfl) given
  | hashPattern first _ last ih =>
    have entries := ih (Heard.newlines (first.silently rfl given))
    exact (last.silently rfl (Heard.newlines entries)).of_eq
      (by simp [Phrase.mentions, hashPattern_mentions])
  | valuePattern _ _ ih => exact ih given
  | noEntries => exact Heard.of_eq given (List.append_nil _).symm
  | lastEntry label _ _ ih =>
    exact (ih (label.hearLabel given)).of_eq (by simp [Phrase.mentions])
  | moreEntries label _ comma _ ih1 ih2 =>
    have more := ih2 (Heard.newlines (comma.silently rfl (ih1 (label.hearLabel given))))
    exact more.of_eq (by simp [Phrase.mentions])
  | bareEntry => exact given
  | pairEntry _ _ _ ih =>
    exact (ih given).of_eq (by simp [Phrase.mentions, pairNode_mentions])
  | noClauses => exact Heard.of_eq given (List.append_nil _).symm
  | moreClauses _ _ ih1 ih2 =>
    exact (ih2 (ih1 given)).of_eq (by simp [Phrase.mentions, namesIn])
  | clause keyword _ same opener _ _ ih1 ih2 =>
    subst same
    have pattern := ih1 (keyword.silently rfl given)
    have body := ih2 (opener.silently rfl pattern)
    exact body.of_eq (by simp [Phrase.mentions, clauseNode_mentions])

/-- The names in the tree of a program are those of its tokens. -/
theorem Program.mentions_eq {tokens : List Token} {body : List Node} {after : ParseState}
    (h : Program features tokens body after) :
    namesIn (sequence body).toList = tokens.filterMap Token.mention? := by
  have start : Dialect.Heard (tokens.filterMap Token.mention?) [] tokens := rfl
  have heard : Dialect.Heard _ (namesIn body) after.rest := Derives.heard h start
  rw [h.rest_eq] at heard
  rw [namesIn_sequence, ← heard, List.filterMap_nil, List.append_nil]

end Grammar

/-! ### The names of a source -/

/-- The key of a label stands before its colon. -/
theorem keySpan_slice {source : String} {label : Token} (exact : label.Exact)
    (slice : label.span.slice source = label.text) :
    (keySpan label).slice source = keyOf label := by
  have text : (source.toList.drop label.span.start).take label.text.toList.length =
      label.text.toList := by
    have written := congrArg String.toList slice
    rw [Span.slice, String.toList_ofList, List.drop_take, exact.stop_eq,
      Nat.add_sub_cancel_left] at written
    exact written
  have shorter : label.span.length - 1 = label.text.toList.length - 1 := by
    rw [Span.length, exact.stop_eq, Nat.add_sub_cancel_left]
  have key := congrArg (List.take (label.text.toList.length - 1)) text
  rw [List.take_take, Nat.min_eq_left (Nat.sub_le _ _)] at key
  unfold keyOf Span.slice keySpan Span.ofLength
  rw [List.dropLast_eq_take, List.drop_take, Nat.add_sub_cancel_left, shorter]
  exact congrArg String.ofList key

/-- A name stands where its token starts, and is written there. -/
theorem Token.slice_of_mention {source : String} {token : Token} {mention : Mention}
    (exact : token.Exact) (slice : token.span.slice source = token.text)
    (is : token.mention? = some mention) :
    ∃ span, mention.span = some span ∧ span.start = token.span.start ∧
      span.slice source = mention.name := by
  unfold Token.mention? at is
  split at is
  · cases is
    exact ⟨_, rfl, rfl, slice⟩
  · cases is
    exact ⟨_, rfl, rfl, slice⟩
  · cases is
    exact ⟨_, rfl, rfl, keySpan_slice exact slice⟩
  · cases is

/-- Names of tokens that follow one another stand in different places. -/
theorem nodup_mentions {n : Nat} {source : String} {tokens : List Token} (laid : Laid n [] tokens)
    (slices : ∀ token ∈ tokens, token.span.slice source = token.text) :
    ((tokens.filterMap Token.mention?).map Mention.span).Nodup := by
  have in_order : tokens.Pairwise fun a b => a.span.Before b.span :=
    List.pairwise_map.1 laid.in_order
  rw [List.Nodup, List.pairwise_map, List.pairwise_filterMap]
  refine in_order.imp_of_mem fun {a b} mem_a mem_b before m is_a m' is_b same => ?_
  obtain ⟨span, at_a, start_a, -⟩ :=
    Token.slice_of_mention (laid.exact a mem_a) (slices a mem_a) is_a
  obtain ⟨span', at_b, start_b, -⟩ :=
    Token.slice_of_mention (laid.exact b mem_b) (slices b mem_b) is_b
  rw [at_a, at_b] at same
  cases same
  have positive := (laid.exact a mem_a).start_lt_stop
  unfold Span.Before at before
  omega

/-- The names in the tree for an accepted source are those of its tokens, in their order: those of
identifiers and constants as they are, and those of labels as keys. Each stands in one place, where
the source has it. -/
theorem Parser.names_kept {parser : Parser} {source : String} {tree : Option Node}
    (accepted : (parser.parse source).1 = .ok tree) :
    ∃ tokens, tokenize parser.encoding source = .ok tokens ∧
      tree.toList.flatMap (Node.mentions .other) = tokens.filterMap Token.mention? ∧
      ((tree.toList.flatMap (Node.mentions .other)).map Mention.span).Nodup ∧
      ∀ mention ∈ tree.toList.flatMap (Node.mentions .other),
        ∃ span, mention.span = some span ∧ span.slice source = mention.name := by
  obtain ⟨tokens, body, after, tokenized, derived, rfl, -⟩ := Parser.program_of_accepted accepted
  have laid := placed_laid tokenized
  have slices := placed_slice tokenized
  have names : (sequence body).toList.flatMap (Node.mentions .other) =
      tokens.filterMap Token.mention? := derived.mentions_eq
  rw [names]
  refine ⟨tokens, (tokenize_eq _ _).trans tokenized, rfl, nodup_mentions laid slices, ?_⟩
  intro mention mem
  obtain ⟨token, token_mem, is⟩ := List.mem_filterMap.1 mem
  obtain ⟨span, present, -, slice⟩ :=
    Token.slice_of_mention (laid.exact token token_mem) (slices token token_mem) is
  exact ⟨span, present, slice⟩

/-- A pattern has keys with and without a pattern of their own, and binds names. -/
theorem Parser.names_kept_pattern :
    let source := "case x\nin \x7bk:, m: n\x7d\n p\nend"
    ∃ tree tokens, (Parser.newest.parse source).1 = .ok (some tree) ∧
      tokenize .utf8 source = .ok tokens ∧
      (tree.mentions .other).map (fun mention => (mention.name, mention.label)) =
        [("x", false), ("k", true), ("m", true), ("n", false), ("p", false)] ∧
      tree.mentions .other = tokens.filterMap Token.mention? := by
  intro source
  have found : (Parser.newest.parse source).1.toOption.join.any fun tree =>
      (tree.mentions .other).map (fun mention => (mention.name, mention.label)) ==
        [("x", false), ("k", true), ("m", true), ("n", false), ("p", false)] := by
    decide +kernel
  obtain ⟨tree, accepted, listed⟩ := Parser.accepted_of_any found
  obtain ⟨tokens, tokenized, names, -, -⟩ := Parser.names_kept accepted
  rw [Option.toList_some, List.flatMap_singleton] at names
  exact ⟨tree, tokens, accepted, tokenized, beq_iff_eq.1 listed, names⟩

end Conformance.Dialect
