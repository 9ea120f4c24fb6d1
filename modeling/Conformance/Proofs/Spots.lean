import Conformance.Proofs.Ruled
import Mathlib.Logic.Relation

/-! The places that a parse comes to: which phrase is to be read there, what the patterns around it
have bound so far, and whether the body of a method is open. -/

namespace Conformance.Dialect.Grammar

open Node
open List (forall_mem_nil forall_mem_singleton)

/-- What is open around a place. -/
structure Around where
  /-- The names that the innermost open pattern has bound. -/
  names : List String := []
  /-- The keys in the innermost open hash pattern. -/
  keys : List String := []
  inMethod : Bool := false

/-- A place where a phrase is to be read. -/
structure Spot where
  phrase : Phrase
  state : ParseState
  around : Around := {}

/-- To read a phrase in a state, another is read in a state, after all that comes before it. What is
open around them is the same. -/
inductive Opens (features : Features) : Phrase → ParseState → Phrase → ParseState → Prop where
  -- Statements
  | statement {stops : List TokenKind} {s : ParseState} : ¬ s.pastTerminators.Stops stops →
      Opens features (.of (.statements stops)) s (.of .expression) s.pastTerminators
  | moreStatements {stops : List TokenKind} {s s1 : ParseState} {node : Node} :
      ¬ s.pastTerminators.Stops stops →
      Derives features (.of .expression) s.pastTerminators node s1 → s1.Breaks →
      Opens features (.of (.statements stops)) s (.of (.statements stops)) s1
  -- Expressions
  | assigned {s : ParseState} {name operator : Token} {r1 r2 : List Token} :
      s.Next .identifier name r1 → (s.leaving r1).Next .assign operator r2 →
      Opens features (.of .expression) s (.of .expression)
        ((s.leaving r2).pastNewlines.keeping (·.declare name.text))
  | unassigned {s : ParseState} : ¬ s.Assigns →
      Opens features (.of .expression) s (.of (.operators 0)) s
  | firstOperand {power : Nat} {s : ParseState} :
      Opens features (.of (.operators power)) s (.of .unary) s
  | operatorsAfter {power : Nat} {s s1 : ParseState} {left : Node} :
      Derives features (.of .unary) s left s1 →
      Opens features (.of (.operators power)) s (.of (.operatorsAfter power left)) s1
  | operand {power tighter : Nat} {kind : TokenKind} {left : Node} {operator : Token}
      {r : List Token} {s : ParseState} : bindingPower? kind = some tighter → power < tighter →
      s.Next kind operator r →
      Opens features (.of (.operatorsAfter power left)) s (.of (.operators tighter))
        (s.leaving r).pastNewlines
  | moreOperators {power tighter : Nat} {kind : TokenKind} {left right : Node} {operator : Token}
      {r : List Token} {s s1 : ParseState} : bindingPower? kind = some tighter → power < tighter →
      s.Next kind operator r →
      Derives features (.of (.operators tighter)) (s.leaving r).pastNewlines right s1 →
      Opens features (.of (.operatorsAfter power left)) s
        (.of (.operatorsAfter power (operatorNode left operator right))) s1
  | minus {s : ParseState} {sign : Token} {r : List Token} : s.Next .minus sign r →
      ¬ (s.leaving r).Adjacent .integer →
      Opens features (.of .unary) s (.of .unary) (s.leaving r)
  | bang {s : ParseState} {sign : Token} {r : List Token} : s.Next .bang sign r →
      Opens features (.of .unary) s (.of .unary) (s.leaving r)
  | primary {s : ParseState} : s.kind? ≠ some .minus → s.kind? ≠ some .bang →
      Opens features (.of .unary) s .primary s
  | callsAfter {s s1 : ParseState} {receiver : Node} : s.kind? ≠ some .minus →
      s.kind? ≠ some .bang → Derives features .primary s receiver s1 →
      Opens features (.of .unary) s (.of (.callsAfter receiver)) s1
  -- Primary expressions
  | adjacentCall {s : ParseState} {token : Token} {r : List Token} : s.Next .identifier token r →
      (s.leaving r).Adjacent .lparen →
      Opens features .primary s (.call none none token) (s.leaving r)
  | wordCall {s : ParseState} {token : Token} {r : List Token} : s.Next .identifier token r →
      ¬ (s.leaving r).Adjacent .lparen → numberedUse? features s.book token.text = none →
      s.book.isLocal token.text = false →
      Opens features .primary s (.call none none token) (s.leaving r)
  | parenthesized {s : ParseState} {first : Token} {r : List Token} : s.Next .lparen first r →
      Opens features .primary s (.of (.statements [.rparen])) ((s.leaving r).nested .openParen)
  | lambdaBody {s s1 : ParseState} {arrow first : Token} {r1 r2 : List Token}
      {opening closing : TokenKind} {parameters : Node × Bool} : features.lambda = true →
      s.Next .arrow arrow r1 →
      ParenthesizedParameters
        (((s.leaving r1).nested .pushLambda).keeping (·.openScope true)) parameters s1 →
      lambdaClose? opening = some closing →
      (s1.keeping (·.openNumbering (.body 0 parameters.2))).Next opening first r2 →
      Opens features .primary s (.of (.statements [closing]))
        (((((s1.leaving r2).keeping (·.openNumbering (.body 0 parameters.2))).nested
          .popLambda).nested .saveStacks).flagged [(.inLambda, true), (.inBlock, false)])
  | classBody {s : ParseState} {keyword name : Token} {r1 r2 : List Token} :
      s.Next .kwClass keyword r1 → s.book.context.inDef = false →
      (s.leaving r1).Next .constant name r2 →
      Opens features .primary s (.of (.statements [.kwEnd]))
        (((((s.leaving r2).nested .saveStacks).keeping (·.openScope false)).keeping
          (·.openNumbering .closed)).flagged
          [(.inClass, true), (.inDef, false), (.inBlock, false), (.inLambda, false)])
  | condition {s : ParseState} {keyword : Token} {r : List Token} : s.Next .kwWhile keyword r →
      Opens features .primary s (.of .expression) ((s.leaving r).nested (·.pushCond true))
  | loopBody {s s1 : ParseState} {keyword : Token} {opener : Option Token} {r1 r2 : List Token}
      {condition : Node} : s.Next .kwWhile keyword r1 →
      Derives features (.of .expression) ((s.leaving r1).nested (·.pushCond true)) condition s1 →
      (s1.nested .popCond).Eats .kwDo opener r2 → (s1.leaving r2).Opened opener →
      Opens features .primary s (.of (.statements [.kwEnd])) ((s1.nested .popCond).leaving r2)
  | definedWord {s : ParseState} {keyword : Token} {r : List Token} :
      s.Next .kwDefined keyword r → (s.leaving r).kind? ≠ some .lparen →
      Opens features .primary s (.of .expression) ((s.leaving r).flagged [(.inDefined, true)])
  | definedParens {s : ParseState} {keyword first : Token} {r1 r2 : List Token} :
      s.Next .kwDefined keyword r1 → (s.leaving r1).Next .lparen first r2 →
      Opens features .primary s (.of .expression)
        (((s.leaving r2).nested .openParen).pastNewlines.flagged [(.inDefined, true)])
  | subject {s : ParseState} {keyword : Token} {r : List Token} : s.Next .kwCase keyword r →
      Opens features .primary s (.of .expression) (s.leaving r)
  | clauses {s s1 : ParseState} {keyword : Token} {r : List Token} {subject : Node} :
      features.patternMatching = true → s.Next .kwCase keyword r →
      Derives features (.of .expression) (s.leaving r) subject s1 →
      s1.pastTerminators.kind? = some .kwIn →
      Opens features .primary s (.of .clauses) s1.pastTerminators
  | otherwise {s s1 s2 : ParseState} {keyword alternative : Token} {r1 r2 : List Token}
      {subject : Node} {clauses : List Node} : features.patternMatching = true →
      s.Next .kwCase keyword r1 →
      Derives features (.of .expression) (s.leaving r1) subject s1 →
      s1.pastTerminators.kind? = some .kwIn →
      Derives features (.of .clauses) s1.pastTerminators clauses s2 →
      s2.Next .kwElse alternative r2 →
      Opens features .primary s (.of (.statements [.kwEnd])) (s2.leaving r2)
  -- Calls
  | dotCall {s : ParseState} {dot selector : Token} {r1 r2 : List Token} {receiver : Node} :
      s.Next .dot dot r1 → (s.leaving r1).Next .identifier selector r2 →
      Opens features (.of (.callsAfter receiver)) s (.call (some receiver) (some dot) selector)
        (s.leaving r2)
  | moreCalls {s s1 : ParseState} {dot selector : Token} {r1 r2 : List Token}
      {receiver called : Node} : s.Next .dot dot r1 →
      (s.leaving r1).Next .identifier selector r2 →
      Derives features (.call (some receiver) (some dot) selector) (s.leaving r2) called s1 →
      Opens features (.of (.callsAfter receiver)) s (.of (.callsAfter called)) s1
  | actuals {s : ParseState} {receiver : Option Node} {dot : Option Token} {selector : Token} :
      Opens features (.call receiver dot selector) s .actuals s
  | blockAfter {s s1 : ParseState} {receiver : Option Node} {dot : Option Token} {selector : Token}
      {actuals : Actuals} : Derives features .actuals s actuals s1 →
      Opens features (.call receiver dot selector) s
        (.blockAfter (recordedCall s.book.context receiver dot selector actuals)) s1
  | parens {s : ParseState} {first : Token} {r : List Token} : s.Next .lparen first r →
      first.spaced = false →
      ((s.leaving r).nested .openParen).pastNewlines.kind? ≠ some .rparen →
      Opens features .actuals s (.of (.arguments false))
        ((s.leaving r).nested .openParen).pastNewlines
  | command {s : ParseState} : ¬ s.Adjacent .lparen → startsCommand features s.rest = true →
      Opens features .actuals s (.of (.arguments true)) (s.nested (·.pushCmdarg true))
  | argument {command : Bool} {s : ParseState} :
      Opens features (.of (.arguments command)) s (.argument command) s
  | moreArguments {command : Bool} {s s1 : ParseState} {node : Node} {comma : Token}
      {r : List Token} : Derives features (.argument command) s node s1 → s1.Next .comma comma r →
      Opens features (.of (.arguments command)) s (.of (.arguments false))
        (s1.leaving r).pastNewlines
  | plainArgument {first : Bool} {s : ParseState} : argumentSign? s.kind? = none →
      Opens features (.argument first) s (.of .expression) s
  | signedArgument {first : Bool} {s : ParseState} {kind : TokenKind} {sign : NodeKind}
      {operator : Token} {r : List Token} : argumentSign? (some kind) = some sign →
      s.Next kind operator r →
      Opens features (.argument first) s (.of (.operators 0)) (s.leaving r)
  | blockBody {s s1 : ParseState} {call : Node} {close : TokenKind} {first : Token}
      {r : List Token} {parameters : Node × Bool} : blockClose? s = some close →
      s.rest = first :: r →
      BlockParameters
        (((s.leaving r).nested .saveStacks).keeping (·.openScope true)) parameters s1 →
      Opens features (.blockAfter call) s (.of (.statements [close]))
        ((s1.keeping (·.openNumbering (.body 0 parameters.2))).flagged
          [(.inBlock, true), (.inLambda, false)])
  -- Patterns
  | value {s : ParseState} : s.kind?.any startsValue = true →
      Opens features (.of .pattern) s (.of .unary) s
  | entry {s : ParseState} {label : Token} {r : List Token} : s.Next .label label r →
      Opens features (.of .entries) s (.entry label) (s.leaving r)
  | clause {s : ParseState} : s.kind? = some .kwIn →
      Opens features (.of .clauses) s .clause s
  | moreClauses {s s1 : ParseState} {node : Node} : Derives features .clause s node s1 →
      Opens features (.of .clauses) s (.of .clauses) s1
  | clauseBody {s s1 s2 : ParseState} {keyword : Token} {opener : Option Token}
      {r1 r2 : List Token} {pattern : Node} : s.Next .kwIn keyword r1 →
      Derives features (.of .pattern)
        (((s.leaving r1).keeping fun book =>
          { book with patternVariables := [] :: book.patternVariables }).flagged
          [(.inKwarg, true)]) pattern s1 →
      s2 = ((s1.restoring s.book.context).keeping fun book =>
        { book with patternVariables := book.patternVariables.tail }) →
      s2.Eats .kwThen opener r2 → (s2.leaving r2).Opened opener →
      Opens features .clause s (.of (.statements [.kwIn, .kwElse, .kwEnd])) (s2.leaving r2)

/-- From one place the parse comes to another, of which the first one is not done. The pattern of a
clause starts with no names and the entries of a hash pattern with no keys; each entry adds what it
binds. -/
inductive Enters (features : Features) : Spot → Spot → Prop where
  | opens {outer inner : Phrase} {s t : ParseState} {around : Around} :
      Opens features outer s inner t → Enters features ⟨outer, s, around⟩ ⟨inner, t, around⟩
  | methodBody {s s1 : ParseState} {keyword name : Token} {r1 r2 : List Token}
      {parameters : Node × Bool} {around : Around} : s.Next .kwDef keyword r1 →
      (s.leaving r1).Next .identifier name r2 →
      ParenthesizedParameters
        ((((s.leaving r2).nested .saveStacks).keeping (·.openScope false)).keeping
          (·.openNumbering .closed)) parameters s1 →
      Enters features ⟨.primary, s, around⟩
        ⟨.of (.statements [.kwEnd]),
          s1.flagged [(.inDef, true), (.inClass, false), (.inBlock, false), (.inLambda, false)],
          { around with inMethod := true }⟩
  | clausePattern {s : ParseState} {keyword : Token} {r : List Token} {around : Around} :
      s.Next .kwIn keyword r →
      Enters features ⟨.clause, s, around⟩
        ⟨.of .pattern,
          ((s.leaving r).keeping fun book =>
            { book with patternVariables := [] :: book.patternVariables }).flagged
            [(.inKwarg, true)],
          { around with names := [] }⟩
  | hashEntries {s : ParseState} {first : Token} {r : List Token} {around : Around} :
      s.Next .lbrace first r →
      Enters features ⟨.of .pattern, s, around⟩
        ⟨.of .entries,
          (s.leaving r).pastNewlines.keeping fun book =>
            { book with patternKeys := [] :: book.patternKeys },
          { around with keys := [] }⟩
  | entryValue {s : ParseState} {label : Token} {sets : List (List String)} {around : Around} :
      Bookkeeping.enter? (keyOf label) s.book.patternKeys = some sets →
      (∀ kind ∈ s.kind?, kind ∉ [TokenKind.comma, .rbrace, .newline]) →
      Enters features ⟨.entry label, s, around⟩
        ⟨.of .pattern, s.keeping fun book => { book with patternKeys := sets },
          { around with keys := around.keys ++ [keyOf label] }⟩
  | moreEntries {s s1 : ParseState} {label comma : Token} {r1 r2 : List Token} {node : Node}
      {around : Around} : s.Next .label label r1 →
      Derives features (.entry label) (s.leaving r1) node s1 → s1.Next .comma comma r2 →
      Enters features ⟨.of .entries, s, around⟩
        ⟨.of .entries, (s1.leaving r2).pastNewlines,
          { around with
            names := around.names ++ node.boundNames
            keys := around.keys ++ node.key?.toList }⟩

/-! ### What the books say at a place -/

/-- The innermost of some sets of names has exactly the names, none of them twice. -/
def Recorded (names : List String) (sets : List (List String)) : Prop :=
  ∀ set ∈ sets.head?, set = names.reverse ∧ set.Nodup

namespace Recorded

variable {names more : List String} {a b : List (List String)} {name : String}

theorem fresh (sets : List (List String)) : Recorded [] ([] :: sets) := by
  rintro _ ⟨⟩
  exact ⟨rfl, List.nodup_nil⟩

theorem of_eq (h : Recorded names a) (same : b = a) : Recorded names b := same ▸ h

theorem entered (h : Recorded names a) (enters : Entered more a b) :
    Recorded (names ++ more) b := by
  obtain ⟨rfl, nodup⟩ := enters
  cases a with
  | nil => simp [Recorded]
  | cons set outer =>
    obtain ⟨rfl, distinct⟩ := h set rfl
    rintro _ ⟨⟩
    exact ⟨by simp, nodup _ rfl distinct⟩

/-- A name that may not be entered is there once. -/
theorem count_eq_one (h : Recorded names a) (refused : Bookkeeping.enter? name a = none) :
    names.count name = 1 := by
  cases a with
  | nil => cases refused
  | cons set outer =>
    obtain ⟨rfl, distinct⟩ := h set rfl
    have again : name ∈ names := by simpa [Bookkeeping.enter?] using refused
    exact List.count_eq_one_of_mem (List.nodup_reverse.1 distinct) again

end Recorded

/-- The books say what is open around a place. -/
structure Spot.Faithful (spot : Spot) : Prop where
  given : ∀ node ∈ spot.phrase.given, node.boundNames = []
  names : Recorded (spot.around.names.filter isStrict) spot.state.book.patternVariables
  keys : Recorded spot.around.keys spot.state.book.patternKeys
  method : spot.state.book.context.inDef = spot.around.inMethod

variable {features : Features}

/-- A phrase that is no part of a pattern leaves what the patterns have. -/
theorem Phrase.Binds.patterns_eq {phrase : Phrase} {value : phrase.Result}
    {before after : Bookkeeping} (h : phrase.Binds value before after)
    (noNames : phrase.bound value = []) (noKeys : phrase.keys value = []) :
    after.patterns = before.patterns := by
  obtain ⟨names, keys, -⟩ := h
  rw [noNames] at names
  rw [noKeys] at keys
  exact Prod.ext names.eq_of_nil keys.eq_of_nil

/-- A phrase that is opened by another is read with the same patterns open, and in the body of a
method if the other is. -/
theorem Opens.keeps {outer inner : Phrase} {s t : ParseState} (h : Opens features outer s inner t)
    (given : ∀ node ∈ outer.given, node.boundNames = []) :
    (∀ node ∈ inner.given, node.boundNames = []) ∧ t.book.patterns = s.book.patterns ∧
      t.book.context.inDef = s.book.context.inDef := by
  cases h with
  | statement | unassigned | firstOperand | operand | minus | bang | primary | adjacentCall
  | wordCall | parenthesized | condition | definedWord | definedParens | subject | actuals
  | parens | command | argument | plainArgument | signedArgument | value | entry | clause =>
    exact ⟨forall_mem_nil _, rfl, rfl⟩
  | moreStatements _ derived | clauses _ _ derived | moreArguments derived =>
    have patterns := (derived.binds (forall_mem_nil _)).patterns_eq rfl rfl
    exact ⟨forall_mem_nil _, patterns, derived.inDef_eq⟩
  | assigned =>
    exact ⟨forall_mem_nil _, Bookkeeping.patterns_declare _ _,
      congrArg (Flags.inDef ∘ Outline.context) (s.book.outline_declare _)⟩
  | operatorsAfter left =>
    have binds := left.binds (forall_mem_nil _)
    exact ⟨binds.nothing, binds.patterns_eq rfl rfl, left.inDef_eq⟩
  | moreOperators _ _ _ right =>
    have binds := right.binds (forall_mem_nil _)
    refine ⟨forall_mem_singleton.2 ?_, binds.patterns_eq rfl rfl, right.inDef_eq⟩
    exact inherited_boundNames.operatorNode _ (given _ (.head _)) (binds.nothing _ (.head _))
  | callsAfter _ _ receiver =>
    have binds := receiver.binds (forall_mem_nil _)
    exact ⟨binds.nothing, binds.patterns_eq rfl rfl, receiver.inDef_eq⟩
  | lambdaBody _ _ parameters =>
    have inDef := congrArg Flags.inDef parameters.context_eq
    exact ⟨forall_mem_nil _, parameters.patterns_eq, inDef⟩
  | classBody _ outside =>
    -- The flag that the body clears is not set.
    exact ⟨forall_mem_nil _, rfl, outside.symm⟩
  | loopBody _ condition =>
    have patterns := (condition.binds (forall_mem_nil _)).patterns_eq rfl rfl
    exact ⟨forall_mem_nil _, patterns, condition.inDef_eq⟩
  | otherwise _ _ subject _ clauses =>
    have first := (subject.binds (forall_mem_nil _)).patterns_eq rfl rfl
    have second := (clauses.binds (forall_mem_nil _)).patterns_eq rfl rfl
    exact ⟨forall_mem_nil _, second.trans first, clauses.inDef_eq.trans subject.inDef_eq⟩
  | dotCall => exact ⟨by simpa [Phrase.given] using given, rfl, rfl⟩
  | moreCalls _ _ called =>
    have binds := called.binds (by simpa [Phrase.given] using given)
    exact ⟨binds.nothing, binds.patterns_eq rfl rfl, called.inDef_eq⟩
  | blockAfter actuals =>
    have binds := actuals.binds (forall_mem_nil _)
    refine ⟨forall_mem_singleton.2 ?_, binds.patterns_eq rfl rfl, actuals.inDef_eq⟩
    exact inherited_boundNames.recordedCall _ _ _ (by simpa [Phrase.given] using given)
      binds.nothing
  | blockBody _ _ parameters =>
    have inDef := congrArg Flags.inDef parameters.context_eq
    exact ⟨forall_mem_nil _, parameters.patterns_eq, inDef⟩
  | moreClauses clause =>
    exact ⟨forall_mem_nil _, (clause.binds (forall_mem_nil _)).patterns_eq rfl rfl, clause.inDef_eq⟩
  | clauseBody _ pattern same =>
    subst same
    have binds := pattern.binds (forall_mem_nil _)
    exact ⟨forall_mem_nil _, Prod.ext binds.names.of_empty.1 binds.keys.eq_of_nil, rfl⟩

/-- The books keep saying what is open. -/
theorem Enters.faithful {p q : Spot} (h : Enters features p q) (faithful : p.Faithful) :
    q.Faithful := by
  obtain ⟨given, names, keys, method⟩ := faithful
  cases h with
  | opens opens =>
    obtain ⟨given', patterns, inDef⟩ := opens.keeps given
    exact ⟨given', names.of_eq (congrArg Prod.fst patterns),
      keys.of_eq (congrArg Prod.snd patterns), inDef.trans method⟩
  | methodBody _ _ parameters =>
    have patterns := parameters.patterns_eq
    exact ⟨forall_mem_nil _, names.of_eq (congrArg Prod.fst patterns),
      keys.of_eq (congrArg Prod.snd patterns), rfl⟩
  | clausePattern => exact ⟨forall_mem_nil _, .fresh _, keys, method⟩
  | hashEntries => exact ⟨forall_mem_nil _, names, .fresh _, method⟩
  | entryValue enters => exact ⟨forall_mem_nil _, names, keys.entered (.of_enter? enters), method⟩
  | moreEntries _ entry =>
    have binds := entry.binds (forall_mem_nil _)
    refine ⟨forall_mem_nil _, ?_, keys.entered binds.keys, entry.inDef_eq.trans method⟩
    rw [List.filter_append]
    exact names.entered binds.names

end Conformance.Dialect.Grammar
