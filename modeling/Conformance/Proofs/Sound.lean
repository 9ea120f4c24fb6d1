import Conformance.Dialect.Grammar
import Conformance.Proofs.Spelling

/-! Sound trees: every node has a location that will not change and a range in the source, and its
literals can be written. Each node that the grammar builds from sound parts is sound. -/

namespace Conformance.Dialect

/-- A property of a node and of all nodes below it. -/
inductive Node.Every (p : Node → Prop) : Node → Prop where
  | intro {node : Node} (here : p node) (below : ∀ child ∈ node.children, Node.Every p child) :
    Node.Every p node

theorem Node.every_iff {p : Node → Prop} {node : Node} :
    node.Every p ↔
      p node ∧ ∀ child ∈ node.allChildren, ∀ below ∈ child.node?, below.Every p := by
  constructor
  · rintro ⟨here, below⟩
    refine ⟨here, fun child hc node hn => below node ?_⟩
    exact List.mem_filterMap.2 ⟨child, hc, hn⟩
  · rintro ⟨here, below⟩
    refine .intro here fun node hn => ?_
    obtain ⟨child, hc, he⟩ := List.mem_filterMap.1 hn
    exact below child hc node he

theorem Node.Every.mono {p q : Node → Prop} (h : ∀ node, p node → q node) {node : Node}
    (every : node.Every p) : node.Every q := by
  induction every with
  | intro here below ih => exact .intro (h _ here) ih

/-- A literal that its written form gives back: integers are of the form that their size demands,
and symbols have names. -/
def Child.Writable : Child → Prop
  | .node _ | .str _ | .nil => True
  | .int value => fitsWord value = true
  | .bigInt text => Child.integer? text.toList = some (.bigInt text)
  | .sym name => IsName name.toList

/-- What holds of a node in a source of `n` characters. -/
structure Node.Lawful (n : Nat) (node : Node) : Prop where
  frozen : ∃ location, node.location? = some location ∧ location.frozen = true
  range_le : node.range.stop ≤ n
  writable : ∀ child ∈ node.allChildren, child.Writable

/-- A tree of lawful nodes. -/
def Node.Sound (n : Nat) (node : Node) : Prop := node.Every (Node.Lawful n)

def Child.Sound (n : Nat) : Child → Prop
  | .node below => below.Sound n
  | child => child.Writable

theorem integerValue?_digits {text : List Char} (h : Text.isDigits text = true) :
    integerValue? text = some (Text.digitsValue text : Int) := by
  unfold integerValue?
  split
  · rename_i digits
    simp [Text.isDigits, Char.isDigit] at h
  · rw [if_pos h]

theorem integerValue?_minus {digits : List Char} (h : Text.isDigits digits = true) :
    integerValue? ('-' :: digits) = some (-(Text.digitsValue digits : Int)) := by
  simp [integerValue?, h]

namespace Child

@[simp] theorem sound_node {n : Nat} {node : Node} : (Child.node node).Sound n ↔ node.Sound n :=
  Iff.rfl

@[simp] theorem sound_sym {n : Nat} {name : String} :
    (Child.sym name).Sound n ↔ IsName name.toList := Iff.rfl

@[simp] theorem sound_str {n : Nat} {value : String} : (Child.str value).Sound n := trivial

@[simp] theorem sound_int {n : Nat} {value : Int} :
    (Child.int value).Sound n ↔ fitsWord value = true := Iff.rfl

@[simp] theorem sound_nil {n : Nat} : Child.nil.Sound n := trivial

@[simp] theorem sound_ofOption {n : Nat} {node : Option Node} :
    (Child.ofOption node).Sound n ↔ ∀ found ∈ node, found.Sound n := by
  cases node <;> simp [ofOption]

theorem Sound.writable {n : Nat} {child : Child} (h : child.Sound n) : child.Writable := by
  cases child with
  | node below => exact trivial
  | _ => exact h

theorem integer?_sound {n : Nat} {text : List Char} {child : Child}
    (h : Child.integer? text = some child) : child.Sound n := by
  obtain ⟨value, hv, rfl⟩ := Option.map_eq_some_iff.1 h
  split
  · rename_i fits
    exact fits
  · rename_i large
    show Child.integer? (String.ofList text).toList = some (.bigInt (String.ofList text))
    rw [String.toList_ofList, Child.integer?, hv, Option.map_some, if_neg large]

end Child

namespace Node

variable {n : Nat}

theorem Sound.lawful {node : Node} (h : node.Sound n) : node.Lawful n := by
  cases h with
  | intro here below => exact here

theorem Sound.range_le {node : Node} (h : node.Sound n) : node.range.stop ≤ n := h.lawful.range_le

theorem Sound.child {node child : Node} (h : node.Sound n) (hc : child ∈ node.children) :
    child.Sound n := by
  cases h with
  | intro here below => exact below child hc

/-- A node from the grammar is sound if its children are and its range is in the source. -/
theorem located_sound {kind : NodeKind} {children : List Child} {whole : Option Span}
    {fields : List (String × Option Span)} (range : ∀ span ∈ whole, span.stop ≤ n)
    (sound : ∀ child ∈ children, child.Sound n) :
    (located kind children whole fields).Sound n := by
  refine every_iff.2 ⟨⟨⟨_, rfl, rfl⟩, ?_, fun child hc => (sound child hc).writable⟩, ?_⟩
  · cases whole with
    | none => exact Nat.zero_le n
    | some span => exact range span rfl
  · intro child hc below hb
    cases child with
    | node node =>
      cases hb
      exact sound _ hc
    | _ => cases hb

theorem recording_sound {node : Node} (h : node.Sound n) (flags : Flags) :
    (node.recording flags).Sound n := by
  obtain ⟨kind, children, location, context⟩ := node
  cases h with
  | intro here below => exact .intro ⟨here.frozen, here.range_le, here.writable⟩ below

end Node

theorem Span.join_stop_le {a b : Span} {n : Nat} (ha : a.stop ≤ n) (hb : b.stop ≤ n) :
    (a.join b).stop ≤ n := Nat.max_le.2 ⟨ha, hb⟩

/-! ### The nodes that rules build -/

namespace Grammar

variable {n : Nat}

theorem leaf_sound (kind : NodeKind) {token : Token} (h : token.span.stop ≤ n) :
    (leaf kind token).Sound n :=
  Node.located_sound (by simpa using h) (by simp)

theorem named_sound {kind : NodeKind} {children : List Child} {token : Token}
    (h : token.span.stop ≤ n) (sound : ∀ child ∈ children, child.Sound n) :
    (named kind children token).Sound n :=
  Node.located_sound (by simpa using h) sound

theorem variableNode_sound {token : Token} (h : token.Lawful n)
    (name : IsName token.text.toList) : (variableNode token).Sound n :=
  named_sound h.stop_le (by simpa using name)

theorem parameterNode_sound {token : Token} (h : token.Lawful n)
    (name : IsName token.text.toList) : (parameterNode token).Sound n :=
  named_sound h.stop_le (by simpa using name)

theorem constantNode_sound {token : Token} (h : token.Lawful n)
    (name : IsName token.text.toList) : (constantNode token).Sound n :=
  named_sound h.stop_le (by simpa using name)

theorem noParametersNode_sound : noParametersNode.Sound n :=
  Node.located_sound (by simp) (by simp)

theorem parametersNode_sound {parameters : List Node} {first last : Span}
    (sound : ∀ node ∈ parameters, node.Sound n) (h1 : first.stop ≤ n) (h2 : last.stop ≤ n) :
    (parametersNode parameters first last).Sound n :=
  Node.located_sound (by simpa using Span.join_stop_le h1 h2) (by simpa using sound)

theorem through_stop_le {first last : Node} (h1 : first.Sound n) (h2 : last.Sound n) :
    (first.through last).stop ≤ n := Span.join_stop_le h1.range_le h2.range_le

/-- The statements of a body as one node. -/
theorem sequence_sound {body : List Node} (sound : ∀ node ∈ body, node.Sound n) :
    ∀ node ∈ sequence body, node.Sound n := by
  match body with
  | [] => simp [sequence]
  | [only] => simpa [sequence] using sound
  | first :: second :: more =>
    simp only [sequence, Option.mem_def, Option.some.injEq, forall_eq']
    refine Node.located_sound ?_ (by simpa using sound)
    have last : ((second :: more).getLast (by simp)).Sound n :=
      sound _ (.tail _ (List.getLast_mem _))
    simpa using through_stop_le (sound first (.head _)) last

theorem closureNode_sound {target parameters : Node} {numbering : Option Numbering}
    {body : List Node} {whole : Span} {first last : Token} (h1 : target.Sound n)
    (h2 : parameters.Sound n) (sound : ∀ node ∈ body, node.Sound n)
    (used : ∀ highest ordinary, numbering = some (.body highest ordinary) → highest ≤ 9)
    (range : whole.stop ≤ n) :
    (closureNode target parameters numbering body whole first last).Sound n := by
  have within := sequence_sound sound
  unfold closureNode
  split
  · rename_i highest ordinary
    have bound := used _ _ rfl
    have fits : fitsWord ((highest : Int) + 1) = true := by
      simp only [fitsWord, Bool.and_eq_true, decide_eq_true_eq]
      omega
    exact Node.located_sound (by simpa using range) (by simpa using ⟨h1, fits, within⟩)
  · exact Node.located_sound (by simpa using range) (by simpa using ⟨h1, h2, within⟩)

structure Actuals.Sound (n : Nat) (actuals : Actuals) : Prop where
  nodes : ∀ node ∈ actuals.nodes, node.Sound n
  last : ∀ span ∈ actuals.last, span.stop ≤ n

theorem callNode_sound {receiver : Option Node} {dot : Option Token} {selector : Token}
    {actuals : Actuals} (hr : ∀ node ∈ receiver, node.Sound n) (hs : selector.Lawful n)
    (name : IsName selector.text.toList) (ha : actuals.Sound n) :
    (callNode receiver dot selector actuals).Sound n := by
  refine Node.located_sound ?_ ?_
  · simp only [Option.mem_def, Option.some.injEq, forall_eq']
    refine Span.join_stop_le ?_ ?_
    · cases receiver with
      | none => exact hs.stop_le
      | some node => exact (hr node rfl).range_le
    · cases hl : actuals.last with
      | none => exact hs.stop_le
      | some span => exact ha.last span hl
  · have nodes := ha.nodes
    simpa using ⟨hr, name, nodes⟩

/-- The kind of a binary operator has only one text. -/
theorem mem_fixedTexts_of_bindingPower {kind : TokenKind} {power : Nat} {cs : List Char}
    (h : bindingPower? kind = some power) (spells : kind.Spells cs) :
    (kind, String.ofList cs) ∈ TokenKind.fixedTexts := by
  cases kind <;> first
    | exact spells
    | cases h

/-- The text of a binary operator is a name. -/
theorem isName_of_bindingPower {kind : TokenKind} {power : Nat} {cs : List Char}
    (h : bindingPower? kind = some power) (spells : kind.Spells cs) : IsName cs := by
  have member := mem_fixedTexts_of_bindingPower h spells
  have all : ∀ fixed ∈ TokenKind.fixedTexts,
      (bindingPower? fixed.1).isSome → IsName fixed.2.toList := by decide
  have name := all _ member (by simp [h])
  rwa [String.toList_ofList] at name

theorem operatorNode_sound {left right : Node} {operator : Token} {power : Nat}
    (h1 : left.Sound n) (h2 : right.Sound n) (ho : operator.Lawful n)
    (h : bindingPower? operator.kind = some power) :
    (operatorNode left operator right).Sound n := by
  have whole := through_stop_le h1 h2
  have name := isName_of_bindingPower h ho.spells
  unfold operatorNode
  dsimp only
  split
  · exact Node.located_sound (by simpa using whole) (by simpa using ⟨h1, h2⟩)
  · exact Node.located_sound (by simpa using whole) (by simpa using ⟨h1, h2⟩)
  · exact Node.located_sound (by simpa using whole) (by simpa using ⟨h1, name, h2⟩)

theorem signNode_sound {selector : String} {sign : Token} {operand : Node}
    (name : IsName selector.toList) (hs : sign.span.stop ≤ n) (ho : operand.Sound n) :
    (signNode selector sign operand).Sound n :=
  Node.located_sound (by simpa using Span.join_stop_le hs ho.range_le) (by simpa using ⟨ho, name⟩)

theorem stringNode_sound {token : Token} (h : token.Lawful n) : (stringNode token).Sound n :=
  Node.located_sound (by simpa using h.stop_le) (by simp)

theorem symbolNode_sound {token : Token} (h : token.Lawful n) (kind : token.kind = .symbol) :
    (symbolNode token).Sound n := by
  have name : IsName token.text.toList.tail := h.spells_as kind
  exact Node.located_sound (by simpa using h.stop_le) (by simpa using name)

end Grammar

end Conformance.Dialect
