import Conformance.Dialect.Node

/-! The reading of written trees. A text is first cut into items: parentheses with the kind that
follows an opening one, strings, symbols and other atoms. A stack of open nodes then turns the
items into a tree. -/

namespace Conformance.Dialect

inductive ReadFault where
  | expectedOpening
  | unknownKind (name : String)
  | expectedSymbolName
  | unexpectedAtom (text : String)
  | expectedClosing
  | unterminatedString
  | trailingInput
  deriving DecidableEq

/-- A fault, and the byte offset where it was found. -/
structure ReadError where
  fault : ReadFault
  offset : Nat
  deriving DecidableEq

def ReadFault.message : ReadFault → String
  | expectedOpening => "expected `(`"
  | unknownKind name => s!"unknown node type `{name}`"
  | expectedSymbolName => "expected a symbol name"
  | unexpectedAtom text => s!"unexpected `{text}`"
  | expectedClosing => "expected `)`"
  | unterminatedString => "unterminated string"
  | trailingInput => "trailing input"

def ReadError.message (e : ReadError) : String :=
  e.fault.message ++ " at offset " ++ toString e.offset

namespace Node

/-- A character of an atom. -/
def isAtomChar (c : Char) : Bool := !(Text.isBlank c || c == '(' || c == ')')

/-- What a backslash and a character stand for in a string. -/
def unescaped : Char → Char
  | 'n' => '\n'
  | 't' => '\t'
  | c => c

/-- The value of a string up to its closing quote, and what follows the quote. -/
def readString? : List Char → Option (List Char × List Char)
  | [] => none
  | '"' :: rest => some ([], rest)
  | ['\\'] => none
  | '\\' :: c :: rest => (readString? rest).map fun (value, rest) => (unescaped c :: value, rest)
  | c :: rest => (readString? rest).map fun (value, rest) => (c :: value, rest)

inductive ItemKind where
  | opening (kind : List Char)
  | closing
  | string (value : List Char)
  | openString
  | symbol (name : List Char)
  | atom (text : List Char)
  deriving DecidableEq

/-- An item of a written tree, with the text from its start on and the text after it. -/
structure Item where
  kind : ItemKind
  start : List Char
  rest : List Char
  deriving DecidableEq

/-- The item that starts with the character `c`, which is not blank. -/
def itemAt (c : Char) (cs : List Char) : Item :=
  let name := cs.takeWhile isAtomChar
  let rest := cs.dropWhile isAtomChar
  if c = '(' then ⟨.opening name, c :: cs, rest⟩
  else if c = ')' then ⟨.closing, c :: cs, cs⟩
  else if c = ':' then ⟨.symbol name, c :: cs, rest⟩
  else if c = '"' then
    match readString? cs with
    | some (value, rest) => ⟨.string value, c :: cs, rest⟩
    | none => ⟨.openString, c :: cs, []⟩
  else ⟨.atom (c :: name), c :: cs, rest⟩

theorem length_readString? {cs value rest : List Char}
    (h : readString? cs = some (value, rest)) : rest.length < cs.length := by
  fun_induction readString? cs generalizing value rest with
  | case1 => simp at h
  | case2 => simp_all
  | case3 => simp at h
  | case4 c cs ih =>
    obtain ⟨⟨value', rest'⟩, hu, he⟩ := Option.map_eq_some_iff.1 h
    have hlt := ih hu
    simp only [Prod.mk.injEq] at he
    obtain ⟨_, rfl⟩ := he
    simp only [List.length_cons]
    omega
  | case5 c cs _ _ _ ih =>
    obtain ⟨⟨value', rest'⟩, hu, he⟩ := Option.map_eq_some_iff.1 h
    have hlt := ih hu
    simp only [Prod.mk.injEq] at he
    obtain ⟨_, rfl⟩ := he
    simp only [List.length_cons]
    omega

theorem length_itemAt_rest (c : Char) (cs : List Char) :
    (itemAt c cs).rest.length ≤ cs.length := by
  have hd : (cs.dropWhile isAtomChar).length ≤ cs.length := (List.dropWhile_suffix _).length_le
  simp only [itemAt]
  split
  · exact hd
  · split
    · exact Nat.le_refl _
    · split
      · exact hd
      · split
        · split
          · rename_i h
            exact Nat.le_of_lt (length_readString? h)
          · exact Nat.zero_le _
        · exact hd

def items (cs : List Char) : List Item :=
  match found : Text.trimLeft cs with
  | [] => []
  | c :: rest =>
    have : (itemAt c rest).rest.length < cs.length := by
      have h1 := length_itemAt_rest c rest
      have h2 : (Text.trimLeft cs).length ≤ cs.length := (List.dropWhile_suffix _).length_le
      rw [found, List.length_cons] at h2
      omega
    itemAt c rest :: items (itemAt c rest).rest
termination_by cs.length

/-- A node that is being read, with the children that it has so far, the last one first. -/
structure OpenNode where
  kind : NodeKind
  children : List Child := []

def OpenNode.add (parent : OpenNode) (child : Child) : OpenNode :=
  { parent with children := child :: parent.children }

def OpenNode.close (parent : OpenNode) : Node := .bare parent.kind parent.children.reverse

structure FaultAt where
  fault : ReadFault
  rest : List Char
  deriving DecidableEq

/-- Opens a node of the named kind. -/
def openNode (name : List Char) (rest : List Char) : Except FaultAt OpenNode :=
  match NodeKind.ofName? (String.ofList name) with
  | some kind => .ok { kind }
  | none => .error ⟨.unknownKind (String.ofList name), rest⟩

def atomChild? (text : List Char) : Option Child :=
  if text = ['n', 'i', 'l'] then some .nil else Child.integer? text

/-- Reads items up to the one that closes the outermost open node. `parent` is the innermost open
node and `outer` are those around it. -/
def build (parent : OpenNode) (outer : List OpenNode) :
    List Item → Except FaultAt (Node × List Item)
  | [] => .error ⟨.expectedClosing, []⟩
  | item :: more =>
    match item.kind with
    | .opening name => do
      let child ← openNode name item.rest
      build child (parent :: outer) more
    | .closing =>
      match outer with
      | [] => .ok (parent.close, more)
      | grandparent :: outer => build (grandparent.add (.node parent.close)) outer more
    | .string value => build (parent.add (.str (String.ofList value))) outer more
    | .openString => .error ⟨.unterminatedString, item.start⟩
    | .symbol name =>
      if name.isEmpty then .error ⟨.expectedSymbolName, item.rest⟩
      else build (parent.add (.sym (String.ofList name))) outer more
    | .atom text =>
      match atomChild? text with
      | some child => build (parent.add child) outer more
      | none => .error ⟨.unexpectedAtom (String.ofList text), item.rest⟩

/-- The tree that the items of a text write. -/
def ofItems : List Item → Except FaultAt Node
  | [] => .error ⟨.expectedOpening, []⟩
  | first :: more =>
    match first.kind with
    | .opening name => do
      let root ← openNode name first.rest
      let (node, left) ← build root [] more
      match left with
      | [] => pure node
      | item :: _ => .error ⟨.trailingInput, item.start⟩
    | _ => .error ⟨.expectedOpening, first.start⟩

def read (text : String) : Except ReadError Node :=
  (ofItems (items text.toList)).mapError fun failure =>
    ⟨failure.fault, Text.bytes text.toList - Text.bytes failure.rest⟩

end Node

end Conformance.Dialect
