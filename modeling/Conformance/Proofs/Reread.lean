import Conformance.Dialect.Node.Printer
import Conformance.Proofs.Sound

/-! Reading written trees. Whatever the layout, the text of a tree whose literals can be written is
read as a tree, and that is the tree itself but for its strings: the reader knows the escapes of a
tab, a line feed, a quote and a backslash, and takes any other escape for what follows the
backslash. -/

namespace Conformance.Dialect.Node

open Text

/-! ### Strings -/

/-- A character that the reader finds again in a written string. -/
def PlainChar (c : Char) : Prop := c = '\t' ∨ c = '\n' ∨ isUnseen c = false

instance (c : Char) : Decidable (PlainChar c) :=
  inferInstanceAs (Decidable (c = '\t' ∨ c = '\n' ∨ isUnseen c = false))

/-- What the reader finds in place of a character. -/
def rereadChar (c : Char) : List Char := if PlainChar c then [c] else (escape c).tail

/-- What the reader finds in place of a string. -/
def rereadString (value : String) : String := String.ofList (value.toList.flatMap rereadChar)

theorem readString?_plain {c : Char} (h1 : c ≠ '"') (h2 : c ≠ '\\') (rest : List Char) :
    readString? (c :: rest) = (readString? rest).map fun found => (c :: found.1, found.2) := by
  rw [readString?.eq_def]
  split <;> simp_all

theorem readString?_plains {cs : List Char} (h : ∀ c ∈ cs, c ≠ '"' ∧ c ≠ '\\')
    (rest : List Char) :
    readString? (cs ++ rest) = (readString? rest).map fun found => (cs ++ found.1, found.2) := by
  induction cs with
  | nil => simp
  | cons c cs ih =>
    obtain ⟨⟨h1, h2⟩, others⟩ := List.forall_mem_cons.1 h
    rw [List.cons_append, readString?_plain h1 h2, ih others, Option.map_map]
    rfl

theorem digitChar_plain : ∀ d < 16, Nat.digitChar d ≠ '"' ∧ Nat.digitChar d ≠ '\\' := by decide

theorem hexDigits_plain (n : Nat) : ∀ c ∈ hexDigits n, c ≠ '"' ∧ c ≠ '\\' := by
  induction n using Nat.strongRecOn with
  | ind n ih =>
    intro c hc
    rw [hexDigits, Nat.toDigits_eq_if (by decide)] at hc
    split at hc
    · rename_i small
      rw [List.mem_singleton.1 hc]
      exact digitChar_plain n small
    · obtain before | last := List.mem_append.1 hc
      · exact ih (n / 16) (by omega) c before
      · rw [List.mem_singleton.1 last]
        exact digitChar_plain (n % 16) (by omega)

theorem readString?_escape (c : Char) (rest : List Char) :
    readString? (escape c ++ rest) =
      (readString? rest).map fun found => (rereadChar c ++ found.1, found.2) := by
  unfold rereadChar escape
  by_cases nul : c = '\x00'
  · subst nul
    rfl
  by_cases tab : c = '\t'
  · subst tab
    rfl
  by_cases ret : c = '\r'
  · subst ret
    rfl
  by_cases feed : c = '\n'
  · subst feed
    rfl
  by_cases quoted : c = '"'
  · subst quoted
    rfl
  by_cases slash : c = '\\'
  · subst slash
    rfl
  simp only [if_neg nul, if_neg tab, if_neg ret, if_neg feed, if_neg quoted, if_neg slash]
  by_cases unseen : isUnseen c = true
  · have odd : ¬ PlainChar c := by simp [PlainChar, tab, feed, unseen]
    rw [if_pos unseen, if_neg odd]
    have code : ∀ d ∈ '\x7b' :: (hexDigits c.toNat ++ ['\x7d']), d ≠ '"' ∧ d ≠ '\\' := by
      intro d hd
      simp only [List.mem_cons, List.mem_append, List.not_mem_nil, or_false] at hd
      obtain rfl | hex | rfl := hd
      · decide
      · exact hexDigits_plain c.toNat d hex
      · decide
    show (readString? ('\x7b' :: (hexDigits c.toNat ++ ['\x7d']) ++ rest)).map _ = _
    rw [readString?_plains code, Option.map_map]
    rfl
  · have plain : PlainChar c := by simp [PlainChar, unseen]
    rw [if_neg unseen, if_pos plain]
    exact readString?_plain quoted slash rest

theorem readString?_quoted (value rest : List Char) :
    readString? (value.flatMap escape ++ '"' :: rest) = some (value.flatMap rereadChar, rest) := by
  induction value with
  | nil => rfl
  | cons c value ih =>
    rw [List.flatMap_cons, List.append_assoc, readString?_escape, ih, List.flatMap_cons]
    rfl

theorem rereadChar_eq_iff {c : Char} : rereadChar c = [c] ↔ PlainChar c := by
  unfold rereadChar
  split
  · rename_i plain
    simp [plain]
  · rename_i odd
    refine iff_of_false (fun same => ?_) odd
    simp only [PlainChar, not_or, Bool.not_eq_false] at odd
    obtain ⟨tab, feed, unseen⟩ := odd
    unfold escape at same
    by_cases nul : c = '\x00'
    · subst nul
      cases same
    by_cases ret : c = '\r'
    · subst ret
      cases same
    by_cases quoted : c = '"'
    · subst quoted
      cases unseen
    by_cases slash : c = '\\'
    · subst slash
      cases unseen
    simp [nul, tab, ret, feed, quoted, slash, unseen] at same

theorem rereadChar_ne_nil (c : Char) : rereadChar c ≠ [] := by
  unfold rereadChar escape
  split
  · simp
  · rename_i odd
    simp only [PlainChar, not_or, Bool.not_eq_false] at odd
    obtain ⟨tab, feed, unseen⟩ := odd
    repeat' split
    all_goals simp_all

theorem length_le_reread (cs : List Char) : cs.length ≤ (cs.flatMap rereadChar).length := by
  induction cs with
  | nil => exact Nat.le_refl _
  | cons c cs ih =>
    have pos := List.length_pos_iff.2 (rereadChar_ne_nil c)
    rw [List.flatMap_cons, List.length_append, List.length_cons]
    omega

/-- A string is found again exactly when all its characters are. -/
theorem flatMap_rereadChar_eq_iff {cs : List Char} :
    cs.flatMap rereadChar = cs ↔ ∀ c ∈ cs, PlainChar c := by
  induction cs with
  | nil => simp
  | cons c cs ih =>
    rw [List.flatMap_cons, List.forall_mem_cons, ← ih, ← rereadChar_eq_iff]
    constructor
    · intro same
      have pos := List.length_pos_iff.2 (rereadChar_ne_nil c)
      have others := length_le_reread cs
      have total := congrArg List.length same
      rw [List.length_append, List.length_cons] at total
      have one : (rereadChar c).length = [c].length := by
        rw [List.length_singleton]
        omega
      exact List.append_inj (show _ = [c] ++ cs from same) one
    · rintro ⟨first, others⟩
      rw [first, others]
      rfl

/-! ### Items -/

theorem items_nil : items [] = [] := by
  rw [items]
  rfl

theorem items_congr {a b : List Char} (h : trimLeft a = trimLeft b) : items a = items b := by
  rw [items, items]
  split <;> split
  · rfl
  · simp_all
  · simp_all
  · simp_all

/-- Blanks before an item do not matter. -/
theorem items_blanks {blanks : List Char} (h : ∀ c ∈ blanks, isBlank c = true)
    (cs : List Char) : items (blanks ++ cs) = items cs :=
  items_congr (List.dropWhile_append_of_pos h)

theorem items_cons {c : Char} (h : isBlank c = false) (cs : List Char) :
    items (c :: cs) = itemAt c cs :: items (itemAt c cs).rest := by
  have trimmed : trimLeft (c :: cs) = c :: cs := by simp [trimLeft, h]
  rw [items]
  split
  · simp_all
  · rename_i d rest found
    rw [trimmed] at found
    cases found
    rfl

/-- A text at which an atom before it ends. -/
def Stops (cs : List Char) : Prop := ∀ c ∈ cs.head?, isAtomChar c = false

theorem takeWhile_name {name rest : List Char} (h : ∀ c ∈ name, isAtomChar c = true)
    (stops : Stops rest) : (name ++ rest).takeWhile isAtomChar = name := by
  rw [List.takeWhile_append_of_pos h]
  cases rest with
  | nil => simp
  | cons c rest =>
    rw [List.takeWhile_cons, if_neg (by simp [stops c rfl]), List.append_nil]

theorem dropWhile_name {name rest : List Char} (h : ∀ c ∈ name, isAtomChar c = true)
    (stops : Stops rest) : (name ++ rest).dropWhile isAtomChar = rest := by
  rw [List.dropWhile_append_of_pos h]
  cases rest with
  | nil => rfl
  | cons c rest => rw [List.dropWhile_cons, if_neg (by simp [stops c rfl])]

theorem items_opening {name rest : List Char} (h : ∀ c ∈ name, isAtomChar c = true)
    (stops : Stops rest) :
    items ('(' :: (name ++ rest)) =
      ⟨.opening name, '(' :: (name ++ rest), rest⟩ :: items rest := by
  have item : itemAt '(' (name ++ rest) = ⟨.opening name, '(' :: (name ++ rest), rest⟩ := by
    simp only [itemAt, takeWhile_name h stops, dropWhile_name h stops, if_true]
  rw [items_cons (by decide), item]

theorem items_closing (rest : List Char) :
    items (')' :: rest) = ⟨.closing, ')' :: rest, rest⟩ :: items rest := items_cons (by decide) rest

theorem items_symbol {name rest : List Char} (h : ∀ c ∈ name, isAtomChar c = true)
    (stops : Stops rest) :
    items (':' :: (name ++ rest)) = ⟨.symbol name, ':' :: (name ++ rest), rest⟩ :: items rest := by
  have item : itemAt ':' (name ++ rest) = ⟨.symbol name, ':' :: (name ++ rest), rest⟩ := by
    simp only [itemAt, takeWhile_name h stops, dropWhile_name h stops]
    rfl
  rw [items_cons (by decide), item]

/-- A quoted string, read up to its closing quote. -/
theorem items_quote {cs value rest : List Char} (found : readString? cs = some (value, rest)) :
    items ('"' :: cs) = ⟨.string value, '"' :: cs, rest⟩ :: items rest := by
  have item : itemAt '"' cs = ⟨.string value, '"' :: cs, rest⟩ := by
    simp only [itemAt, found]
    rfl
  rw [items_cons (by decide), item]

theorem items_string (value rest : List Char) :
    items (quoteChars value ++ rest) =
      ⟨.string (value.flatMap rereadChar), quoteChars value ++ rest, rest⟩ :: items rest := by
  have text : quoteChars value ++ rest = '"' :: (value.flatMap escape ++ '"' :: rest) := by
    simp [quoteChars]
  rw [text, items_quote (readString?_quoted value rest)]

theorem items_atom {c : Char} {cs rest : List Char} (h : ∀ d ∈ c :: cs, isAtomChar d = true)
    (colon : c ≠ ':') (quoted : c ≠ '"') (stops : Stops rest) :
    items (c :: (cs ++ rest)) = ⟨.atom (c :: cs), c :: (cs ++ rest), rest⟩ :: items rest := by
  obtain ⟨first, others⟩ := List.forall_mem_cons.1 h
  simp only [isAtomChar, Bool.not_eq_true', Bool.or_eq_false_iff, beq_eq_false_iff_ne] at first
  obtain ⟨⟨blank, opening⟩, closing⟩ := first
  have item : itemAt c (cs ++ rest) = ⟨.atom (c :: cs), c :: (cs ++ rest), rest⟩ := by
    simp only [itemAt, takeWhile_name others stops, dropWhile_name others stops, if_neg opening,
      if_neg closing, if_neg colon, if_neg quoted]
  rw [items_cons blank, item]

/-! ### Integers -/

/-- What an integer's text consists of: a minus or a digit, and digits. -/
theorem integerValue?_text {text : List Char} {value : Int} (h : integerValue? text = some value) :
    ∃ c digits, text = c :: digits ∧ (c = '-' ∨ c.isDigit = true) ∧
      ∀ d ∈ digits, d.isDigit = true := by
  unfold integerValue? at h
  split at h
  · rename_i digits
    split at h
    · rename_i run
      simp only [isDigits, Bool.and_eq_true, List.all_eq_true] at run
      exact ⟨'-', digits, rfl, .inl rfl, run.2⟩
    · cases h
  · split at h
    · rename_i run
      cases text with
      | nil => simp [isDigits] at run
      | cons c digits =>
        simp only [isDigits, List.isEmpty_cons, Bool.not_false, Bool.true_and, List.all_cons,
          Bool.and_eq_true, List.all_eq_true] at run
        exact ⟨c, digits, rfl, .inr run.1, run.2⟩
    · cases h

theorem digitsValue_toDigits (n : Nat) : digitsValue (Nat.toDigits 10 n) = n :=
  Nat.ofDigitChars_ten_toDigits

theorem isDigits_toDigits (n : Nat) : isDigits (Nat.toDigits 10 n) = true := by
  have nonempty : Nat.toDigits 10 n ≠ [] := Nat.toDigits_ne_nil
  simp only [isDigits, Bool.and_eq_true, Bool.not_eq_true', List.isEmpty_eq_false_iff,
    List.all_eq_true]
  exact ⟨nonempty, fun c hc => Nat.isDigit_of_mem_toDigits (by decide) (by decide) hc⟩

/-- An integer is the value of its text. -/
theorem integerValue?_toString (value : Int) :
    integerValue? (toString value).toList = some value := by
  cases value with
  | ofNat n =>
    have text : (toString (Int.ofNat n)).toList = Nat.toDigits 10 n := Nat.toList_repr
    rw [text, integerValue?_digits (isDigits_toDigits n), digitsValue_toDigits]
    rfl
  | negSucc n =>
    have text : (toString (Int.negSucc n)).toList = '-' :: Nat.toDigits 10 (n + 1) := by
      show ("-" ++ Nat.repr (n + 1)).toList = _
      rw [String.toList_append, Nat.toList_repr]
      rfl
    rw [text, integerValue?_minus (isDigits_toDigits _), digitsValue_toDigits]
    rfl

/-! ### Trees -/

mutual

/-- The tree that the reader finds in the text of a tree. -/
def reread : Node → Node
  | .mk kind children _ _ => .bare kind (rereadChildren children)

def rereadChildren : List Child → List Child
  | [] => []
  | child :: rest => rereadChild child :: rereadChildren rest

def rereadChild : Child → Child
  | .node node => .node (reread node)
  | .str value => .str (rereadString value)
  | child => child

end

/-- The literals of a node can be written. -/
def Legible (node : Node) : Prop := ∀ child ∈ node.allChildren, child.Writable

/-- A child that is no string with a character that the reader does not find again. -/
def PlainChild : Child → Prop
  | .str value => ∀ c ∈ value.toList, PlainChar c
  | _ => True

/-- The strings of a node have only characters that the reader finds again. -/
def Plain (node : Node) : Prop := ∀ child ∈ node.allChildren, PlainChild child

theorem isName_kind (kind : NodeKind) : IsName kind.name.toList := by
  cases kind <;> decide

theorem openNode_name (kind : NodeKind) (rest : List Char) :
    openNode kind.name.toList rest = .ok { kind } := by
  rw [openNode, String.ofList_toList, NodeKind.ofName?_name]

theorem build_atom {text rest : List Char} {child : Child} {value : Int} {parent : OpenNode}
    {outer : List OpenNode} (h : integerValue? text = some value)
    (hc : Child.integer? text = some child) (stops : Stops rest) :
    build parent outer (items (text ++ rest)) = build (parent.add child) outer (items rest) := by
  obtain ⟨c, digits, rfl, first, others⟩ := integerValue?_text h
  have chars : ∀ d ∈ c :: digits, isAtomChar d = true := by
    refine List.forall_mem_cons.2 ⟨?_, fun d hd => isAtomChar_of_isDigit (others d hd)⟩
    obtain rfl | digit := first
    · decide
    · exact isAtomChar_of_isDigit digit
  have special : c ≠ ':' ∧ c ≠ '"' ∧ c ≠ 'n' := by
    refine ⟨?_, ?_, ?_⟩ <;> rintro rfl <;> revert first <;> decide
  have atom : atomChild? (c :: digits) = some child := by
    rw [atomChild?, if_neg (fun eq => special.2.2 (List.cons.inj eq).1), hc]
  rw [List.cons_append, items_atom chars special.1 special.2.1 stops]
  simp only [build, atom]

theorem build_nil {rest : List Char} {parent : OpenNode} {outer : List OpenNode}
    (stops : Stops rest) :
    build parent outer (items (['n', 'i', 'l'] ++ rest)) =
      build (parent.add .nil) outer (items rest) := by
  have atom : IsName ['n', 'i', 'l'] := by decide
  show build parent outer (items ('n' :: (['i', 'l'] ++ rest))) = _
  rw [items_atom atom.2 (by decide) (by decide) stops]
  rfl

/-- The reader adds a literal as it was written, and a string as it finds it again. -/
theorem build_literal {child : Child} {rest : List Char} {parent : OpenNode}
    {outer : List OpenNode} (literal : child.node? = none) (writable : child.Writable)
    (stops : Stops rest) :
    build parent outer (items (literalChars child ++ rest)) =
      build (parent.add (rereadChild child)) outer (items rest) := by
  cases child with
  | node node => cases literal
  | int value =>
    have fits : fitsWord value = true := writable
    have child : Child.integer? (toString value).toList = some (.int value) := by
      rw [Child.integer?, integerValue?_toString, Option.map_some, if_pos fits]
    exact build_atom (integerValue?_toString value) child stops
  | bigInt text =>
    have child : Child.integer? text.toList = some (.bigInt text) := writable
    obtain ⟨value, hv, -⟩ := Option.map_eq_some_iff.1 child
    exact build_atom hv child stops
  | str value =>
    show build parent outer (items (quoteChars value.toList ++ rest)) = _
    rw [items_string]
    rfl
  | sym name =>
    obtain ⟨nonempty, chars⟩ : IsName name.toList := writable
    show build parent outer (items (':' :: (name.toList ++ rest))) = _
    rw [items_symbol chars stops]
    simp only [build, List.isEmpty_eq_false_iff.2 nonempty, String.ofList_toList]
    rfl
  | nil => exact build_nil stops

theorem stops_cons {c : Char} (h : isAtomChar c = false) (rest : List Char) : Stops (c :: rest) := by
  rintro d hd
  cases hd
  exact h

theorem writeChild_stops (indent : Option Nat) (child : Child) (rest : List Char) :
    Stops (writeChild indent child rest) := by
  cases child with
  | node node => cases indent <;> exact stops_cons (by decide) _
  | _ => exact stops_cons (by decide) _

theorem writeChildren_stops (indent : Option Nat) (children : List Child) (tail : List Char) :
    Stops (writeChildren indent children (')' :: tail)) := by
  cases children with
  | nil => exact stops_cons (by decide) tail
  | cons child rest => exact writeChild_stops indent child _

theorem writeChild_literal {child : Child} (literal : child.node? = none) (indent : Option Nat)
    (tail : List Char) :
    writeChild indent child tail = [' '] ++ (literalChars child ++ tail) := by
  cases child with
  | node node => cases literal
  | _ => rfl

theorem gap_blank (indent : Option Nat) : ∀ c ∈ gap indent, isBlank c = true := by
  cases indent with
  | none => exact List.forall_mem_singleton.2 rfl
  | some depth =>
    refine List.forall_mem_cons.2 ⟨by decide, fun c hc => ?_⟩
    rw [List.eq_of_mem_replicate hc]
    decide

/-- A node with children that are added one after another. -/
theorem close_add (children : List Child) (parent : OpenNode) :
    (children.foldl OpenNode.add parent).close =
      .bare parent.kind (parent.children.reverse ++ children) := by
  induction children generalizing parent with
  | nil => simp [OpenNode.close]
  | cons child rest ih =>
    rw [List.foldl_cons, ih]
    simp [OpenNode.add]

mutual

/-- The reader adds the node that it finds to the innermost open node, whatever follows. -/
theorem build_node (indent : Option Nat) (parent : OpenNode) (outer : List OpenNode)
    (tail : List Char) : (node : Node) → node.Every Legible →
      build parent outer (items (node.write indent tail)) =
        build (parent.add (.node node.reread)) outer (items tail)
  | .mk kind children location context, legible => by
    obtain ⟨writable, below⟩ := every_iff.1 legible
    have stops := writeChildren_stops indent children tail
    have inside := build_children indent { kind } (parent :: outer) tail children writable below
    rw [write, items_opening (isName_kind kind).2 stops]
    simp only [build, openNode_name, Except.bind, bind]
    rw [inside, items_closing]
    simp only [build, close_add]
    rfl

theorem build_children (indent : Option Nat) (parent : OpenNode) (outer : List OpenNode)
    (tail : List Char) : (children : List Child) → (∀ child ∈ children, child.Writable) →
      (∀ child ∈ children, ∀ node ∈ child.node?, node.Every Legible) →
      build parent outer (items (writeChildren indent children (')' :: tail))) =
        build ((rereadChildren children).foldl OpenNode.add parent) outer (items (')' :: tail))
  | [], _, _ => rfl
  | child :: rest, writable, below => by
    obtain ⟨first, others⟩ := List.forall_mem_cons.1 writable
    obtain ⟨node_below, others_below⟩ := List.forall_mem_cons.1 below
    have after := build_children indent (parent.add (rereadChild child)) outer tail rest others
      others_below
    rw [writeChildren, rereadChildren, List.foldl_cons, ← after]
    cases child with
    | node node =>
      rw [writeChild, items_blanks (gap_blank indent)]
      exact build_node (indent.map (· + 1)) parent outer _ node (node_below node rfl)
    | _ =>
      rw [writeChild_literal rfl, items_blanks (List.forall_mem_singleton.2 rfl)]
      exact build_literal rfl first (writeChildren_stops indent rest tail)

end

/-- The text of a tree, in either layout, is read as the tree that the reader finds in it. -/
theorem read_write {node : Node} (legible : node.Every Legible) (indent : Option Nat) :
    read (String.ofList (node.write indent [])) = .ok node.reread := by
  have found : ofItems (items (node.write indent [])) = .ok node.reread := by
    obtain ⟨kind, children, location, context⟩ := node
    obtain ⟨writable, below⟩ := every_iff.1 legible
    have stops := writeChildren_stops indent children []
    have inside := build_children indent { kind } [] [] children writable below
    rw [write, items_opening (isName_kind kind).2 stops]
    simp only [ofItems, openNode_name, Except.bind, bind]
    rw [inside, items_closing]
    simp only [build, close_add, items_nil]
    rfl
  rw [read, String.toList_ofList, found]
  rfl

theorem rereadString_beq {value : String} :
    (rereadString value == value) = true ↔ ∀ c ∈ value.toList, PlainChar c := by
  rw [beq_iff_eq, ← flatMap_rereadChar_eq_iff, rereadString, ← String.toList_inj,
    String.toList_ofList]

mutual

/-- The tree that the reader finds is the same exactly when all strings are found again. -/
theorem same_reread : (node : Node) → (same node.reread node = true ↔ node.Every Plain)
  | .mk kind children location context => by
    rw [every_iff, reread, bare, same, Bool.and_eq_true, sameChildren_reread children]
    simp only [beq_self_eq_true, true_and, forall_and]
    rfl

theorem sameChildren_reread : (children : List Child) →
    (sameChildren (rereadChildren children) children = true ↔
      ∀ child ∈ children, PlainChild child ∧ ∀ node ∈ child.node?, node.Every Plain)
  | [] => by simp [rereadChildren, sameChildren]
  | child :: rest => by
    rw [List.forall_mem_cons, ← sameChildren_reread rest, rereadChildren, sameChildren,
      Bool.and_eq_true]
    refine and_congr ?_ Iff.rfl
    cases child with
    | node node => simpa [rereadChild, sameChild, PlainChild, Child.node?] using same_reread node
    | str value => simpa [rereadChild, sameChild, PlainChild, Child.node?] using rereadString_beq
    | _ => simp [rereadChild, sameChild, PlainChild, Child.node?]

end

end Conformance.Dialect.Node
