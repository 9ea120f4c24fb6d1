import Conformance.Proofs.Blocks
import Conformance.Proofs.Idle
import Conformance.Proofs.Places
import Conformance.Proofs.Reread
import Conformance.Proofs.Sizes
import Mathlib.Algebra.Group.Nat.Defs

/-! What can be marked. A path is read back from the way in which it is written, if its kinds are words
and its numbers are not too large; a path that is read has no other kinds. -/

namespace Conformance

namespace Text

-- The conditions compute: deciding a quantifier over characters could run through all of them.
theorem run?_append {p : Char → Bool} {run rest : List Char} (nonempty : run ≠ [])
    (holds : run.all p = true) (stops : rest.head?.any p = false) :
    run? p (run ++ rest) = some (run, rest) := by
  have after : rest.takeWhile p = [] ∧ rest.dropWhile p = rest := by
    cases rest with
    | nil => exact ⟨rfl, rfl⟩
    | cons c more =>
      have stop : p c = false := stops
      exact ⟨List.takeWhile_cons_of_neg (by simp [stop]), List.dropWhile_cons_of_neg (by simp [stop])⟩
  unfold run?
  have holds := List.all_eq_true.1 holds
  rw [List.takeWhile_append_of_pos holds, List.dropWhile_append_of_pos holds, after.1, after.2,
    List.append_nil, if_neg (by simpa using nonempty)]

/-- A run that is read has characters, all of which satisfy the predicate. -/
theorem run?_eq_some {p : Char → Bool} {cs run rest : List Char}
    (found : run? p cs = some (run, rest)) : run ≠ [] ∧ ∀ c ∈ run, p c = true := by
  unfold run? at found
  split at found
  · cases found
  · rename_i nonempty
    cases found
    exact ⟨by simpa using nonempty, fun c mem => List.all_eq_true.1 List.all_takeWhile c mem⟩

theorem pieces_eq_splitOn (separator : Char) (cs : List Char) :
    pieces separator cs = cs.splitOn separator := by
  induction cs with
  | nil => rfl
  | cons c rest ih =>
    rw [pieces, List.splitOn_cons_eq_if_modifyHead, ih]
    simp only [beq_iff_eq]
    split
    · rfl
    · cases split : rest.splitOn separator with
      | nil => exact (List.splitOn_ne_nil _ _ split).elim
      | cons piece more => rfl

theorem mem_of_mem_pieces {separator : Char} {cs piece : List Char}
    (mem : piece ∈ pieces separator cs) : ∀ c ∈ piece, c ∈ cs := by
  induction cs generalizing piece with
  | nil =>
    rw [List.mem_singleton.1 mem]
    exact nofun
  | cons first rest ih =>
    rw [pieces] at mem
    split at mem
    · rcases List.mem_cons.1 mem with rfl | later
      · exact nofun
      · exact fun c inside => .tail _ (ih later c inside)
    · split at mem
      · rw [List.mem_singleton.1 mem]
        exact fun c inside => List.mem_singleton.1 inside ▸ .head _
      · rename_i piece' more split
        rcases List.mem_cons.1 mem with rfl | later
        · intro c inside
          rcases List.mem_cons.1 inside with rfl | inner
          · exact .head _
          · exact .tail _ (ih (split ▸ .head _) c inner)
        · exact fun c inside => .tail _ (ih (split ▸ .tail _ later) c inside)

theorem trimRight_concat (cs : List Char) {last : Char} (h : isBlank last = false) :
    trimRight (cs ++ [last]) = cs ++ [last] := by
  have stops : (last :: cs.reverse).dropWhile isBlank = last :: cs.reverse :=
    List.dropWhile_cons_of_neg (by simp [h])
  unfold trimRight
  rw [List.reverse_append, List.reverse_singleton, List.singleton_append, stops,
    List.reverse_cons, List.reverse_reverse]

theorem length_le_bytes (cs : List Char) : cs.length ≤ bytes cs := by
  induction cs with
  | nil => exact Nat.le_refl _
  | cons c rest ih =>
    have one := Char.utf8Size_pos c
    rw [List.length_cons, bytes_cons]
    omega

/-- A text without line feeds is one line. -/
theorem lines_eq_singleton {cs : List Char} (nonempty : cs ≠ []) (unbroken : '\n' ∉ cs) :
    lines cs = [cs] := by
  fun_induction lines cs with
  | case1 => exact (nonempty rfl).elim
  | case2 => exact (unbroken (.head _)).elim
  | case3 => exact (unbroken (.tail _ (.head _))).elim
  | case4 c rest _ _ none ih =>
    by_cases last : rest = []
    · rw [last]
    · rw [ih last fun mem => unbroken (.tail _ mem)] at none
      cases none
  | case5 c rest _ _ line more some ih =>
    by_cases last : rest = []
    · rw [last] at some
      cases some
    · rw [ih last fun mem => unbroken (.tail _ mem)] at some
      cases some
      rfl

end Text

/-- A step that can be written: its kind is a word, and its number can be read. -/
structure Step.Writable (step : Step) : Prop where
  nonempty : step.kind.toList ≠ []
  word : ∀ c ∈ step.kind.toList, Marking.isWord c = true
  number : step.index + 1 < Text.wordCount

namespace Marking

open Text

/-! ### What is written is read -/

section Step

variable {step : Step}

theorem isPathChar_of_isWord {c : Char} (h : isWord c = true) : isPathChar c = true := by
  unfold isPathChar
  rw [h]
  rfl

theorem isPathChar_of_isDigit {c : Char} (h : c.isDigit = true) : isPathChar c = true := by
  unfold isPathChar
  rw [h]
  simp

/-- The number that is written after a kind, with the slash before it. -/
theorem toList_text (step : Step) :
    step.text.toList = step.kind.toList ++
      if step.index = 0 then [] else '/' :: Nat.toDigits 10 (step.index + 1) := by
  unfold Step.text
  split
  · exact (List.append_nil _).symm
  · rw [String.toList_append, String.toList_append, List.append_assoc]
    exact congrArg _ (congrArg _ Nat.toList_repr)

theorem isPathChar_text (h : step.Writable) : ∀ c ∈ step.text.toList, isPathChar c = true := by
  intro c mem
  rw [toList_text, List.mem_append] at mem
  rcases mem with kind | number
  · exact isPathChar_of_isWord (h.word c kind)
  · split at number
    · cases number
    · rcases List.mem_cons.1 number with rfl | digit
      · rfl
      · exact isPathChar_of_isDigit (Nat.isDigit_of_mem_toDigits (by decide) (by decide) digit)

theorem dot_notMem_text (h : step.Writable) : '.' ∉ step.text.toList := by
  rw [toList_text, List.mem_append]
  rintro (kind | number)
  · cases h.word _ kind
  · split at number
    · cases number
    · rcases List.mem_cons.1 number with same | digit
      · cases same
      · cases Nat.isDigit_of_mem_toDigits (by decide) (by decide) digit

theorem step?_text (h : step.Writable) : step? step.text.toList = some step := by
  have kind : ∀ c ∈ step.kind.toList, (c != '/') = true := by
    intro c mem
    rw [bne_iff_ne]
    rintro rfl
    cases h.word _ mem
  unfold step?
  rw [toList_text, List.takeWhile_append_of_pos kind, List.dropWhile_append_of_pos kind]
  by_cases first : step.index = 0
  · rw [if_pos first, List.takeWhile_nil, List.append_nil, List.dropWhile_nil]
    dsimp only
    rw [if_neg (by simpa using h.nonempty), String.ofList_toList, ← first]
  · rw [if_neg first, List.takeWhile_cons_of_neg (by decide), List.append_nil,
      List.dropWhile_cons_of_neg (by decide)]
    dsimp only
    rw [if_neg (by simpa using h.nonempty), String.ofList_toList]
    have number : word64? (Nat.toDigits 10 (step.index + 1)) = some (step.index + 1) := by
      unfold word64?
      rw [Dialect.Node.digitsValue_toDigits, Dialect.Node.isDigits_toDigits,
        if_pos (by simpa using h.number)]
    rw [number]
    rfl

end Step

variable {path : Path}

/-- The steps of a path, with a dot between two of them. -/
def stepsText (path : Path) : List Char := ['.'].intercalate (path.map fun step => step.text.toList)

theorem pieces_stepsText (nonempty : path ≠ []) (h : ∀ step ∈ path, step.Writable) :
    pieces '.' (stepsText path) = path.map fun step => step.text.toList := by
  rw [pieces_eq_splitOn]
  apply List.splitOn_intercalate
  · intro text mem
    obtain ⟨step, inside, rfl⟩ := List.mem_map.1 mem
    exact dot_notMem_text (h step inside)
  · simpa using nonempty

theorem stepsText_singleton (step : Step) : stepsText [step] = step.text.toList :=
  List.intercalate_singleton

theorem stepsText_cons_cons (first second : Step) (more : Path) :
    stepsText (first :: second :: more) =
      first.text.toList ++ '.' :: stepsText (second :: more) := by
  unfold stepsText
  rw [List.map_cons, List.map_cons, List.intercalate_cons_cons, List.append_assoc]
  rfl

theorem isPathChar_stepsText (h : ∀ step ∈ path, step.Writable) :
    ∀ c ∈ stepsText path, isPathChar c = true := by
  induction path with
  | nil => exact nofun
  | cons step more ih =>
    obtain ⟨first, others⟩ := List.forall_mem_cons.1 h
    cases more with
    | nil =>
      rw [stepsText_singleton]
      exact isPathChar_text first
    | cons second rest =>
      rw [stepsText_cons_cons]
      intro c mem
      rcases List.mem_append.1 mem with text | dotted
      · exact isPathChar_text first c text
      · rcases List.mem_cons.1 dotted with rfl | later
        · rfl
        · exact ih others c later

theorem stepsText_ne_nil (nonempty : path ≠ []) (h : ∀ step ∈ path, step.Writable) :
    stepsText path ≠ [] := by
  cases path with
  | nil => exact (nonempty rfl).elim
  | cons step more =>
    have kind := (h step (.head _)).nonempty
    cases more with
    | nil => simp [stepsText_singleton, toList_text, kind]
    | cons second rest => simp [stepsText_cons_cons]

theorem toList_path_text (nonempty : path ≠ []) : path.text.toList = stepsText path := by
  unfold Path.text stepsText
  rw [if_neg (by simpa using nonempty), String.toList_intercalate, List.map_map]
  rfl

theorem mapM_step? (h : ∀ step ∈ path, step.Writable) :
    (path.map fun step => step.text.toList).mapM step? = some path := by
  induction path with
  | nil => rfl
  | cons step more ih =>
    obtain ⟨first, others⟩ := List.forall_mem_cons.1 h
    rw [List.map_cons, List.mapM_cons, step?_text first, ih others]
    rfl

/-- A path in parentheses is read back. -/
theorem path?_text (nonempty : path ≠ []) (h : ∀ step ∈ path, step.Writable) :
    path? (' ' :: '(' :: stepsText path ++ [')']) = some path := by
  have steps := isPathChar_stepsText h
  have written := stepsText_ne_nil nonempty h
  have blank : run? isSpace (' ' :: '(' :: stepsText path ++ [')']) =
      some ([' '], '(' :: stepsText path ++ [')']) :=
    @run?_append isSpace [' '] _ (by simp) rfl rfl
  have inner : run? isPathChar (stepsText path ++ [')']) = some (stepsText path, [')']) :=
    run?_append written (List.all_eq_true.2 steps) rfl
  unfold path?
  rw [blank]
  simp [inner, skip?, pieces_stepsText nonempty h, mapM_step? h]

/-- The line that gives the range of the first character for the node at a path. -/
def lineTo (path : Path) : String := "~ expression (" ++ path.text ++ ")"

theorem toList_lineTo (nonempty : path ≠ []) :
    (lineTo path).toList =
      ['~'] ++ ([' '] ++ ("expression".toList ++ (' ' :: '(' :: stepsText path ++ [')']))) := by
  unfold lineTo
  rw [String.toList_append, String.toList_append, toList_path_text nonempty]
  simp

theorem decode?_lineTo (nonempty : path ≠ []) (h : ∀ step ∈ path, step.Writable) :
    decode? (lineTo path).toList =
      some ⟨some (.ofLength 0 1), "expression", path, lineTo path⟩ := by
  let tail := ' ' :: '(' :: stepsText path ++ [')']
  have marks : run? isMarker (['~'] ++ ([' '] ++ ("expression".toList ++ tail))) =
      some (['~'], [' '] ++ ("expression".toList ++ tail)) :=
    run?_append (by simp) rfl rfl
  have blank : run? isSpace ([' '] ++ ("expression".toList ++ tail)) =
      some ([' '], "expression".toList ++ tail) :=
    run?_append (by simp) rfl rfl
  have field : run? isWord ("expression".toList ++ tail) = some ("expression".toList, tail) :=
    run?_append (by decide) rfl rfl
  have range : range? 0 (lineTo path).toList =
      some (some (.ofLength 0 1), [' '] ++ ("expression".toList ++ tail)) := by
    have unmarked : skip? '!' (['~'] ++ ([' '] ++ ("expression".toList ++ tail))) = none := rfl
    unfold range?
    rw [toList_lineTo nonempty, unmarked]
    dsimp only
    rw [marks]
    rfl
  have start : (lineTo path).toList.takeWhile isSpace = [] ∧
      (lineTo path).toList.dropWhile isSpace = (lineTo path).toList := by
    rw [toList_lineTo nonempty]
    exact ⟨rfl, rfl⟩
  have read : path? tail = some path := path?_text nonempty h
  unfold decode?
  rw [start.1, start.2]
  refine Option.bind_eq_some_iff.2 ⟨_, range, Option.bind_eq_some_iff.2 ⟨_, blank,
    Option.bind_eq_some_iff.2 ⟨_, field, Option.bind_eq_some_iff.2 ⟨path, read, ?_⟩⟩⟩⟩
  rw [String.ofList_toList, String.ofList_toList]
  rfl

/-- A line that is written is read back, with the path that is written in it. -/
theorem readBlock_lineTo (nonempty : path ≠ []) (h : ∀ step ∈ path, step.Writable) :
    readBlock (lineTo path) =
      ([⟨some (.ofLength 0 1), "expression", path, lineTo path⟩], none) := by
  have text := toList_lineTo nonempty
  have filled : (lineTo path).toList ≠ [] := by
    rw [text]
    simp
  have unbroken : '\n' ∉ (lineTo path).toList := by
    rw [text]
    simp
    intro mem
    cases isPathChar_stepsText h _ mem
  have stripped : strip (lineTo path).toList = (lineTo path).toList := by
    have ends : (lineTo path).toList =
        ("~ expression (".toList ++ stepsText path) ++ [')'] := by
      rw [text]
      simp
    have start : strip (lineTo path).toList = trimRight (lineTo path).toList := by
      rw [text]
      rfl
    rw [start, ends]
    exact trimRight_concat _ (by decide)
  unfold readBlock
  rw [lines_eq_singleton filled unbroken]
  unfold readLines
  rw [stripped]
  dsimp only
  rw [if_neg (by simpa using filled), decode?_lineTo nonempty h]
  rfl

/-! ### What is read -/

/-- The kind of a step that is read stands in the text. -/
theorem kind_of_step? {segment : List Char} {step : Step} (read : step? segment = some step) :
    ∀ c ∈ step.kind.toList, c ∈ segment := by
  have kind : step.kind = String.ofList (segment.takeWhile (· != '/')) := by
    unfold step? at read
    dsimp only at read
    split at read
    · cases read
    · split at read
      · cases read
        rfl
      · obtain ⟨number, -, found⟩ := Option.bind_eq_some_iff.1 read
        unfold Step.nth? at found
        split at found
        · cases found
        · cases found
          rfl
  intro c mem
  rw [kind, String.toList_ofList] at mem
  exact (List.takeWhile_prefix _).mem mem

theorem exists_of_mem_mapM {α β : Type} {f : α → Option β} {items : List α} {results : List β}
    (mapped : items.mapM f = some results) {result : β} (mem : result ∈ results) :
    ∃ item ∈ items, f item = some result := by
  induction items generalizing results with
  | nil =>
    cases mapped
    cases mem
  | cons item more ih =>
    rw [List.mapM_cons] at mapped
    obtain ⟨first, here, rest⟩ := Option.bind_eq_some_iff.1 mapped
    obtain ⟨others, later, same⟩ := Option.bind_eq_some_iff.1 rest
    cases same
    rcases List.mem_cons.1 mem with rfl | among
    · exact ⟨item, .head _, here⟩
    · obtain ⟨found, inside, led⟩ := ih later among
      exact ⟨found, .tail _ inside, led⟩

/-- A path that is read has no other characters in its kinds than those of paths. -/
theorem kinds_of_path? {rest : List Char} {path : Path} (read : path? rest = some path) :
    ∀ step ∈ path, ∀ c ∈ step.kind.toList, isPathChar c = true := by
  unfold path? at read
  split at read
  · cases read
    exact nofun
  · obtain ⟨⟨_, opening⟩, -, read⟩ := Option.bind_eq_some_iff.1 read
    obtain ⟨inner, -, read⟩ := Option.bind_eq_some_iff.1 read
    obtain ⟨⟨segments, closing⟩, run, read⟩ := Option.bind_eq_some_iff.1 read
    obtain ⟨after, -, read⟩ := Option.bind_eq_some_iff.1 read
    split at read
    · intro step mem c inside
      obtain ⟨segment, piece, stepped⟩ := exists_of_mem_mapM read mem
      exact (run?_eq_some run).2 c (mem_of_mem_pieces piece c (kind_of_step? stepped c inside))
    · cases read

theorem kinds_of_decode? {line : List Char} {marking : Marking}
    (read : decode? line = some marking) :
    ∀ step ∈ marking.path, ∀ c ∈ step.kind.toList, isPathChar c = true := by
  obtain ⟨⟨range, _⟩, -, read⟩ := Option.bind_eq_some_iff.1 read
  obtain ⟨⟨_, _⟩, -, read⟩ := Option.bind_eq_some_iff.1 read
  obtain ⟨⟨field, _⟩, -, read⟩ := Option.bind_eq_some_iff.1 read
  obtain ⟨path, found, read⟩ := Option.bind_eq_some_iff.1 read
  cases read
  exact kinds_of_path? found

/-- No marking of a block has other characters in the kinds of its path than those of paths. -/
theorem kinds_of_readBlock {block : String} {marking : Marking}
    (mem : marking ∈ (readBlock block).1) :
    ∀ step ∈ marking.path, ∀ c ∈ step.kind.toList, isPathChar c = true := by
  rw [readBlock, readLines_eq] at mem
  obtain ⟨line, -, decoded⟩ := List.mem_filterMap.1 mem
  exact kinds_of_decode? decoded

end Marking

/-! ### The nodes of a tree -/

namespace Dialect

/-- Every kind but one has a name that markings can spell. -/
theorem NodeKind.name_word {kind : NodeKind} (other : kind ≠ .definedCheck) :
    kind.name.toList ≠ [] ∧ ∀ c ∈ kind.name.toList, Marking.isWord c = true := by
  rw [← List.all_eq_true]
  cases kind with
  | definedCheck => exact (other rfl).elim
  | _ => decide

variable {root placed : Placed Node}

/-- A line leads to a node if no `defined?` is on the way to it. -/
theorem marked_of_way (size : Tree.size root ≤ Text.wordCount)
    (below : placed ∈ Tree.nodes root) (inner : placed ≠ root)
    (way : ∀ above, Tree.OnWay root placed above → above.node.kind ≠ .definedCheck) :
    ∃ path, Marking.readBlock (Marking.lineTo path) =
        ([⟨some (.ofLength 0 1), "expression", path, Marking.lineTo path⟩], none) ∧
      Tree.resolve root path = some placed := by
  obtain ⟨path, led, steps⟩ := Tree.exists_path (Tree.mem_nodes.1 below)
  have nonempty : path ≠ [] := by
    rintro rfl
    cases led
    exact inner rfl
  have writable : ∀ step ∈ path, step.Writable := by
    intro step mem
    obtain ⟨bound, above, onWay, kind⟩ := steps step mem
    obtain ⟨named, word⟩ := NodeKind.name_word (way above onWay)
    have name : step.kind = above.node.kind.name := kind.symm
    refine ⟨?_, ?_, Nat.lt_of_lt_of_le bound size⟩
    · rwa [name]
    · rwa [name]
  exact ⟨path, Marking.readBlock_lineTo nonempty writable, led⟩

/-- No marking leads past a `defined?` below the root. -/
theorem unmarked_of_definedCheck {above : Placed Node} (onWay : Tree.OnWay root placed above)
    (definedCheck : above.node.kind = .definedCheck) (block : String) :
    ∀ marking ∈ (Marking.readBlock block).1, Tree.resolve root marking.path ≠ some placed := by
  intro marking mem led
  obtain ⟨step, inside, named⟩ := Placed.kind_mem_of_resolve led onWay
  have kind : step.kind = "defined?" := by
    rw [named]
    exact congrArg NodeKind.name definedCheck
  have question : '?' ∈ step.kind.toList := by
    rw [kind]
    decide
  cases Marking.kinds_of_readBlock mem step inside '?' question

/-- In the tree for an accepted source, which like every text in memory takes less than `2 ^ 63` bytes,
there is a line for every node except the root and what is in a `defined?` below the root: the path in
it leads to that very node, and not only to an equal one. To those in a `defined?`, itself included, no
marking leads. -/
theorem Parser.nodes_marked {parser : Parser} {source : String} {tree : Node}
    (accepted : (parser.parse source).1 = .ok (some tree))
    (inMemory : Text.bytes source.toList < 2 ^ 63) :
    let root : Placed Node := { node := tree }
    (Tree.nodes root).map Placed.node = Tree.nodes tree ∧
      (∀ path, (Tree.resolve root path).map Placed.node = Tree.resolve tree path) ∧
      ∀ placed ∈ Tree.nodes root, placed ≠ root →
        ((∀ above, Tree.OnWay root placed above → above.node.kind ≠ .definedCheck) →
          ∃ path, Marking.readBlock (Marking.lineTo path) =
              ([⟨some (.ofLength 0 1), "expression", path, Marking.lineTo path⟩], none) ∧
            Tree.resolve root path = some placed) ∧
        ∀ above, Tree.OnWay root placed above → above.node.kind = .definedCheck →
          ∀ block, ∀ marking ∈ (Marking.readBlock block).1,
            Tree.resolve root marking.path ≠ some placed := by
  intro root
  have size : Tree.size root ≤ Text.wordCount := by
    have nodes : tree.size ≤ 2 * source.toList.length + 1 := Parser.size_le accepted
    have characters := Text.length_le_bytes source.toList
    show tree.size ≤ 18446744073709551616
    omega
  refine ⟨Placed.nodes_map root, Placed.resolve_map root, fun placed below inner => ⟨?_, ?_⟩⟩
  · exact marked_of_way size below inner
  · intro above onWay definedCheck block
    exact unmarked_of_definedCheck onWay definedCheck block

/-- Two arguments that are equal nodes are marked apart. -/
theorem Parser.nodes_marked_twins :
    let source := "foo(1, 1)"
    Text.bytes source.toList < 2 ^ 63 ∧
      ∃ tree, (Parser.newest.parse source).1 = .ok (some tree) ∧
        let root : Placed Node := { node := tree }
        ∃ placed ∈ Tree.nodes root, placed.place = [1] ∧
          ∃ path, Marking.readBlock (Marking.lineTo path) =
              ([⟨some (.ofLength 0 1), "expression", path, Marking.lineTo path⟩], none) ∧
            Tree.resolve root path = some placed := by
  intro source
  have inMemory : Text.bytes source.toList < 2 ^ 63 := by decide
  have found : (Parser.newest.parse source).1.toOption.join.any fun tree =>
      tree.children.length == 2 && tree.children.all fun child =>
        child.kind == .int && child.children.isEmpty := by
    decide +kernel
  obtain ⟨tree, accepted, shape⟩ := Parser.accepted_of_any found
  simp only [Bool.and_eq_true, beq_iff_eq, List.all_eq_true, List.isEmpty_iff] at shape
  obtain ⟨two, plain⟩ := shape
  let root : Placed Node := { node := tree }
  let second : Placed Node := ⟨tree.children[1], [1]⟩
  have bound : 1 < (Tree.children tree).length := Nat.lt_of_lt_of_eq (by decide) two.symm
  have parent : Tree.Parent root second := List.mem_mapIdx.2 ⟨1, bound, rfl⟩
  have below : second ∈ Tree.nodes root := Tree.mem_nodes.2 (.single parent)
  -- Nothing but the arguments is below the call.
  have way : ∀ above, Tree.OnWay root second above → above.node.kind ≠ .definedCheck := by
    intro above onWay
    rcases (Tree.mem_nodes.1 onWay.high).cases_head with same | ⟨argument, child, rest⟩
    · exact (onWay.inner same.symm).elim
    · obtain ⟨index, held, -⟩ := Placed.place_of_parent child
      obtain ⟨int, bare⟩ := plain argument.node (List.mem_of_getElem? held)
      rcases rest.cases_head with same | ⟨deeper, none, -⟩
      · rw [← same, int]
        decide
      · obtain ⟨_, held, -⟩ := Placed.place_of_parent none
        rw [show Tree.children argument.node = [] from bare] at held
        cases held
  have inner : second ≠ root := fun same => nomatch congrArg Placed.place same
  have marked := (Parser.nodes_marked accepted inMemory).2.2 second below inner
  exact ⟨inMemory, tree, accepted, second, below, rfl, marked.1 way⟩

/-- The `defined?` in a negation is such a node: it is searched and found, but no marking leads to it. -/
theorem Parser.definedCheck_unmarked :
    let source := "!defined?(x)"
    ∃ tree, (Parser.newest.parse source).1 = .ok (some tree) ∧
      let root : Placed Node := { node := tree }
      ∃ placed ∈ Tree.nodes root, placed ≠ root ∧
        ∀ block, ∀ marking ∈ (Marking.readBlock block).1,
          Tree.resolve root marking.path ≠ some placed := by
  intro source
  have found : (Parser.newest.parse source).1.toOption.join.any fun tree =>
      tree.children.head?.any fun child => child.kind == .definedCheck := by
    decide +kernel
  obtain ⟨tree, accepted, shape⟩ := Parser.accepted_of_any found
  obtain ⟨operand, first, kind⟩ := (Option.any_eq_true _ _).1 shape
  let root : Placed Node := { node := tree }
  have held : tree.children[0]? = some operand := by
    rw [← List.head?_eq_getElem?]
    exact first
  obtain ⟨bound, same⟩ := List.getElem?_eq_some_iff.1 held
  have parent : Tree.Parent root ⟨operand, [0]⟩ :=
    List.mem_mapIdx.2 ⟨0, bound, by rw [← same]; rfl⟩
  have onWay := Tree.onWay_child .refl parent
  refine ⟨tree, accepted, ⟨operand, [0]⟩, onWay.high, onWay.inner, fun block => ?_⟩
  exact unmarked_of_definedCheck onWay (beq_iff_eq.1 kind) block

end Dialect

end Conformance
