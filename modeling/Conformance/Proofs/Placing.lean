import Conformance.Dialect.Tokenize

/-! The places of tokens. The positions of a source, in either encoding, are the numbers of
characters before a byte, so that both encodings give the same tokens, and every token stands where
its characters do. -/

namespace Conformance.Dialect

open Text

/-! ### Positions count characters -/

theorem countTo_append (passed more rest : List Char) :
    countTo (bytes (passed ++ more)) (more ++ rest) (bytes passed) passed.length =
      some (rest, (passed ++ more).length) := by
  induction more generalizing passed with
  | nil =>
    cases rest <;> simp [countTo]
  | cons c more ih =>
    have pos : 0 < c.utf8Size := c.utf8Size_pos
    have step := ih (passed ++ [c])
    have assoc : passed ++ [c] ++ more = passed ++ c :: more := by simp
    rw [assoc] at step
    simp only [bytes_append, bytes_cons, bytes_nil, List.length_append, List.length_cons,
      List.length_nil, Nat.add_zero] at step ⊢
    unfold countTo
    rw [if_neg (by omega)]
    simp only [List.cons_append]
    rw [if_pos (by omega)]
    exact step

theorem countP_byteStarts_of_le {start target : Nat} (h : target ≤ start) (cs : List Char) :
    (byteStarts start cs).countP (· < target) = 0 := by
  induction cs generalizing start with
  | nil => simp [byteStarts, h]
  | cons c rest ih =>
    have none := ih (show target ≤ start + c.utf8Size by omega)
    simp only [byteStarts, List.countP_cons, none]
    simp [h]

theorem countP_byteStarts (start : Nat) (passed rest : List Char) :
    (byteStarts start (passed ++ rest)).countP (· < start + bytes passed) = passed.length := by
  induction passed generalizing start with
  | nil => exact countP_byteStarts_of_le (Nat.le_refl start) rest
  | cons c passed ih =>
    have pos : 0 < c.utf8Size := c.utf8Size_pos
    have step := ih (start + c.utf8Size)
    simp only [List.cons_append, byteStarts, List.countP_cons, bytes_cons, List.length_cons,
      ← Nat.add_assoc, step, decide_eq_true_eq]
    rw [if_pos (by omega)]

/-- Positions that have been looked up to the end of `passed`, where `unread` starts. -/
inductive Positions.At (passed unread : List Char) : Positions → Prop where
  | counted :
    At passed unread (.counted (passed ++ unread) unread (bytes passed) passed.length)
  | listed : At passed unread (.listed (passed ++ unread) (byteStarts 0 (passed ++ unread)))

namespace Positions

theorem at_ofSource (source : List Char) (encoding : Encoding) :
    At [] source (ofSource source encoding) := by
  cases encoding
  · exact .counted
  · exact .listed

/-- The offset of a byte is the number of characters before it. -/
theorem At.offset? {passed more rest : List Char} {positions : Positions}
    (h : At passed (more ++ rest) positions) :
    ∃ after, positions.offset? (bytes (passed ++ more)) = some ((passed ++ more).length, after) ∧
      At (passed ++ more) rest after := by
  have source : passed ++ (more ++ rest) = passed ++ more ++ rest := by simp
  cases h with
  | counted =>
    refine ⟨.counted (passed ++ more ++ rest) rest (bytes (passed ++ more))
      (passed ++ more).length, ?_, .counted⟩
    have notBefore : ¬ bytes (passed ++ more) < bytes passed := by
      rw [bytes_append]
      omega
    simp only [Positions.offset?, if_neg notBefore, countTo_append, Option.map_some, source]
  | listed =>
    refine ⟨.listed (passed ++ more ++ rest) (byteStarts 0 (passed ++ more ++ rest)), ?_, .listed⟩
    have count := countP_byteStarts 0 (passed ++ more) rest
    rw [Nat.zero_add] at count
    simp only [Positions.offset?, source, count]

/-- The span of the bytes of a piece of the source is that of its characters. -/
theorem At.span? {passed piece rest : List Char} {positions : Positions}
    (h : At passed (piece ++ rest) positions) :
    ∃ after, positions.span? (bytes passed) (bytes passed + bytes piece) =
        some (.ofLength passed.length piece.length, after) ∧
      At (passed ++ piece) rest after := by
  have here : At passed ([] ++ (piece ++ rest)) positions := h
  obtain ⟨middle, h1, at1⟩ := here.offset?
  rw [List.append_nil] at h1 at1
  obtain ⟨after, h2, at2⟩ := at1.offset?
  refine ⟨after, ?_, at2⟩
  rw [bytes_append] at h2
  have bounds := Span.ofBounds?_eq_some (show passed.length ≤ (passed ++ piece).length by simp)
  simp only [Positions.span?, h1, h2, bounds, Option.bind_eq_bind, Option.bind_some]
  simp [Span.ofLength]

/-- The character before the place up to which the positions have been looked up. -/
theorem At.character {passed rest : List Char} {c : Char} {positions : Positions}
    (h : At (passed ++ [c]) rest positions) :
    positions.character passed.length (c :: rest) = c := by
  cases h <;> simp [Positions.character]

end Positions

/-! ### Tokens stand where their characters do -/

/-- Gives the lexemes from the character number `offset` on their places. -/
def place (offset : Nat) (spaced : Bool) (unread : List Char) :
    List Lexeme → Except LexError (List Token)
  | [] =>
    match unread with
    | [] => .ok []
    | c :: _ => .error (.unexpectedChar c (.ofLength offset 1))
  | lexeme :: more =>
    match lexeme.kind with
    | .blanks | .comment => place (offset + lexeme.text.length) true unread more
    | .openString => .error (.unterminatedString (.ofLength offset 1))
    | .token kind =>
      (place (offset + lexeme.text.length) (kind == .newline) unread more).map fun rest =>
        ⟨kind, .ofLength offset lexeme.text.length, String.ofList lexeme.text, spaced⟩ :: rest

/-- The characters of some lexemes. -/
def lexemesText (found : List Lexeme) : List Char := found.flatMap Lexeme.text

theorem lexemesText_cons (lexeme : Lexeme) (more : List Lexeme) :
    lexemesText (lexeme :: more) = lexeme.text ++ lexemesText more := List.flatMap_cons

theorem placeTokens_eq {passed unread : List Char} {found : List Lexeme} {positions : Positions}
    (h : positions.At passed (lexemesText found ++ unread)) (spaced : Bool) :
    placeTokens positions (bytes passed) spaced unread found =
      place passed.length spaced unread found := by
  induction found generalizing passed positions spaced with
  | nil =>
    cases unread with
    | nil => rfl
    | cons c rest =>
      have here : positions.At passed ([c] ++ rest) := h
      obtain ⟨after, hs, ha⟩ := here.span?
      simp only [bytes_cons, bytes_nil, Nat.add_zero] at hs
      simp only [placeTokens, hs, place, Span.ofLength, ha.character]
  | cons lexeme more ih =>
    rw [lexemesText_cons, List.append_assoc] at h
    obtain ⟨after, hs, ha⟩ := h.span?
    have rest := fun spaced => ih ha spaced
    simp only [bytes_append, List.length_append] at rest
    simp only [placeTokens, hs, place]
    cases lexeme.kind with
    | blanks => exact rest true
    | comment => exact rest true
    | openString => rfl
    | token kind =>
      simp only [rest]
      cases place (passed.length + lexeme.text.length) (kind == .newline) unread more <;> rfl

/-- A source is the text of its lexemes and what is left unread. -/
theorem lexemes_text (cs : List Char) : lexemesText (lexemes cs).1 ++ (lexemes cs).2 = cs := by
  fun_induction lexemes cs with
  | case1 => rfl
  | case2 c rest _ => rfl
  | case3 c rest kind length _ _ more unread found ih =>
    rw [found] at ih
    rw [lexemesText_cons, List.append_assoc, ih, List.take_append_drop]

/-- The tokens of a source, whatever the encoding. -/
def placed (source : List Char) : Except LexError (List Token) :=
  place 0 true (lexemes source).2 (lexemes source).1

theorem tokenize_eq (encoding : Encoding) (source : String) :
    tokenize encoding source = placed source.toList := by
  have start : (Positions.ofSource source.toList encoding).At []
      (lexemesText (lexemes source.toList).1 ++ (lexemes source.toList).2) := by
    rw [lexemes_text]
    exact Positions.at_ofSource source.toList encoding
  exact placeTokens_eq start true

theorem place_slice {source : String} {passed unread : List Char} {found : List Lexeme}
    {spaced : Bool} {tokens : List Token}
    (whole : passed ++ (lexemesText found ++ unread) = source.toList)
    (h : place passed.length spaced unread found = .ok tokens) :
    ∀ token ∈ tokens, token.span.slice source = token.text := by
  induction found generalizing passed spaced tokens with
  | nil =>
    cases unread with
    | nil =>
      cases h
      simp
    | cons c rest => cases h
  | cons lexeme more ih =>
    rw [lexemesText_cons, List.append_assoc] at whole
    have later : passed ++ lexeme.text ++ (lexemesText more ++ unread) = source.toList := by
      rw [List.append_assoc, whole]
    have rest {spaced : Bool} {tokens : List Token}
        (h : place (passed.length + lexeme.text.length) spaced unread more = .ok tokens) :=
      ih later (by rwa [List.length_append])
    simp only [place] at h
    split at h
    · exact rest h
    · exact rest h
    · cases h
    · rename_i kind hk
      cases hr : place (passed.length + lexeme.text.length) (kind == .newline) unread more with
      | error e =>
        rw [hr] at h
        cases h
      | ok others =>
        rw [hr] at h
        cases h
        refine List.forall_mem_cons.2 ⟨?_, rest hr⟩
        simp only [Span.slice, Span.ofLength, ← whole]
        rw [← List.append_assoc, List.take_left', List.drop_left]
        rw [List.length_append]

/-- A token stands where its text does. -/
theorem placed_slice {source : String} {tokens : List Token}
    (h : placed source.toList = .ok tokens) :
    ∀ token ∈ tokens, token.span.slice source = token.text := by
  have whole : [] ++ (lexemesText (lexemes source.toList).1 ++ (lexemes source.toList).2) =
      source.toList := lexemes_text source.toList
  exact place_slice whole h

end Conformance.Dialect
