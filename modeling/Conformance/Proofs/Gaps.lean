import Conformance.Proofs.Spelling

/-! What stands between tokens. A source is the texts of its tokens with gaps between them, and a
gap is made of blanks and comments; the span of a token counts the characters before its text and in
it, and so cuts this text out of the bytes of the source. -/

namespace Conformance

/-! ### The bytes of a span -/

namespace Text

theorem size_utf8Encode (cs : List Char) : cs.utf8Encode.size = bytes cs := by
  induction cs with
  | nil => rfl
  | cons c rest ih =>
    rw [List.utf8Encode_cons, ByteArray.size_append, ih, List.utf8Encode_singleton,
      List.size_toByteArray, String.length_utf8EncodeChar, bytes_cons]

end Text

theorem extract_between (before middle after : ByteArray) :
    (before ++ middle ++ after).extract before.size (before ++ middle).size = middle := by
  have inside : (before ++ (middle ++ after)).extract (before.size + 0)
      (before.size + middle.size) = middle := by
    rw [ByteArray.extract_append_size_add, ByteArray.extract_append_eq_left rfl]
  rwa [ByteArray.append_assoc, ByteArray.size_append]

/-- The bytes in the range of a span are those of the characters that it covers. -/
theorem Span.extract_byteRange (s : Span) (source : String) :
    source.toUTF8.extract (s.byteRange source).1 (s.byteRange source).2 =
      (s.slice source).toUTF8 := by
  -- The source is cut at the end of the span, and what is before that at the start.
  have cut : source.toUTF8 = (source.toList.take s.stop).utf8Encode ++
      (source.toList.drop s.stop).utf8Encode := by
    rw [← List.utf8Encode_append, List.take_append_drop, ← String.toByteArray_ofList,
      String.ofList_toList, String.toUTF8_eq_toByteArray]
  have inner : (source.toList.take s.stop).utf8Encode = (source.toList.take s.start).utf8Encode ++
      ((source.toList.take s.stop).drop s.start).utf8Encode := by
    have start : source.toList.take s.start = (source.toList.take s.stop).take s.start := by
      rw [List.take_take, Nat.min_eq_left s.ordered]
    rw [start, ← List.utf8Encode_append, List.take_append_drop]
  unfold byteRange slice
  rw [← Text.size_utf8Encode, ← Text.size_utf8Encode, cut, inner, extract_between,
    String.toUTF8_eq_toByteArray, String.toByteArray_ofList]

namespace Dialect

open Text

/-! ### Gaps -/

/-- What is skipped before a text: runs of blanks, and comments, which end where a line does. -/
inductive Gap (after : List Char) : List Char → Prop
  | nil : Gap after []
  | blanks {run more : List Char} : run ≠ [] → (∀ c ∈ run, c ∈ [' ', '\t', '\r']) →
      Gap after more → Gap after (run ++ more)
  | comment {body more : List Char} : '\n' ∉ body → (∀ c ∈ (more ++ after).head?, c = '\n') →
      Gap after more → Gap after ('#' :: (body ++ more))

/-- The tokens of a text that follows the characters `passed`, with the gap before each of them and
the one after the last. The token before the text, if there is one, is of the kind `previous`. -/
inductive Interleaved : List Char → Option TokenKind → List Char → List Token → Prop
  | last {passed gap : List Char} {previous : Option TokenKind} : Gap [] gap →
      Interleaved passed previous gap []
  | token {passed gap text rest : List Char} {previous : Option TokenKind} {token : Token}
      {tokens : List Token} :
      Gap (text ++ rest) gap → token.text = String.ofList text → token.kind.Spells text →
      token.span = .ofLength (passed ++ gap).length text.length →
      (token.spaced = true ↔ previous = none ∨ gap ≠ [] ∨ previous = some .newline) →
      Interleaved (passed ++ gap ++ text) (some token.kind) rest tokens →
      Interleaved passed previous (gap ++ (text ++ rest)) (token :: tokens)

theorem Gap.append {first second after : List Char} (before : Gap (second ++ after) first)
    (later : Gap after second) : Gap after (first ++ second) := by
  induction before with
  | nil => exact later
  | blanks nonempty blank _ ih =>
    rw [List.append_assoc]
    exact .blanks nonempty blank ih
  | comment line ends _ ih =>
    rw [List.cons_append, List.append_assoc]
    exact .comment line (by rwa [List.append_assoc]) ih

theorem drop_runLength (p : Char → Bool) (cs : List Char) :
    cs.drop (runLength p cs) = cs.dropWhile p := by
  have split := List.takeWhile_append_dropWhile (p := p) (l := cs)
  calc cs.drop (runLength p cs)
      = (cs.takeWhile p ++ cs.dropWhile p).drop (runLength p cs) := by rw [split]
    _ = cs.dropWhile p := List.drop_left

section Trivia

variable {cs : List Char} {length : Nat}

/-- The run of blanks that is skipped is a gap. -/
theorem Gap.of_blanks (found : longestMatch cs = some (.blanks, length)) :
    Gap (cs.drop length) (cs.take length) := by
  obtain ⟨rule, mem, rfl⟩ := longestMatch_mem found
  obtain rfl : rule = LexicalRule.blanks := by simpa [lexicalRules] using mem
  have nonempty : cs.take (LexicalRule.blanks cs) ≠ [] := by
    have pos := longestMatch_pos found
    cases cs with
    | nil => exact absurd pos (by decide)
    | cons c rest => simpa using Nat.ne_of_gt pos
  have blank : ∀ c ∈ cs.take (LexicalRule.blanks cs), c ∈ [' ', '\t', '\r'] := by
    intro c mem
    rw [LexicalRule.blanks, take_runLength] at mem
    have holds := List.all_eq_true.1 List.all_takeWhile c mem
    simpa [isLineBlank, or_assoc] using holds
  have gap : Gap (cs.drop (LexicalRule.blanks cs)) (cs.take (LexicalRule.blanks cs) ++ []) :=
    .blanks nonempty blank .nil
  rwa [List.append_nil] at gap

/-- The comment that is skipped is a gap: it ends where its line does. -/
theorem Gap.of_comment (found : longestMatch cs = some (.comment, length)) :
    Gap (cs.drop length) (cs.take length) := by
  have pos := longestMatch_pos found
  obtain ⟨rule, mem, rfl⟩ := longestMatch_mem found
  obtain rfl : rule = LexicalRule.comment := by simpa [lexicalRules] using mem
  unfold LexicalRule.comment at pos ⊢
  split at pos
  · rename_i rest
    have line : '\n' ∉ rest.takeWhile (· != '\n') :=
      fun mem => absurd (List.all_eq_true.1 List.all_takeWhile _ mem) (by decide)
    have ends : ∀ c ∈ (rest.dropWhile (· != '\n')).head?, c = '\n' := by
      intro c first
      have stops := List.head?_dropWhile_not (· != '\n') rest
      rw [first] at stops
      simpa using stops
    rw [Nat.add_comm, List.take_succ_cons, List.drop_succ_cons, take_runLength, drop_runLength]
    have gap := Gap.comment line ends .nil
    rwa [List.append_nil] at gap
  · exact absurd pos (Nat.lt_irrefl 0)

end Trivia

/-! ### The tokens and the gaps of a source -/

/-- The lexemes of a text, given the gap that has been skipped before it. -/
theorem place_interleaved {passed skipped cs : List Char} {previous : Option TokenKind}
    {spaced : Bool} {tokens : List Token} (gap : Gap cs skipped)
    (blank : spaced = true ↔ previous = none ∨ skipped ≠ [] ∨ previous = some .newline)
    (h : place (passed ++ skipped).length spaced (lexemes cs).2 (lexemes cs).1 = .ok tokens) :
    Interleaved passed previous (skipped ++ cs) tokens := by
  fun_induction lexemes cs generalizing passed skipped previous spaced tokens with
  | case1 =>
    cases h
    rw [List.append_nil]
    exact .last gap
  | case2 c rest _ => cases h
  | case3 c rest kind length matched pos more unread found ih =>
    rw [found] at ih
    have nonempty : (c :: rest).take length ≠ [] := by simpa using Nat.ne_of_gt pos
    have split := List.take_append_drop length (c :: rest)
    simp only [place] at h
    generalize taken : (c :: rest).take length = text at *
    generalize left : (c :: rest).drop length = after at *
    rw [← split] at gap ⊢
    have skip (run : Gap after text)
        (h : place ((passed ++ skipped).length + text.length) true unread more = .ok tokens) :
        Interleaved passed previous (skipped ++ (text ++ after)) tokens := by
      rw [← List.append_assoc]
      refine @ih passed (skipped ++ text) previous true tokens (gap.append run) ?_ ?_
      · exact ⟨fun _ => .inr (.inl (by simp [nonempty])), fun _ => rfl⟩
      · rwa [← List.append_assoc, List.length_append]
    cases kind with
    | blanks => exact skip (taken ▸ left ▸ Gap.of_blanks matched) h
    | comment => exact skip (taken ▸ left ▸ Gap.of_comment matched) h
    | openString => cases h
    | token kind =>
      dsimp only at h
      cases hr : place ((passed ++ skipped).length + text.length) (kind == .newline) unread
        more with
      | error e =>
        rw [hr] at h
        cases h
      | ok others =>
        rw [hr] at h
        cases h
        have spells : kind.Spells text := by
          obtain ⟨rule, mem, rfl⟩ := longestMatch_mem matched
          exact taken ▸ lexicalRules_spell mem pos
        refine .token gap rfl spells rfl blank ?_
        refine @ih (passed ++ skipped ++ text) [] (some kind) (kind == .newline) others .nil ?_ ?_
        · simp
        · rwa [List.append_nil, @List.length_append _ _ text]

/-- The tokens of a source stand in it with gaps between them, and the bytes in the range of the
span of each of them are its text. -/
theorem tokenize_interleaved {encoding : Encoding} {source : String} {tokens : List Token}
    (h : tokenize encoding source = .ok tokens) :
    Interleaved [] none source.toList tokens ∧ ∀ token ∈ tokens,
      source.toUTF8.extract (token.span.byteRange source).1 (token.span.byteRange source).2 =
        token.text.toUTF8 := by
  rw [tokenize_eq] at h
  constructor
  · refine @place_interleaved [] [] _ none true _ .nil ?_ h
    exact ⟨fun _ => .inl rfl, fun _ => rfl⟩
  · intro token mem
    rw [token.span.extract_byteRange source, placed_slice h token mem]

/-- A comment and a string of more bytes than characters. -/
theorem tokenize_interleaved_wide :
    ∃ tokens, tokenize .utf8 "#é\n \"né\" +x" = .ok tokens ∧
      tokens.map (fun token => (token.text, token.span.start, token.spaced)) =
        [("\n", 2, true), ("\"né\"", 4, true), ("+", 9, true), ("x", 10, false)] ∧
      Interleaved [] none "#é\n \"né\" +x".toList tokens ∧ ∀ token ∈ tokens,
        "#é\n \"né\" +x".toUTF8.extract (token.span.byteRange "#é\n \"né\" +x").1
          (token.span.byteRange "#é\n \"né\" +x").2 = token.text.toUTF8 := by
  have read : (tokenize .utf8 "#é\n \"né\" +x").toOption = some
      [⟨.newline, .ofLength 2 1, "\n", true⟩, ⟨.string, .ofLength 4 4, "\"né\"", true⟩,
        ⟨.plus, .ofLength 9 1, "+", true⟩, ⟨.identifier, .ofLength 10 1, "x", false⟩] := by
    decide +kernel
  cases found : tokenize .utf8 "#é\n \"né\" +x" with
  | error e =>
    rw [found] at read
    cases read
  | ok tokens =>
    rw [found] at read
    refine ⟨tokens, rfl, ?_, tokenize_interleaved found⟩
    rw [Option.some.inj read]
    rfl

end Dialect

end Conformance
