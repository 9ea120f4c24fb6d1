import Conformance.Proofs.Consumption

/-! Spans in order. The tokens of a source stand one after the other, and what a phrase reads comes
after what was read before: `Laid` says this of the spans that have been passed together with the
tokens ahead. -/

namespace Conformance

namespace Span

/-- A span ends before another one starts, or where it does. -/
def Before (a b : Span) : Prop := a.stop ≤ b.start

def Within (inner outer : Span) : Prop := outer.start ≤ inner.start ∧ inner.stop ≤ outer.stop

variable {a b c : Span}

@[simp] theorem Within.refl (a : Span) : a.Within a := ⟨Nat.le_refl _, Nat.le_refl _⟩

theorem within_join_left (a b : Span) : a.Within (a.join b) :=
  ⟨Nat.min_le_left _ _, Nat.le_max_left _ _⟩

theorem within_join_right (a b : Span) : b.Within (a.join b) :=
  ⟨Nat.min_le_right _ _, Nat.le_max_right _ _⟩

theorem Before.of_within {a' b' : Span} (h : a.Before b) (ha : a'.Within a) (hb : b'.Within b) :
    a'.Before b' := by
  have stop_le := ha.2
  have start_le := hb.1
  unfold Before at *
  omega

theorem before_join {x : Span} (h1 : x.Before a) (h2 : x.Before b) : x.Before (a.join b) :=
  Nat.le_min.2 ⟨h1, h2⟩

theorem join_before {x : Span} (h1 : a.Before x) (h2 : b.Before x) : (a.join b).Before x :=
  Nat.max_le.2 ⟨h1, h2⟩

theorem join_join_of_before (h1 : a.Before b) (h2 : b.Before c) : a.join (b.join c) = a.join c := by
  have left := a.ordered
  have middle := b.ordered
  have right := c.ordered
  unfold Before at h1 h2
  simp only [Span.join, Span.mk.injEq]
  omega

/-- What lies between two spans is covered by both together. -/
theorem within_join_of_before (h1 : a.Before b) (h2 : b.Before c) : b.Within (a.join c) := by
  have left := a.ordered
  have middle := b.ordered
  have right := c.ordered
  unfold Before at h1 h2
  simp only [Within, Span.join]
  omega

/-- A span of two characters is those of the two. -/
theorem eq_join_of_stop {span : Span} (length : span.stop = span.start + 2) :
    span = (ofLength span.start 1).join (.ofLength (span.start + 1) 1) := by
  obtain ⟨start, stop, ordered⟩ := span
  obtain rfl : stop = start + 2 := length
  simp [join, ofLength]

end Span

namespace Dialect

open Text

/-- A token has characters, and its span has as many. -/
structure Token.Exact (token : Token) : Prop where
  stop_eq : token.span.stop = token.span.start + token.text.toList.length
  nonempty : token.text.toList ≠ []
  spells : token.kind.Spells token.text.toList

namespace Token.Exact

variable {token : Token}

theorem start_lt_stop (exact : token.Exact) : token.span.start < token.span.stop := by
  have pos := List.length_pos_iff.2 exact.nonempty
  have stop := exact.stop_eq
  omega

theorem first_within (exact : token.Exact) :
    (Span.ofLength token.span.start 1).Within token.span :=
  ⟨Nat.le_refl _, exact.start_lt_stop⟩

theorem last_within (exact : token.Exact) :
    (Span.ofLength (token.span.stop - 1) 1).Within token.span := by
  have positive := exact.start_lt_stop
  simp only [Span.Within, Span.ofLength]
  omega

/-- The two bars that stand for an empty list of parameters. -/
theorem stop_bars (exact : token.Exact) (bars : token.kind = .orOr) :
    token.span.stop = token.span.start + 2 := by
  have spells := exact.spells
  rw [bars] at spells
  have text : String.ofList token.text.toList = "||" := by
    simpa [TokenKind.Spells, TokenKind.fixedTexts] using spells
  have length : token.text.toList.length = 2 := by
    rw [String.ofList_toList] at text
    rw [text]
    decide
  rw [exact.stop_eq, length]

end Token.Exact

/-- In a source of `n` characters, the spans that have been passed, the last one first, stand one
after the other, and after them the tokens ahead. -/
structure Laid (n : Nat) (passed : List Span) (ahead : List Token) : Prop where
  in_order : (passed.reverse ++ ahead.map Token.span).Pairwise Span.Before
  stop_le : ∀ span ∈ passed.reverse ++ ahead.map Token.span, span.stop ≤ n
  exact : ∀ token ∈ ahead, token.Exact

namespace Laid

variable {n : Nat} {passed run : List Span} {ahead rest : List Token} {token : Token}

theorem cons_iff :
    Laid n passed (token :: ahead) ↔ token.Exact ∧ Laid n (token.span :: passed) ahead := by
  have same : (token.span :: passed).reverse ++ ahead.map Token.span =
      passed.reverse ++ (token :: ahead).map Token.span := by simp
  constructor
  · rintro ⟨in_order, stop_le, exact⟩
    rw [← same] at in_order stop_le
    exact ⟨exact token (.head _), in_order, stop_le, fun t mem => exact t (.tail _ mem)⟩
  · rintro ⟨first, in_order, stop_le, exact⟩
    rw [same] at in_order stop_le
    exact ⟨in_order, stop_le, List.forall_mem_cons.2 ⟨first, exact⟩⟩

theorem read (h : Laid n passed (token :: ahead)) : Laid n (token.span :: passed) ahead :=
  (cons_iff.1 h).2

/-- Some of what has been passed, with the last tokens of those ahead. -/
theorem of_sublist {passed' : List Span} {ahead' : List Token} (h : Laid n passed ahead)
    (fewer : passed'.Sublist passed) (later : ahead' <:+ ahead) : Laid n passed' ahead' := by
  have sub : (passed'.reverse ++ ahead'.map Token.span).Sublist
      (passed.reverse ++ ahead.map Token.span) :=
    fewer.reverse.append (later.sublist.map _)
  exact ⟨h.in_order.sublist sub, fun span mem => h.stop_le span (sub.mem mem),
    fun token mem => h.exact token (later.mem mem)⟩

theorem past {k : Nat} (h : Laid n passed ahead) (past : Past k ahead rest) :
    Laid n passed rest := h.of_sublist (.refl _) past.2

theorem passed_in_order (h : Laid n (run ++ passed) ahead) :
    run.Pairwise fun later earlier => earlier.Before later := by
  have all := (List.pairwise_append.1 h.in_order).1
  rw [List.pairwise_reverse] at all
  exact (List.pairwise_append.1 all).1

theorem passed_stop_le (h : Laid n (run ++ passed) ahead) : ∀ span ∈ run, span.stop ≤ n :=
  fun span mem => h.stop_le span (by simp [mem])

/-- What has been passed last may be taken for one span, from one member of it to another. -/
theorem join {first last : Span} (h : Laid n (run ++ passed) ahead) (first_mem : first ∈ run)
    (last_mem : last ∈ run) : Laid n (first.join last :: passed) ahead := by
  obtain ⟨in_order, stop_le, exact⟩ := h
  simp only [List.reverse_append, List.append_assoc] at in_order stop_le
  obtain ⟨before, later, across⟩ := List.pairwise_append.1 in_order
  obtain ⟨-, after, onward⟩ := List.pairwise_append.1 later
  have first_mem' := List.mem_reverse.2 first_mem
  have last_mem' := List.mem_reverse.2 last_mem
  refine ⟨?_, fun span mem => ?_, exact⟩
  · simp only [List.reverse_cons, List.append_assoc, List.singleton_append]
    refine List.pairwise_append.2 ⟨before, List.pairwise_cons.2 ⟨fun b hb => ?_, after⟩, ?_⟩
    · exact Span.join_before (onward _ first_mem' b hb) (onward _ last_mem' b hb)
    · intro a ha b hb
      obtain rfl | beyond := List.mem_cons.1 hb
      · exact Span.before_join (across a ha _ (List.mem_append_left _ first_mem'))
          (across a ha _ (List.mem_append_left _ last_mem'))
      · exact across a ha b (List.mem_append_right _ beyond)
  · simp only [List.reverse_cons, List.append_assoc, List.singleton_append, List.mem_append,
      List.mem_cons] at mem stop_le
    obtain earlier | rfl | beyond := mem
    · exact stop_le span (.inl earlier)
    · exact Nat.max_le.2 ⟨stop_le _ (.inr (.inl first_mem')), stop_le _ (.inr (.inl last_mem'))⟩
    · exact stop_le span (.inr (.inr beyond))

/-- The last span that has been passed may be taken for two parts of it. -/
theorem split {left right outer : Span} (h : Laid n (outer :: passed) ahead)
    (left_within : left.Within outer) (right_within : right.Within outer)
    (ordered : left.Before right) : Laid n (right :: left :: passed) ahead := by
  obtain ⟨in_order, stop_le, exact⟩ := h
  simp only [List.reverse_cons, List.append_assoc, List.singleton_append] at in_order stop_le
  obtain ⟨before, later, across⟩ := List.pairwise_append.1 in_order
  obtain ⟨onward, after⟩ := List.pairwise_cons.1 later
  refine ⟨?_, fun span mem => ?_, exact⟩
  · simp only [List.reverse_cons, List.append_assoc, List.singleton_append]
    refine List.pairwise_append.2 ⟨before, ?_, ?_⟩
    · refine List.pairwise_cons.2 ⟨fun b hb => ?_, List.pairwise_cons.2 ⟨fun b hb => ?_, after⟩⟩
      · obtain rfl | beyond := List.mem_cons.1 hb
        · exact ordered
        · exact (onward b beyond).of_within left_within (.refl b)
      · exact (onward b hb).of_within right_within (.refl b)
    · intro a ha b hb
      have outside := across a ha outer (.head _)
      obtain rfl | mem := List.mem_cons.1 hb
      · exact outside.of_within (.refl a) left_within
      obtain rfl | beyond := List.mem_cons.1 mem
      · exact outside.of_within (.refl a) right_within
      · exact across a ha b (.tail _ beyond)
  · have outer_le := stop_le outer (by simp)
    simp only [List.reverse_cons, List.append_assoc, List.singleton_append, List.mem_append,
      List.mem_cons, List.not_mem_nil, or_false, or_assoc] at mem
    obtain earlier | rfl | rfl | beyond := mem
    · exact stop_le span (by simp [earlier])
    · exact Nat.le_trans left_within.2 outer_le
    · exact Nat.le_trans right_within.2 outer_le
    · exact stop_le span (by simp only [List.mem_append, List.mem_cons, beyond, or_true])

/-- The first and the last of what has been passed last cover all of it. -/
theorem within_join {first last : Span} (h : Laid n (run ++ passed) ahead)
    (starts : run.getLast? = some first) (ends : run.head? = some last) :
    ∀ span ∈ run, span.Within (first.join last) := by
  have in_order := h.passed_in_order
  obtain ⟨after, rfl⟩ := List.getLast?_eq_some_iff.1 starts
  intro span mem
  obtain inner | last_one := List.mem_append.1 mem
  · have from_first : first.Before span :=
      (List.pairwise_append.1 in_order).2.2 span inner first (by simp)
    cases after with
    | nil => cases inner
    | cons head after =>
      obtain rfl : head = last := Option.some.inj ends
      obtain rfl | earlier := List.mem_cons.1 inner
      · exact Span.within_join_right _ _
      · have to_last : span.Before head :=
          (List.pairwise_cons.1 in_order).1 span (List.mem_append_left _ earlier)
        exact Span.within_join_of_before from_first to_last
  · rw [List.mem_singleton.1 last_one]
    exact Span.within_join_left _ _

end Laid

namespace ParseState

variable {n : Nat} {passed : List Span} {s : ParseState} {kind : TokenKind} {token : Token}
  {rest : List Token}

theorem Next.ahead (next : s.Next kind token rest) (h : Laid n passed s.rest) :
    Laid n passed (token :: rest) := by
  rwa [← next.eq]

theorem Next.laid (next : s.Next kind token rest) (h : Laid n passed s.rest) :
    Laid n (token.span :: passed) rest := by
  rw [next.eq] at h
  exact h.read

theorem Next.exact (next : s.Next kind token rest) (h : Laid n passed s.rest) : token.Exact := by
  rw [next.eq] at h
  exact (Laid.cons_iff.1 h).1

theorem Eats.laid {found : Option Token} (eats : s.Eats kind found rest)
    (h : Laid n passed s.rest) : Laid n (found.toList.map Token.span ++ passed) rest := by
  cases eats with
  | none _ => exact h
  | some next => exact next.laid h

end ParseState

/-- The tokens for lexemes follow what stands before the first of them. -/
theorem place_laid {offset n : Nat} {spaced : Bool} {unread : List Char} {found : List Lexeme}
    {tokens : List Token} {passed : List Span}
    (h : place offset spaced unread found = .ok tokens)
    (lawful : ∀ lexeme ∈ found, lexeme.Lawful)
    (fits : offset + (lexemesText found ++ unread).length ≤ n) (laid : Laid n passed [])
    (before : ∀ span ∈ passed, span.stop ≤ offset) : Laid n passed tokens := by
  -- What is skipped between two tokens only moves the offset further from what has been passed.
  induction found generalizing offset spaced tokens passed with
  | nil =>
    cases unread with
    | nil =>
      cases h
      exact laid
    | cons c rest => cases h
  | cons lexeme more ih =>
    obtain ⟨first, others⟩ := List.forall_mem_cons.1 lawful
    rw [lexemesText_cons, List.append_assoc, List.length_append, ← Nat.add_assoc] at fits
    have later : ∀ span ∈ passed, span.stop ≤ offset + lexeme.text.length :=
      fun span mem => Nat.le_trans (before span mem) (Nat.le_add_right _ _)
    simp only [place] at h
    split at h
    · exact ih h others fits laid later
    · exact ih h others fits laid later
    · cases h
    · rename_i kind hk
      cases hr : place (offset + lexeme.text.length) (kind == .newline) unread more with
      | error e =>
        rw [hr] at h
        cases h
      | ok rest =>
        rw [hr] at h
        cases h
        have exact : Token.Exact ⟨kind, .ofLength offset lexeme.text.length,
            String.ofList lexeme.text, spaced⟩ := by
          refine ⟨?_, ?_, ?_⟩
          · simp [Span.ofLength]
          · simpa using first.nonempty
          · simpa using first.spells kind hk
        refine Laid.cons_iff.2 ⟨exact, ih hr others fits ⟨?_, ?_, List.forall_mem_nil _⟩ ?_⟩
        · have earlier := laid.in_order
          simp only [List.map_nil, List.append_nil] at earlier
          simp only [List.map_nil, List.append_nil, List.reverse_cons]
          refine List.pairwise_append.2 ⟨earlier, by simp, fun a ha b hb => ?_⟩
          rw [List.mem_singleton.1 hb]
          exact before a (List.mem_reverse.1 ha)
        · have earlier := laid.stop_le
          simp only [List.map_nil, List.append_nil, List.mem_reverse] at earlier ⊢
          refine List.forall_mem_cons.2 ⟨?_, earlier⟩
          show offset + lexeme.text.length ≤ n
          omega
        · exact List.forall_mem_cons.2 ⟨Nat.le_refl _, later⟩

/-- The tokens of a source stand one after the other. -/
theorem placed_laid {source : List Char} {tokens : List Token} (h : placed source = .ok tokens) :
    Laid source.length [] tokens :=
  place_laid h (lexemes_lawful source) (length_lexemes_text source) ⟨.nil, nofun, nofun⟩ nofun

end Dialect

end Conformance
