import StackScript.Proofs.Grammar

/-!
# Unambiguity

A word has at most one derivation. Each rule stops at a symbol that cannot go on with it, so two
derivations of the beginnings of one word end at the same place.
-/

namespace StackScript.Grammar

/-- No call goes on with the word. -/
def EndsCalls (word : List Terminal) : Prop :=
  ∀ tail, word ≠ .mark "(" :: tail

/-- No expression goes on with the word. -/
def EndsExpression (word : List Terminal) : Prop :=
  EndsCalls word ∧ ∀ text tail, word ≠ .operator text :: tail

/-- No statement goes on with the word. -/
def EndsStatement (word : List Terminal) : Prop :=
  EndsExpression word ∧ ∀ tail, word ≠ .assign :: tail

/-- The word is at its end or at a closing brace. -/
def EndsBlock (word : List Terminal) : Prop :=
  word = [] ∨ ∃ tail, word = .mark "\x7d" :: tail

theorem endsExpression_mark {symbol : String} (hsymbol : symbol ≠ "(") (tail : List Terminal) :
    EndsExpression (.mark symbol :: tail) := by
  constructor
  · intro tail' h
    injection h with h
    injection h with h
    exact hsymbol h
  · intro text tail' h
    cases h

theorem endsCalls_operator (text : String) (tail : List Terminal) :
    EndsCalls (.operator text :: tail) := by
  intro tail' h
  cases h

theorem Term.terminal_injective {left right : Term} (h : left.terminal = right.terminal) :
    left = right := by
  cases left <;> cases right <;> simp only [terminal, reduceCtorEq, Terminal.number.injEq,
    Terminal.string.injEq, Terminal.identifier.injEq] at h
  case number.number text value fits text' value' fits' =>
    subst h
    obtain rfl : value = value' := Option.some.inj (fits.symm.trans fits')
    rfl
  all_goals rw [h]

theorem Term.terminal_ne_mark (term : Term) (symbol : String) :
    term.terminal ≠ .mark symbol := by
  cases term <;> exact fun h => by cases h

theorem Expression.word_eq_cons (expression : Expression) :
    ∃ term tail, expression.word = Term.terminal term :: tail := by
  cases expression with
  | plain term calls => exact ⟨term, _, by rw [Expression.word]⟩
  | operation term calls operator right => exact ⟨term, _, by rw [Expression.word]⟩

theorem argumentWord_cons (first : Expression) (rest : List Expression) :
    ∃ term tail, argumentWord (first :: rest) = Term.terminal term :: tail := by
  obtain ⟨term, tail, hword⟩ := first.word_eq_cons
  cases rest with
  | nil => exact ⟨term, tail, by rw [argumentWord, hword]⟩
  | cons next rest => exact ⟨term, _, by rw [argumentWord, hword, List.cons_append]⟩

mutual

/-- An expression at the beginning of a word is determined by the word. -/
theorem Expression.unique (derivation other : Expression) (rest rest' : List Terminal)
    (h : derivation.word ++ rest = other.word ++ rest')
    (hrest : EndsExpression rest) (hrest' : EndsExpression rest') :
    derivation = other ∧ rest = rest' := by
  cases derivation with
  | plain term calls =>
      cases other with
      | plain term' calls' =>
          simp only [Expression.word, List.cons_append, List.cons.injEq] at h
          obtain ⟨rfl, rfl⟩ := callWord_unique calls calls' rest rest' h.2 hrest.1 hrest'.1
          exact ⟨by rw [Term.terminal_injective h.1], rfl⟩
      | operation term' calls' operator' right' =>
          simp only [Expression.word, List.cons_append, List.append_assoc, List.cons.injEq] at h
          obtain ⟨-, hend⟩ := callWord_unique calls calls' rest _ h.2 hrest.1
            (endsCalls_operator _ _)
          exact absurd hend (hrest.2 _ _)
  | operation term calls operator right =>
      cases other with
      | plain term' calls' =>
          simp only [Expression.word, List.cons_append, List.append_assoc, List.cons.injEq] at h
          obtain ⟨-, hend⟩ := callWord_unique calls calls' _ rest' h.2
            (endsCalls_operator _ _) hrest'.1
          exact absurd hend.symm (hrest'.2 _ _)
      | operation term' calls' operator' right' =>
          simp only [Expression.word, List.cons_append, List.append_assoc, List.cons.injEq] at h
          obtain ⟨rfl, htail⟩ := callWord_unique calls calls' _ _ h.2
            (endsCalls_operator _ _) (endsCalls_operator _ _)
          simp only [List.cons.injEq, Terminal.operator.injEq] at htail
          obtain ⟨rfl, rfl⟩ := Expression.unique right right' rest rest' htail.2 hrest hrest'
          rw [Term.terminal_injective h.1, Operator.symbol_injective htail.1]
          exact ⟨rfl, rfl⟩

theorem callWord_unique (left right : List (List Expression)) (rest rest' : List Terminal)
    (h : callWord left ++ rest = callWord right ++ rest')
    (hrest : EndsCalls rest) (hrest' : EndsCalls rest') :
    left = right ∧ rest = rest' := by
  match left, right with
  | [], [] => exact ⟨rfl, by simpa only [callWord, List.nil_append] using h⟩
  | [], arguments' :: calls' =>
      simp only [callWord, List.nil_append, List.cons_append] at h
      exact absurd h (hrest _)
  | arguments :: calls, [] =>
      simp only [callWord, List.nil_append, List.cons_append] at h
      exact absurd h.symm (hrest' _)
  | arguments :: calls, arguments' :: calls' =>
      simp only [callWord, List.cons_append, List.append_assoc, List.cons.injEq, true_and] at h
      obtain ⟨rfl, htail⟩ := argumentWord_unique arguments arguments' _ _ h
      obtain ⟨rfl, rfl⟩ := callWord_unique calls calls' rest rest' htail hrest hrest'
      exact ⟨rfl, rfl⟩

theorem argumentWord_unique (left right : List Expression) (rest rest' : List Terminal)
    (h : argumentWord left ++ .mark ")" :: rest = argumentWord right ++ .mark ")" :: rest') :
    left = right ∧ rest = rest' := by
  match left, right with
  | [], [] => simpa [argumentWord] using h
  | [], first' :: tail' =>
      obtain ⟨term, tail, hword⟩ := argumentWord_cons first' tail'
      rw [hword] at h
      simp only [argumentWord, List.nil_append, List.cons_append, List.cons.injEq] at h
      exact absurd h.1.symm (term.terminal_ne_mark _)
  | first :: tail, [] =>
      obtain ⟨term, tail, hword⟩ := argumentWord_cons first tail
      rw [hword] at h
      simp only [argumentWord, List.nil_append, List.cons_append, List.cons.injEq] at h
      exact absurd h.1 (term.terminal_ne_mark _)
  | [last], [last'] =>
      simp only [argumentWord] at h
      obtain ⟨rfl, htail⟩ := Expression.unique last last' _ _ h
        (endsExpression_mark (by decide) _) (endsExpression_mark (by decide) _)
      exact ⟨rfl, (List.cons.inj htail).2⟩
  | [last], first' :: next' :: tail' =>
      simp only [argumentWord, List.append_assoc, List.cons_append] at h
      obtain ⟨-, htail⟩ := Expression.unique last first' _ _ h
        (endsExpression_mark (by decide) _) (endsExpression_mark (by decide) _)
      simp at htail
  | first :: next :: tail, [last'] =>
      simp only [argumentWord, List.append_assoc, List.cons_append] at h
      obtain ⟨-, htail⟩ := Expression.unique first last' _ _ h
        (endsExpression_mark (by decide) _) (endsExpression_mark (by decide) _)
      simp at htail
  | first :: next :: tail, first' :: next' :: tail' =>
      simp only [argumentWord, List.append_assoc, List.cons_append] at h
      obtain ⟨rfl, htail⟩ := Expression.unique first first' _ _ h
        (endsExpression_mark (by decide) _) (endsExpression_mark (by decide) _)
      simp only [List.cons.injEq, true_and] at htail
      obtain ⟨hlist, rfl⟩ := argumentWord_unique (next :: tail) (next' :: tail') rest rest' htail
      rw [hlist]
      exact ⟨rfl, rfl⟩

end

theorem callWord_ne_assign (calls : List (List Expression)) {rest : List Terminal}
    (hrest : EndsStatement rest) (tail : List Terminal) :
    callWord calls ++ rest ≠ .assign :: tail := by
  intro h
  cases calls with
  | nil => exact hrest.2 tail h
  | cons arguments calls => simp [callWord] at h

/-- A keyword is not the term that opens a statement. -/
theorem Term.terminal_ne_keyword {term : Term} {word : String}
    (free : ∀ word ∈ keywords, term ≠ .identifier word) (hword : word ∈ keywords) :
    term.terminal ≠ .identifier word :=
  fun h => free word hword (Term.terminal_injective h)

/-- The symbols that a statement starts with. -/
def Terminal.Opens : Terminal → Prop
  | .identifier _ | .number _ | .string _ => True
  | .mark text => text = ";"
  | .endOfInput | .operator _ | .assign => False

theorem Statement.word_eq_cons (statement : Statement) :
    ∃ symbol word, statement.word = symbol :: word ∧ symbol.Opens := by
  cases statement
  case evaluate term free calls =>
    refine ⟨term.terminal, callWord calls, by rw [Statement.word], ?_⟩
    cases term <;> trivial
  all_goals exact ⟨_, _, by rw [Statement.word], by simp [Terminal.Opens]⟩

/-- The first symbol of a statement ends the statement before it. -/
theorem Terminal.Opens.endsStatement {symbol : Terminal} (h : symbol.Opens)
    (tail : List Terminal) : EndsStatement (symbol :: tail) := by
  cases symbol <;> simp_all [Opens, EndsStatement, EndsExpression, EndsCalls]

theorem Terminal.Opens.not_endsBlock {symbol : Terminal} (h : symbol.Opens)
    (tail : List Terminal) : ¬ EndsBlock (symbol :: tail) := by
  cases symbol <;> simp_all [Opens, EndsBlock]

theorem EndsBlock.endsStatement {word : List Terminal} (h : EndsBlock word) :
    EndsStatement word := by
  rcases h with rfl | ⟨tail, rfl⟩
  · simp [EndsStatement, EndsExpression, EndsCalls]
  · exact ⟨endsExpression_mark (by decide) _, by simp⟩

theorem blockWord_endsStatement (block : List Statement) {rest : List Terminal}
    (hrest : EndsBlock rest) : EndsStatement (blockWord block ++ rest) := by
  cases block with
  | nil => exact hrest.endsStatement
  | cons first tail =>
      obtain ⟨symbol, word, hword, hopens⟩ := first.word_eq_cons
      rw [blockWord, hword]
      exact hopens.endsStatement _

mutual

/-- A statement at the beginning of a word is determined by the word. -/
theorem Statement.unique (derivation other : Statement) (rest rest' : List Terminal)
    (h : derivation.word ++ rest = other.word ++ rest')
    (hrest : EndsStatement rest) (hrest' : EndsStatement rest') :
    derivation = other ∧ rest = rest' := by
  -- The first symbol tells the rules apart, except that a name opens two of them.
  cases derivation <;> cases other <;>
    simp only [Statement.word, List.cons_append, List.nil_append, List.append_assoc,
      List.cons.injEq, Terminal.identifier.injEq, reduceCtorEq, false_and,
      true_and, String.reduceEq, and_false] at h
  case empty.empty | ret.ret => exact ⟨rfl, h⟩
  case branch.branch test body test' body' | loop.loop test body test' body' =>
    obtain ⟨rfl, htail⟩ := Expression.unique test test' _ _ h
      (endsExpression_mark (by decide) _) (endsExpression_mark (by decide) _)
    obtain ⟨rfl, hrest⟩ := blockWord_unique body body' _ _ (List.cons.inj htail).2
      (.inr ⟨_, rfl⟩) (.inr ⟨_, rfl⟩)
    exact ⟨rfl, (List.cons.inj hrest).2⟩
  case declare.declare name type declarable name' type' declarable' =>
    obtain ⟨rfl, htype, rfl⟩ := h
    obtain rfl : type = type' := by
      have hname := TypeTag.ofName?_name type
      rw [htype, TypeTag.ofName?_name] at hname
      exact (Option.some.inj hname).symm
    exact ⟨rfl, rfl⟩
  case assign.assign name free value name' free' value' =>
    obtain ⟨rfl, htail⟩ := h
    obtain ⟨rfl, rfl⟩ := Expression.unique value value' rest rest' htail hrest.1 hrest'.1
    exact ⟨rfl, rfl⟩
  case evaluate.evaluate term free calls term' free' calls' =>
    obtain rfl := Term.terminal_injective h.1
    obtain ⟨rfl, rfl⟩ := callWord_unique calls calls' rest rest' h.2 hrest.1.1 hrest'.1.1
    exact ⟨rfl, rfl⟩
  case assign.evaluate name free value term free' calls =>
    exact absurd h.2.symm (callWord_ne_assign calls hrest' _)
  case evaluate.assign term free calls name free' value =>
    exact absurd h.2 (callWord_ne_assign calls hrest _)
  case empty.evaluate term _ _ => exact absurd h.1.symm (term.terminal_ne_mark _)
  case evaluate.empty term _ _ => exact absurd h.1 (term.terminal_ne_mark _)
  case ret.assign free _ | branch.assign free _ | loop.assign free _ =>
    rw [← h.1] at free
    exact absurd (by decide) free
  case assign.ret free _ | assign.branch free _ _ _ | assign.loop free _ _ _ =>
    rw [h.1] at free
    exact absurd (by decide) free
  case ret.evaluate free _ | branch.evaluate free _ | loop.evaluate free _
      | declare.evaluate free _ =>
    exact absurd h.1.symm (Term.terminal_ne_keyword free (by decide))
  case evaluate.ret free _ | evaluate.branch free _ _ _ | evaluate.loop free _ _ _
      | evaluate.declare free _ _ _ _ =>
    exact absurd h.1 (Term.terminal_ne_keyword free (by decide))

theorem blockWord_unique (left right : List Statement) (rest rest' : List Terminal)
    (h : blockWord left ++ rest = blockWord right ++ rest')
    (hrest : EndsBlock rest) (hrest' : EndsBlock rest') :
    left = right ∧ rest = rest' := by
  match left, right with
  | [], [] => exact ⟨rfl, by simpa only [blockWord, List.nil_append] using h⟩
  | [], first' :: tail' =>
      obtain ⟨symbol, word, hword, hopens⟩ := first'.word_eq_cons
      rw [blockWord, blockWord, hword, List.nil_append] at h
      exact absurd (h ▸ hrest) (hopens.not_endsBlock _)
  | first :: tail, [] =>
      obtain ⟨symbol, word, hword, hopens⟩ := first.word_eq_cons
      rw [blockWord, blockWord, hword, List.nil_append] at h
      exact absurd (h ▸ hrest') (hopens.not_endsBlock _)
  | first :: tail, first' :: tail' =>
      simp only [blockWord, List.append_assoc] at h
      obtain ⟨rfl, htail⟩ := Statement.unique first first' _ _ h
        (blockWord_endsStatement tail hrest) (blockWord_endsStatement tail' hrest')
      obtain ⟨rfl, rfl⟩ := blockWord_unique tail tail' rest rest' htail hrest hrest'
      exact ⟨rfl, rfl⟩

end

/-- A word has at most one derivation. -/
theorem blockWord_injective {block other : List Statement}
    (h : blockWord block = blockWord other) : block = other :=
  (blockWord_unique block other [] [] (by rw [h]) (.inl rfl) (.inl rfl)).1

end StackScript.Grammar
