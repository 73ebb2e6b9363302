import StackScript.Proofs.Emitter

/-!
# A compiler that keeps count

The compiler that writes in place asks its stream for items one by one. Here it keeps a record of
what the stream has answered and of how many tokens it has taken, and it checks its own progress: a
round of a loop that is to be followed by another one has to have taken a token, and so does a
reader before it goes down into a reader of its kind and before it comes back from there. Where that
is not so, or where a loop uses up its rounds, the computation is undefined. More rounds never
change a result that is there.
-/

namespace StackScript

/-- An emitter with a record of what was asked of its stream. -/
structure Meter where
  emitter : Emitter
  /-- What the stream has answered so far, the latest answer first: an item, or nothing after the
  last one. -/
  answers : List (Option Item) := []
  /-- How many tokens of the stream were taken. -/
  taken : Nat := 0

/-- Whether an answer is the last one to ask for: the end token, a lexical error, or nothing. -/
def endsStream : Option Item → Bool
  | some (.ok token) => token.kind = .eof
  | some (.error _) => true
  | none => true

/-- Whether the stream has answered that it holds nothing more. -/
def Meter.isSpent (meter : Meter) : Bool :=
  meter.answers.head?.any Option.isNone

/-- A step of a compiler that keeps count. -/
abbrev Metered := Checked CompileError Meter

namespace Metered

variable {α β : Type}

/-- A step that asks nothing of the stream. -/
def lift (step : Emit α) : Metered α := fun meter =>
  match step meter.emitter with
  | .ok value emitter => .ok value { meter with emitter }
  | .error stop emitter => .error stop { meter with emitter }

/-- Asks the stream for an item. -/
def pull : Metered Token := do
  modify fun meter => { meter with answers := meter.emitter.stream.head? :: meter.answers }
  lift Emit.pull

/-- The token that was looked at, or else the next one of the stream. -/
def ahead : Metered Token := do
  match (← get).emitter.peeked with
  | some token => return token
  | none => pull

/-- Takes the next token. It counts unless it was made up after the last item. -/
def next : Metered Token := do
  let token ← ahead
  modify fun meter =>
    { meter with
      emitter := { meter.emitter with peeked := none }
      taken := meter.taken + if meter.isSpent then 0 else 1 }
  return token

/-- Looks at the next token without taking it. -/
def peek : Metered Token := do
  let token ← ahead
  modify fun meter => { meter with emitter := { meter.emitter with peeked := some token } }
  return token

/-- A token has to have been taken since there were `before`. -/
def progressed (before : Nat) : Metered Unit := fun meter =>
  if before < meter.taken then .ok () meter else .error .undefined meter

/-- Goes down into a reader. A token has to have been taken since the reader above was entered, and
another one when this reader comes back. -/
def descend (entered : Nat) (inside : Metered α) : Metered α := do
  progressed entered
  let before := (← get).taken
  let result ← inside
  progressed before
  return result

/-- Writes arguments up to the parenthesis after them and counts them; there is one argument at
least. -/
def arguments (argument : Metered Unit) : (rounds count : Nat) → Metered Nat
  | 0, _ => Checked.undefined
  | rounds + 1, count => do
      let before := (← get).taken
      argument
      let token ← next
      if token.isMark ")" then return count + 1
      else if token.isMark "," then
        progressed before
        arguments argument rounds (count + 1)
      else Checked.unexpected .commaOrParenthesis token

/-- Writes what follows the opening parenthesis of a call and counts the arguments. -/
def callArguments (argument : Metered Unit) (rounds : Nat) : Metered Nat := do
  if (← peek).isMark ")" then
    let _ ← next
    return 0
  else arguments argument rounds 0

/-- Writes the calls that follow a term, and says whether there are any. -/
def calls (argument : Metered Unit) (limit : Nat) :
    (rounds : Nat) → (called : Bool) → Metered Bool
  | 0, _ => Checked.undefined
  | rounds + 1, called => do
      let before := (← get).taken
      if (← peek).isMark "(" then
        let _ ← next
        let count ← callArguments argument limit
        lift (Emit.write (.invoke count))
        progressed before
        calls argument limit rounds true
      else return called

/-- Writes a term that starts with a token, and the calls that follow it. -/
def callable (argument : Metered Unit) (limit : Nat) (token : Token) : Metered Bool := do
  lift (Emit.term token)
  calls argument limit limit false

/-- Does something one level down, and comes back up whether or not it fails. -/
def level (line : Nat) (inside : Metered α) : Metered α := do
  lift (Emit.enter line)
  let result ← Checked.attempt inside
  lift Emit.leave
  Checked.ofExcept result

/-- Writes an expression. -/
def expression (limit : Nat) : (levels : Nat) → Metered Unit
  | 0 => Checked.undefined
  | levels + 1 => do
      let entered := (← get).taken
      let first ← next
      level first.line do
        let _ ← callable (descend entered (expression limit levels)) limit first
        let token ← peek
        if token.kind = .operator then
          let _ ← next
          match Operator.ofSymbol? token.text with
          | none => Checked.fail (.unknownOperator token.line token.text)
          | some operator =>
              descend entered (expression limit levels)
              lift (Emit.write (.binary operator))
        else return ()

/-- Writes statements up to what closes them. -/
def statements (statement : Token → Metered Unit) (closing : Parser.Closing) :
    (rounds : Nat) → Metered Unit
  | 0 => Checked.undefined
  | rounds + 1 => do
      let before := (← get).taken
      let token ← next
      if ← lift (Emit.closes closing token) then return ()
      else
        statement token
        progressed before
        statements statement closing rounds

/-- Writes a statement that starts with a token, by readers of expressions and of blocks. -/
def statement (limit : Nat) (expression block : Metered Unit) (token : Token) : Metered Unit := do
  if token.isMark ";" then return ()
  else if token.isWord "return" then
    lift (Emit.write .ret)
  else if token.isWord "if" then
    expression
    let jump ← lift (Emit.emit (.jumpIfZero Emit.pending))
    block
    lift (Emit.patch jump)
  else if token.isWord "while" then
    let start := (← get).emitter.code.size
    expression
    let jump ← lift (Emit.emit (.jumpIfZero Emit.pending))
    block
    lift (Emit.write (.push (.int 0)))
    lift (Emit.write (.jumpIfZero start))
    lift (Emit.patch jump)
  else if token.isWord "local" then
    let (name, type) ← Checked.typedName next .localName
    lift (Emit.declareLocal token.line name type)
  else if token.kind = .identifier then
    if (← peek).kind = .assign then
      let _ ← next
      expression
      let place ← lift (Emit.resolve token.text)
      lift (Emit.write place.store)
    else
      if ← callable expression limit token then return ()
      else lift (Emit.write .pop)
  else
    if ← callable expression limit token then return ()
    else lift (Emit.write .pop)

/-- Writes a block in braces. -/
def block (limit : Nat) : (levels : Nat) → Metered Unit
  | 0 => Checked.undefined
  | levels + 1 => do
      let entered := (← get).taken
      let _ ← Checked.mark next "\x7b"
      level (← get).emitter.lastLine
        (statements
          (statement limit (descend entered (expression limit levels))
            (descend entered (block limit levels)))
          .brace limit)

/-- Writes statements up to the end of the input. -/
def wholeBlock (limit : Nat) : Metered Unit := do
  let entered := (← get).taken
  statements
    (statement limit (descend entered (expression limit (nestingLimit + 1)))
      (descend entered (block limit (nestingLimit + 1))))
    .endOfInput limit

end Metered

/-! ## More rounds -/

/-- Wherever the second computation is defined, the first one does the same. -/
def Metered.Outlasts {α : Type} (longer shorter : Metered α) : Prop :=
  ∀ meter, (∃ meter', shorter meter = .error .undefined meter') ∨ longer meter = shorter meter

namespace Metered.Outlasts

variable {α β : Type} {longer shorter : Metered α}

theorem refl (computation : Metered α) : Outlasts computation computation :=
  fun _ => .inr rfl

theorem eq_of_defined {meter : Meter} (h : Outlasts longer shorter)
    (hdefined : ∀ meter', shorter meter ≠ .error .undefined meter') :
    longer meter = shorter meter := by
  rcases h meter with ⟨meter', hundefined⟩ | hsame
  · exact absurd hundefined (hdefined meter')
  · exact hsame

theorem undefined : Outlasts longer Checked.undefined :=
  fun meter => .inl ⟨meter, rfl⟩

theorem bind {next next' : α → Metered β} (h : Outlasts longer shorter)
    (hnext : ∀ value, Outlasts (next value) (next' value)) :
    Outlasts (longer >>= next) (shorter >>= next') := by
  intro meter
  simp only [Bind.bind, EStateM.bind]
  rcases h meter with ⟨meter', hundefined⟩ | hsame
  · exact .inl ⟨meter', by rw [hundefined]⟩
  · rw [hsame]
    cases shorter meter with
    | ok value meter' => exact hnext value meter'
    | error stop meter' => exact .inr rfl

theorem ite {test : Prop} [Decidable test] {longer' shorter' : Metered α}
    (h : Outlasts longer shorter) (h' : Outlasts longer' shorter') :
    Outlasts (if test then longer else longer') (if test then shorter else shorter') := by
  split
  · exact h
  · exact h'

theorem attempt (h : Outlasts longer shorter) :
    Outlasts (Checked.attempt longer) (Checked.attempt shorter) := by
  intro meter
  unfold Checked.attempt
  rcases h meter with ⟨meter', hundefined⟩ | hsame
  · exact .inl ⟨meter', by rw [hundefined]⟩
  · exact .inr (by rw [hsame])

theorem level (line : Nat) (h : Outlasts longer shorter) :
    Outlasts (Metered.level line longer) (Metered.level line shorter) := by
  refine (refl _).bind fun _ => h.attempt.bind fun result => ?_
  exact (refl _).bind fun _ => .refl _

theorem descend (entered : Nat) (h : Outlasts longer shorter) :
    Outlasts (Metered.descend entered longer) (Metered.descend entered shorter) := by
  refine (refl _).bind fun _ => (refl _).bind fun meter => h.bind fun result => ?_
  exact (refl _).bind fun _ => .refl _

section Readers

variable {argument argument' : Metered Unit} {rounds rounds' limit limit' : Nat}

theorem arguments (h : Outlasts argument argument') (hrounds : rounds' ≤ rounds) (count : Nat) :
    Outlasts (Metered.arguments argument rounds count)
      (Metered.arguments argument' rounds' count) := by
  induction rounds' generalizing rounds count with
  | zero => exact .undefined
  | succ rounds' ih =>
      obtain ⟨rounds, rfl⟩ : ∃ n, rounds = n + 1 := ⟨rounds - 1, by omega⟩
      refine (refl _).bind fun meter => h.bind fun _ => (refl _).bind fun token => ?_
      refine .ite (.refl _) (.ite ?_ (.refl _))
      exact (refl _).bind fun _ => ih (by omega) _

theorem callArguments (h : Outlasts argument argument') (hrounds : rounds' ≤ rounds) :
    Outlasts (Metered.callArguments argument rounds) (Metered.callArguments argument' rounds') :=
  (refl _).bind fun _ => .ite (.refl _) (h.arguments hrounds 0)

theorem calls (h : Outlasts argument argument') (hlimit : limit' ≤ limit)
    (hrounds : rounds' ≤ rounds) (called : Bool) :
    Outlasts (Metered.calls argument limit rounds called)
      (Metered.calls argument' limit' rounds' called) := by
  induction rounds' generalizing rounds called with
  | zero => exact .undefined
  | succ rounds' ih =>
      obtain ⟨rounds, rfl⟩ : ∃ n, rounds = n + 1 := ⟨rounds - 1, by omega⟩
      refine (refl _).bind fun meter => (refl _).bind fun token => .ite ?_ (.refl _)
      refine (refl _).bind fun _ => (h.callArguments hlimit).bind fun count => ?_
      exact (refl _).bind fun _ => (refl _).bind fun _ => ih (by omega) true

theorem callable (h : Outlasts argument argument') (hlimit : limit' ≤ limit) (token : Token) :
    Outlasts (Metered.callable argument limit token) (Metered.callable argument' limit' token) :=
  (refl _).bind fun _ => h.calls hlimit hlimit false

theorem expression (hlimit : limit' ≤ limit) (levels : Nat) :
    Outlasts (Metered.expression limit levels) (Metered.expression limit' levels) := by
  induction levels with
  | zero => exact .undefined
  | succ levels ih =>
      refine (refl _).bind fun meter => (refl _).bind fun first => .level _ ?_
      refine ((ih.descend meter.taken).callable hlimit first).bind fun _ => ?_
      refine (refl _).bind fun token => .ite ((refl _).bind fun _ => ?_) (.refl _)
      cases Operator.ofSymbol? token.text with
      | none => exact .refl _
      | some operator => exact (ih.descend meter.taken).bind fun _ => .refl _

theorem statements {statement statement' : Token → Metered Unit}
    (h : ∀ token, Outlasts (statement token) (statement' token)) (closing : Parser.Closing)
    (hrounds : rounds' ≤ rounds) :
    Outlasts (Metered.statements statement closing rounds)
      (Metered.statements statement' closing rounds') := by
  induction rounds' generalizing rounds with
  | zero => exact .undefined
  | succ rounds' ih =>
      obtain ⟨rounds, rfl⟩ : ∃ n, rounds = n + 1 := ⟨rounds - 1, by omega⟩
      refine (refl _).bind fun meter => (refl _).bind fun token => (refl _).bind fun closed => ?_
      refine .ite (.refl _) ((h token).bind fun _ => ?_)
      exact (refl _).bind fun _ => ih (by omega)

theorem statement {block block' : Metered Unit} (h : Outlasts argument argument')
    (hblock : Outlasts block block') (hlimit : limit' ≤ limit) (token : Token) :
    Outlasts (Metered.statement limit argument block token)
      (Metered.statement limit' argument' block' token) := by
  have hcall : Outlasts
      (do if ← Metered.callable argument limit token then return () else lift (Emit.write .pop))
      (do if ← Metered.callable argument' limit' token then return ()
          else lift (Emit.write .pop)) :=
    (h.callable hlimit token).bind fun _ => .refl _
  refine .ite (.refl _) (.ite (.refl _) (.ite ?_ (.ite ?_ (.ite (.refl _) (.ite ?_ hcall)))))
  · exact h.bind fun _ => (refl _).bind fun _ => hblock.bind fun _ => .refl _
  · refine (refl _).bind fun meter => ?_
    exact h.bind fun _ => (refl _).bind fun _ => hblock.bind fun _ => .refl _
  · refine (refl _).bind fun ahead => .ite ((refl _).bind fun _ => ?_) hcall
    exact h.bind fun _ => .refl _

theorem block (hlimit : limit' ≤ limit) (levels : Nat) :
    Outlasts (Metered.block limit levels) (Metered.block limit' levels) := by
  induction levels with
  | zero => exact .undefined
  | succ levels ih =>
      refine (refl _).bind fun meter => (refl _).bind fun _ => (refl _).bind fun opened => ?_
      have hexpression := (expression hlimit levels).descend meter.taken
      exact .level _ (.statements (hexpression.statement (ih.descend meter.taken) hlimit) _ hlimit)

theorem wholeBlock (hlimit : limit' ≤ limit) :
    Outlasts (Metered.wholeBlock limit) (Metered.wholeBlock limit') := by
  refine (refl _).bind fun meter => ?_
  have hexpression := (expression hlimit (nestingLimit + 1)).descend meter.taken
  have hblock := (block hlimit (nestingLimit + 1)).descend meter.taken
  exact .statements (hexpression.statement hblock hlimit) _ hlimit

end Readers

end Metered.Outlasts

end StackScript
