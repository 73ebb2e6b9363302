import StackScript.Proofs.Acceptance
import StackScript.Proofs.Checked

/-!
# A compiler that writes in place

A block is read as a tree, and its code is that of the tree. The code can also be written while the
block is read: instructions go to the end of one array, a jump over code that is not there yet is
filled in later, and a counter keeps track of the nesting. Such a compiler and the parser are
compared step by step, with rules for sequences of steps and a lemma for each way to take tokens.
-/

namespace StackScript

/-- The state of a compiler that writes code in place. -/
structure Emitter where
  /-- The items not looked at yet. -/
  stream : List Item
  /-- A token that was looked at and not taken. -/
  peeked : Option Token := none
  /-- The line of the last token looked at. -/
  lastLine : Nat := 1
  /-- How many expressions and blocks are open. -/
  depth : Nat := 0
  code : Array Instruction := #[]
  /-- The locals declared so far, inside a function. -/
  locals : Option IndexedTable := none

/-- A step of a compiler that writes code in place. -/
abbrev Emit := Checked CompileError Emitter

namespace Emit

variable {α : Type}

/-- Looks at the next item of the stream. After the last item there is only the end of the
input. -/
def pull : Emit Token := fun emitter =>
  match emitter.stream with
  | [] => .ok (.eof emitter.lastLine) emitter
  | .error error :: stream => .error (.error (.lex error)) { emitter with stream }
  | .ok token :: stream => .ok token { emitter with stream, lastLine := token.line }

/-- Takes the next token. -/
def next : Emit Token := fun emitter =>
  match emitter.peeked with
  | some token => .ok token { emitter with peeked := none }
  | none => pull emitter

/-- Looks at the next token without taking it. -/
def peek : Emit Token := do
  let token ← next
  modify fun emitter => { emitter with peeked := some token }
  return token

/-- Goes one level down, unless that is too deep. -/
def enter (line : Nat) : Emit Unit := fun emitter =>
  if nestingLimit ≤ emitter.depth then .error (.error (.nestingTooDeep line)) emitter
  else .ok () { emitter with depth := emitter.depth + 1 }

/-- Comes back up. There has to be a level to come back from. -/
def leave : Emit Unit := fun emitter =>
  match emitter.depth with
  | 0 => .error .undefined emitter
  | depth + 1 => .ok () { emitter with depth }

/-- Does something one level down, and comes back up whether or not it fails. -/
def level (line : Nat) (inside : Emit α) : Emit α := do
  enter line
  let result ← Checked.attempt inside
  leave
  Checked.ofExcept result

/-- Puts an instruction at the end of the code and gives its index. -/
def emit (instruction : Instruction) : Emit Nat := fun emitter =>
  let code := emitter.code.push instruction
  match code.size with
  | 0 => .error .undefined { emitter with code }
  | last + 1 => .ok last { emitter with code }

/-- Puts an instruction at the end of the code. -/
def write (instruction : Instruction) : Emit Unit := do
  let _ ← emit instruction
  return ()

/-- The target of a jump that is not known yet, 2^64 - 1. -/
def pending : Nat := 18446744073709551615

/-- Lets the jump at an index lead to the end of the code. -/
def patch (index : Nat) : Emit Unit :=
  modify fun emitter =>
    match emitter.code[index]? with
    | some (.jumpIfZero _) =>
        { emitter with code := emitter.code.setIfInBounds index (.jumpIfZero emitter.code.size) }
    | _ => emitter

/-- The place of a name: a local if it is declared as one, else a global. -/
def resolve (name : String) : Emit Place := do
  match (← get).locals with
  | none => return .global name
  | some table =>
      match ← table.find name with
      | none => return .global name
      | some cell => return .slot cell.slot cell.type

/-- Writes the term that a token is. -/
def term (token : Token) : Emit Unit := do
  match token.kind with
  | .number =>
      match Parser.numberValue? token.text with
      | some value => write (.push (.int value))
      | none => Checked.fail (.invalidNumber token.line token.text)
  | .string => write (.push (.str token.text))
  | .identifier =>
      let place ← resolve token.text
      write place.load
  | _ => Checked.unexpected .term token

/-- Writes arguments up to the parenthesis after them and counts them; there is one argument at
least. -/
def arguments (argument : Emit Unit) : (rounds count : Nat) → Emit Nat
  | 0, _ => Checked.undefined
  | rounds + 1, count => do
      argument
      let token ← next
      if token.isMark ")" then return count + 1
      else if token.isMark "," then arguments argument rounds (count + 1)
      else Checked.unexpected .commaOrParenthesis token

/-- Writes what follows the opening parenthesis of a call and counts the arguments. -/
def callArguments (argument : Emit Unit) (rounds : Nat) : Emit Nat := do
  if (← peek).isMark ")" then
    let _ ← next
    return 0
  else arguments argument rounds 0

/-- Writes the calls that follow a term, and says whether there are any. -/
def calls (argument : Emit Unit) (limit : Nat) : (rounds : Nat) → (called : Bool) → Emit Bool
  | 0, _ => Checked.undefined
  | rounds + 1, called => do
      if (← peek).isMark "(" then
        let _ ← next
        let count ← callArguments argument limit
        write (.invoke count)
        calls argument limit rounds true
      else return called

/-- Writes a term that starts with a token, and the calls that follow it. -/
def callable (argument : Emit Unit) (limit : Nat) (token : Token) : Emit Bool := do
  term token
  calls argument limit limit false

/-- Writes an expression. -/
def expression (limit : Nat) : (levels : Nat) → Emit Unit
  | 0 => Checked.undefined
  | levels + 1 => do
      let first ← next
      level first.line do
        let _ ← callable (expression limit levels) limit first
        let token ← peek
        if token.kind = .operator then
          let _ ← next
          match Operator.ofSymbol? token.text with
          | none => Checked.fail (.unknownOperator token.line token.text)
          | some operator =>
              expression limit levels
              write (.binary operator)
        else return ()

/-- Whether a token ends a sequence of statements. The wrong end is an error. -/
def closes (closing : Parser.Closing) (token : Token) : Emit Bool :=
  match closing with
  | .endOfInput =>
      if token.kind = .eof then pure true
      else if token.isMark "\x7d" then Checked.unexpected .statement token
      else pure false
  | .brace =>
      if token.isMark "\x7d" then pure true
      else if token.kind = .eof then Checked.unexpected (.mark "\x7d") token
      else pure false

/-- Writes statements up to what closes them. -/
def statements (statement : Token → Emit Unit) (closing : Parser.Closing) :
    (rounds : Nat) → Emit Unit
  | 0 => Checked.undefined
  | rounds + 1 => do
      let token ← next
      if ← closes closing token then return ()
      else
        statement token
        statements statement closing rounds

/-- Declares a local whose name and type were read. -/
def declareLocal (line : Nat) (name : Token) (type : TypeTag) : Emit Unit := do
  match (← get).locals with
  | none => Checked.fail (.localOutsideFunction line)
  | some table =>
      match table.declare ⟨name.text, type⟩ with
      | .error _ => Checked.fail (.duplicateLocal name.line name.text)
      | .ok (_, table) => modify fun emitter => { emitter with locals := some table }

/-- Declares a local. -/
def localDeclaration (line : Nat) : Emit Unit := do
  let (name, type) ← Checked.typedName next .localName
  declareLocal line name type

/-- Writes a statement that starts with a token. -/
def statement (limit levels : Nat) (block : Emit Unit) (token : Token) : Emit Unit := do
  if token.isMark ";" then return ()
  else if token.isWord "return" then
    write .ret
  else if token.isWord "if" then
    expression limit levels
    let jump ← emit (.jumpIfZero pending)
    block
    patch jump
  else if token.isWord "while" then
    let start := (← get).code.size
    expression limit levels
    let jump ← emit (.jumpIfZero pending)
    block
    write (.push (.int 0))
    write (.jumpIfZero start)
    patch jump
  else if token.isWord "local" then localDeclaration token.line
  else if token.kind = .identifier then
    if (← peek).kind = .assign then
      let _ ← next
      expression limit levels
      let place ← resolve token.text
      write place.store
    else
      if ← callable (expression limit levels) limit token then return ()
      else write .pop
  else
    if ← callable (expression limit levels) limit token then return ()
    else write .pop

/-- Writes a block in braces. -/
def block (limit : Nat) : (levels : Nat) → Emit Unit
  | 0 => Checked.undefined
  | levels + 1 => do
      let _ ← Checked.mark next "\x7b"
      level (← get).lastLine
        (statements (statement limit levels (block limit levels)) .brace limit)

/-- Writes statements up to the end of the input. -/
def wholeBlock (limit : Nat) : Emit Unit :=
  statements (statement limit (nestingLimit + 1) (block limit (nestingLimit + 1))) .endOfInput
    limit

end Emit

/-! ## What the emitter and the parser have in common -/

namespace Emitter

/-- What is left to read, with what was looked at and the line of that, and the same for a parser
that does not look ahead. -/
inductive Input : List Item → Option Token → Nat → List Item → Nat → Prop
  | plain {rest : List Item} {line : Nat} : Input rest none line rest line
  | ahead {token : Token} {rest : List Item} {line : Nat} :
      Input rest (some token) token.line (.ok token :: rest) line
  | ended {line : Nat} : Input [] (some (.eof line)) line [] line

/-- The emitter stands where the parser does. There are `budget` levels left, and the code is the
given one. -/
structure Shows (emitter : Emitter) (budget : Nat) (code : List Instruction)
    (state : Parser.State) : Prop where
  input : Input emitter.stream emitter.peeked emitter.lastLine state.rest state.line
  depth : emitter.depth + budget = nestingLimit
  code : emitter.code.toList = code
  locals : emitter.locals.map IndexedTable.table = state.locals
  consistent : ∀ table ∈ emitter.locals, table.Consistent

end Emitter

/-- From here on, the emitter does what the parser does. If the parser succeeds, so does the
emitter, and then the two stand at the same place again. If the parser fails, the emitter fails with
the same error, at the depth where it started, and the code still begins with `base`. -/
def Emits {α β : Type} (budget : Nat) (base : List Instruction) (emit : Emit β)
    (parser : Parser α) (emitter : Emitter) (state : Parser.State)
    (post : α → β → List Instruction → Prop) : Prop :=
  match parser state with
  | .ok value state' => ∃ result emitter' code, emit emitter = .ok result emitter' ∧
      post value result code ∧ emitter'.Shows budget code state'
  | .error error _ => ∃ emitter', emit emitter = .error (.error error) emitter' ∧
      emitter'.depth + budget = nestingLimit ∧ base <+: emitter'.code.toList

namespace Emits

variable {α β γ δ : Type} {budget : Nat} {base code : List Instruction} {emitter : Emitter}
  {state : Parser.State}

theorem pure {value : α} {result : β} {post : α → β → List Instruction → Prop}
    (h : emitter.Shows budget code state) (hpost : post value result code) :
    Emits budget base (Pure.pure result) (Pure.pure value) emitter state post :=
  ⟨result, emitter, code, rfl, hpost, h⟩

theorem fail {error : CompileError} {post : α → β → List Instruction → Prop}
    (h : emitter.Shows budget code state) (hbase : base <+: code) :
    Emits budget base (Checked.fail error) (throw error) emitter state post :=
  ⟨emitter, rfl, h.depth, h.code ▸ hbase⟩

theorem bind {emit : Emit β} {parser : Parser α} {next : β → Emit δ} {next' : α → Parser γ}
    {post : α → β → List Instruction → Prop} {post' : γ → δ → List Instruction → Prop}
    (h : Emits budget code emit parser emitter state post) (hbase : base <+: code)
    (h' : ∀ value result code' emitter' state', parser state = .ok value state' →
      post value result code' → emitter'.Shows budget code' state' →
      Emits budget base (next result) (next' value) emitter' state' post') :
    Emits budget base (emit >>= next) (parser >>= next') emitter state post' := by
  unfold Emits at h ⊢
  simp only [Bind.bind, EStateM.bind]
  cases hparser : parser state with
  | ok value state' =>
      rw [hparser] at h
      obtain ⟨result, emitter', code', hemit, hpost, hshows⟩ := h
      rw [hemit]
      exact h' value result code' emitter' state' hparser hpost hshows
  | error error state' =>
      rw [hparser] at h
      obtain ⟨emitter', hemit, hdepth, hcode⟩ := h
      rw [hemit]
      exact ⟨emitter', rfl, hdepth, hbase.trans hcode⟩

/-- What holds of a part of the code is enough. -/
theorem mono {emit : Emit β} {parser : Parser α} {post post' : α → β → List Instruction → Prop}
    (h : Emits budget code emit parser emitter state post) (hbase : base <+: code)
    (himp : ∀ value result code', post value result code' → post' value result code') :
    Emits budget base emit parser emitter state post' := by
  unfold Emits at h ⊢
  cases hparser : parser state with
  | ok value state' =>
      rw [hparser] at h
      obtain ⟨result, emitter', code', hemit, hpost, hshows⟩ := h
      exact ⟨result, emitter', code', hemit, himp value result code' hpost, hshows⟩
  | error error state' =>
      rw [hparser] at h
      obtain ⟨emitter', hemit, hdepth, hcode⟩ := h
      exact ⟨emitter', hemit, hdepth, hbase.trans hcode⟩

/-- The parser may do something with what it has read. -/
theorem map {emit : Emit β} {parser : Parser α} {f : α → γ}
    {post : α → β → List Instruction → Prop} {post' : γ → β → List Instruction → Prop}
    (h : Emits budget code emit parser emitter state post) (hbase : base <+: code)
    (himp : ∀ value result code', post value result code' → post' (f value) result code') :
    Emits budget base emit (do return f (← parser)) emitter state post' := by
  unfold Emits at h ⊢
  simp only [Bind.bind, EStateM.bind]
  cases hparser : parser state with
  | ok value state' =>
      rw [hparser] at h
      obtain ⟨result, emitter', code', hemit, hpost, hshows⟩ := h
      exact ⟨result, emitter', code', hemit, himp value result code' hpost, hshows⟩
  | error error state' =>
      rw [hparser] at h
      obtain ⟨emitter', hemit, hdepth, hcode⟩ := h
      exact ⟨emitter', hemit, hdepth, hbase.trans hcode⟩

/-- Steps that only one of the two makes. -/
theorem moved {emit emit₁ : Emit β} {parser parser₁ : Parser α} {emitter₁ : Emitter}
    {state₁ : Parser.State} {post : α → β → List Instruction → Prop}
    (h : Emits budget base emit₁ parser₁ emitter₁ state₁ post)
    (hemit : emit emitter = emit₁ emitter₁) (hparser : parser state = parser₁ state₁) :
    Emits budget base emit parser emitter state post := by
  unfold Emits at h ⊢
  rwa [hemit, hparser]

/-- Both have read the same, and no code was written. -/
def Same (code : List Instruction) (value result : α) (code' : List Instruction) : Prop :=
  result = value ∧ code' = code

theorem read {emit : Emit α} {parser : Parser α} {next : α → Emit δ} {next' : α → Parser γ}
    {post : γ → δ → List Instruction → Prop}
    (h : Emits budget code emit parser emitter state (Same code)) (hbase : base <+: code)
    (h' : ∀ value emitter' state', parser state = .ok value state' →
      emitter'.Shows budget code state' →
      Emits budget base (next value) (next' value) emitter' state' post) :
    Emits budget base (emit >>= next) (parser >>= next') emitter state post := by
  refine h.bind hbase ?_
  rintro value result code' emitter' state' hparser ⟨rfl, rfl⟩ hshows
  exact h' result emitter' state' hparser hshows

end Emits

/-! ## Readers -/

namespace Emitter.Shows

variable {budget : Nat} {code : List Instruction} {emitter : Emitter} {state : Parser.State}
  (h : emitter.Shows budget code state)
include h

theorem next : Emits budget code Emit.next Parser.next emitter state (Emits.Same code) := by
  obtain ⟨stream, peeked, lastLine, depth, written, locals⟩ := emitter
  obtain ⟨rest, line, plain, events⟩ := state
  obtain ⟨hinput, hdepth, hcode, hlocals, hconsistent⟩ := h
  dsimp only at hinput
  cases hinput with
  | plain =>
      match stream with
      | [] => exact ⟨_, _, _, rfl, ⟨rfl, rfl⟩, .plain, hdepth, hcode, hlocals, hconsistent⟩
      | .error error :: stream => exact ⟨_, rfl, hdepth, hcode ▸ List.prefix_refl _⟩
      | .ok token :: stream =>
          exact ⟨_, _, _, rfl, ⟨rfl, rfl⟩, .plain, hdepth, hcode, hlocals, hconsistent⟩
  | ahead => exact ⟨_, _, _, rfl, ⟨rfl, rfl⟩, .plain, hdepth, hcode, hlocals, hconsistent⟩
  | ended => exact ⟨_, _, _, rfl, ⟨rfl, rfl⟩, .plain, hdepth, hcode, hlocals, hconsistent⟩

theorem peek : Emits budget code Emit.peek Parser.peek emitter state (Emits.Same code) := by
  obtain ⟨stream, peeked, lastLine, depth, written, locals⟩ := emitter
  obtain ⟨rest, line, plain, events⟩ := state
  obtain ⟨hinput, hdepth, hcode, hlocals, hconsistent⟩ := h
  dsimp only at hinput
  cases hinput with
  | plain =>
      match stream with
      | [] => exact ⟨_, _, _, rfl, ⟨rfl, rfl⟩, .ended, hdepth, hcode, hlocals, hconsistent⟩
      | .error error :: stream => exact ⟨_, rfl, hdepth, hcode ▸ List.prefix_refl _⟩
      | .ok token :: stream =>
          exact ⟨_, _, _, rfl, ⟨rfl, rfl⟩, .ahead, hdepth, hcode, hlocals, hconsistent⟩
  | ahead => exact ⟨_, _, _, rfl, ⟨rfl, rfl⟩, .ahead, hdepth, hcode, hlocals, hconsistent⟩
  | ended => exact ⟨_, _, _, rfl, ⟨rfl, rfl⟩, .ended, hdepth, hcode, hlocals, hconsistent⟩

theorem mark (symbol : String) :
    Emits budget code (Checked.mark Emit.next symbol) (Parser.mark symbol) emitter state
      (Emits.Same code) := by
  refine h.next.read (List.prefix_refl code) fun token emitter' state' _ hshows => ?_
  by_cases hmark : token.isMark symbol = true
  · rw [if_pos hmark, if_pos hmark]
    exact .pure hshows ⟨rfl, rfl⟩
  · rw [if_neg hmark, if_neg hmark]
    exact .fail hshows (List.prefix_refl code)

theorem identifier (expected : Expected) :
    Emits budget code (Checked.identifier Emit.next expected) (Parser.identifier expected) emitter
      state (Emits.Same code) := by
  refine h.next.read (List.prefix_refl code) fun token emitter' state' _ hshows => ?_
  by_cases hkind : token.kind = .identifier
  · rw [if_pos hkind, if_pos hkind]
    exact .pure hshows ⟨rfl, rfl⟩
  · rw [if_neg hkind, if_neg hkind]
    exact .fail hshows (List.prefix_refl code)

theorem declarableType (token : Token) :
    Emits budget code (Checked.declarableType token) (Parser.declarableType token) emitter state
      (Emits.Same code) := by
  unfold Checked.declarableType Parser.declarableType
  cases TypeTag.ofName? token.text with
  | none => exact .fail h (List.prefix_refl code)
  | some type =>
      by_cases hdeclarable : type.isDeclarable = true
      · simp only [if_pos hdeclarable]
        exact .pure h ⟨rfl, rfl⟩
      · simp only [if_neg hdeclarable]
        exact .fail h (List.prefix_refl code)

theorem typedName (expected : Expected) :
    Emits budget code (Checked.typedName Emit.next expected) (Parser.typedName expected) emitter
      state (Emits.Same code) := by
  have hbase := List.prefix_refl code
  refine (h.identifier expected).read hbase fun name emitter₁ state₁ _ h₁ => ?_
  refine (h₁.identifier .typeName).read hbase fun word emitter₂ state₂ _ h₂ => ?_
  refine (h₂.declarableType word).read hbase fun type emitter₃ state₃ _ h₃ => ?_
  exact .pure h₃ ⟨rfl, rfl⟩

/-- An instruction is put at the end of the code. -/
theorem emit (instruction : Instruction) :
    ∃ emitter', Emit.emit instruction emitter = .ok code.length emitter' ∧
      emitter'.Shows budget (code ++ [instruction]) state := by
  refine ⟨{ emitter with code := emitter.code.push instruction }, ?_, ?_⟩
  · have hlength : emitter.code.size = code.length := by rw [← h.code, Array.length_toList]
    simp [Emit.emit, hlength]
  · exact ⟨h.input, h.depth, by simp [h.code], h.locals, h.consistent⟩

theorem write (instruction : Instruction) :
    ∃ emitter', Emit.write instruction emitter = .ok () emitter' ∧
      emitter'.Shows budget (code ++ [instruction]) state := by
  obtain ⟨emitter', hemit, hshows⟩ := h.emit instruction
  exact ⟨emitter', bind_eq_ok.2 ⟨_, _, hemit, rfl⟩, hshows⟩

theorem resolve (name : String) :
    Emits budget code (Emit.resolve name) (Parser.resolve name) emitter state
      (Emits.Same code) := by
  have hplace : Emit.resolve name emitter = .ok (Grammar.place state.locals name) emitter := by
    unfold Emit.resolve
    rw [get_bind, ← h.locals]
    cases hlocals : emitter.locals with
    | none => rfl
    | some table =>
        simp only [(h.consistent table hlocals).find_eq, pure_bind, Grammar.place,
          Option.map_some, Option.bind_some]
        cases table.table.find? name <;> rfl
  unfold Emits
  rw [Parser.resolve_ok]
  exact ⟨_, emitter, code, hplace, ⟨rfl, rfl⟩, h⟩

theorem emit_then {α β : Type} {base : List Instruction} {next : Nat → Emit β}
    {parser : Parser α} {post : α → β → List Instruction → Prop} (instruction : Instruction)
    (h' : ∀ emitter', emitter'.Shows budget (code ++ [instruction]) state →
      Emits budget base (next code.length) parser emitter' state post) :
    Emits budget base (Emit.emit instruction >>= next) parser emitter state post := by
  obtain ⟨emitter', hemit, hshows⟩ := h.emit instruction
  exact (h' emitter' hshows).moved (bind_of_ok hemit) rfl

theorem write_then {α β : Type} {base : List Instruction} {next : Unit → Emit β}
    {parser : Parser α} {post : α → β → List Instruction → Prop} (instruction : Instruction)
    (h' : ∀ emitter', emitter'.Shows budget (code ++ [instruction]) state →
      Emits budget base (next ()) parser emitter' state post) :
    Emits budget base (Emit.write instruction >>= next) parser emitter state post := by
  obtain ⟨emitter', hwrite, hshows⟩ := h.write instruction
  exact (h' emitter' hshows).moved (bind_of_ok hwrite) rfl

theorem write_last {α : Type} {base : List Instruction} {value : α}
    {post : α → Unit → List Instruction → Prop} (instruction : Instruction)
    (hpost : post value () (code ++ [instruction])) :
    Emits budget base (Emit.write instruction) (pure value) emitter state post := by
  obtain ⟨emitter', hwrite, hshows⟩ := h.write instruction
  exact ⟨(), emitter', _, hwrite, hpost, hshows⟩

/-- A term is one instruction. -/
theorem term (token : Token) :
    Emits budget code (Emit.term token) (Parser.term token) emitter state
      fun tree _ code' => code' = code ++ tree.code ∧ tree.isCall = false := by
  unfold Emit.term Parser.term
  cases token.kind with
  | number =>
      cases Parser.numberValue? token.text with
      | none => exact .fail h (List.prefix_refl code)
      | some value => exact h.write_last _ ⟨rfl, rfl⟩
  | string => exact h.write_last _ ⟨rfl, rfl⟩
  | identifier =>
      rw [map_eq_pure_bind]
      refine (h.resolve token.text).read (List.prefix_refl code)
        fun place emitter' state' _ h' => ?_
      exact h'.write_last _ ⟨rfl, rfl⟩
  | eof | operator | assign | punctuation => exact .fail h (List.prefix_refl code)

end Emitter.Shows

theorem Parser.length_of_next {state state' : Parser.State} {token : Token}
    (h : Parser.next state = .ok token state') : state'.rest.length ≤ state.rest.length := by
  rcases Parser.next_ok h with hpasses | ⟨-, rfl, -⟩
  · have hlength := hpasses.takes.length
    omega
  · exact Nat.le_refl _

end StackScript
