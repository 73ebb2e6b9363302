import StackScript.Proofs.Checked
import StackScript.Script

/-!
# Declarations that are read by index

The tokens of a script can be kept in an array and read through an index that never passes the end
token. Braces are counted to find the end of a body. The index stays within the array, the count
never goes below zero, and a declaration is the same as that of the reader that takes tokens from a
list.
-/

namespace StackScript

/-- A place in an array of tokens. -/
structure Cursor where
  tokens : Array Token
  position : Nat := 0

/-- The tokens that are left. -/
def Cursor.rest (cursor : Cursor) : List Item :=
  (cursor.tokens.toList.drop cursor.position).map .ok

/-- A reader of tokens by index. -/
abbrev Reading := Checked CompileError Cursor

namespace Reading

/-- Looks at the current token. There has to be a last token. -/
def peek : Reading Token := fun cursor =>
  match cursor.tokens.size with
  | 0 => .error .undefined cursor
  | last + 1 => Checked.demand cursor.tokens[min cursor.position last]? cursor

/-- Takes the current token. The end token stays where it is. -/
def next : Reading Token := do
  let token ← peek
  if token.kind ≠ .eof then
    modify fun cursor => { cursor with position := cursor.position + 1 }
  return token

/-- Takes parameters and the parenthesis after them; there is one parameter at least. -/
def parameters : (rounds : Nat) → Reading (List Variable)
  | 0 => Checked.undefined
  | rounds + 1 => do
      let (name, type) ← Checked.typedName next .parameterName
      let token ← next
      if token.isMark ")" then return [⟨name.text, type⟩]
      else if token.isMark "," then return ⟨name.text, type⟩ :: (← parameters rounds)
      else Checked.unexpected .commaOrParenthesis token

/-- Takes the parameters of a function, if there are any, and the parenthesis after them. -/
def parameterList (rounds : Nat) : Reading (List Variable) := do
  if (← peek).isMark ")" then
    let _ ← next
    return []
  else parameters rounds

/-- Takes the type that a function returns, if one is written. -/
def returnType : Reading (Option TypeTag) := do
  if (← peek).kind = .identifier then return some (← Checked.declarableType (← next))
  else return none

/-- One block less is open. There has to be one. -/
def decrement : (depth : Nat) → Reading Nat
  | 0 => Checked.undefined
  | depth + 1 => return depth

/-- Takes the tokens up to the brace that closes a body, with `depth` blocks open. -/
def enclosed : (rounds depth : Nat) → Reading (List Item)
  | 0, _ => Checked.undefined
  | rounds + 1, depth => do
      let token ← next
      if token.kind = .eof then Checked.unexpected (.mark "\x7d") token
      else if token.isMark "\x7b" then return .ok token :: (← enclosed rounds (depth + 1))
      else if token.isMark "\x7d" then
        if depth = 0 then return [.ok (.eof token.line)]
        else return .ok token :: (← enclosed rounds (← decrement depth))
      else return .ok token :: (← enclosed rounds depth)

/-- Takes what follows the word `func`. -/
def functionDeclaration (rounds : Nat) : Reading Declaration := do
  let name ← Checked.identifier next .functionName
  let _ ← Checked.mark next "("
  let params ← parameterList rounds
  let returns ← returnType
  let _ ← Checked.mark next "\x7b"
  let body ← enclosed rounds 0
  return .function { name := name.text, params, returns } body

/-- Takes a declaration, if one comes next. -/
def declaration? (rounds : Nat) : Reading (Option Declaration) := do
  let token ← peek
  if token.isWord "var" then
    let _ ← next
    let (name, type) ← Checked.typedName next .variableName
    return some (.variable name.text type)
  else if token.isWord "func" then
    let _ ← next
    return some (← functionDeclaration rounds)
  else return none

end Reading

/-! ## What the two readers have in common -/

/-- The cursor is on a token before which the other reader stands, and an end token comes last. -/
structure Cursor.Shows (cursor : Cursor) (state : Parser.State) : Prop where
  rest : state.rest = cursor.rest
  within : cursor.position < cursor.tokens.size
  last : ∃ token ∈ cursor.tokens.back?, token.kind = .eof

/-- From here on, the reader by index does what the other reader does. If that one succeeds, so does
this one, and then the two stand at the same place again. If that one fails, this one fails with the
same error. -/
def Reads {α β : Type} (reading : Reading β) (parser : Parser α) (cursor : Cursor)
    (state : Parser.State) (post : α → β → Parser.State → Prop) : Prop :=
  match parser state with
  | .ok value state' => ∃ result cursor', reading cursor = .ok result cursor' ∧
      cursor'.Shows state' ∧ post value result state'
  | .error error _ => ∃ cursor', reading cursor = .error (.error error) cursor'

namespace Reads

variable {α β γ δ : Type} {cursor : Cursor} {state : Parser.State}

theorem pure {value : α} {result : β} {post : α → β → Parser.State → Prop}
    (h : cursor.Shows state) (hpost : post value result state) :
    Reads (Pure.pure result) (Pure.pure value) cursor state post :=
  ⟨result, cursor, rfl, h, hpost⟩

theorem fail {error : CompileError} {post : α → β → Parser.State → Prop} :
    Reads (Checked.fail error) (throw error) cursor state post :=
  ⟨cursor, rfl⟩

theorem bind {reading : Reading β} {parser : Parser α} {next : β → Reading δ}
    {next' : α → Parser γ} {post : α → β → Parser.State → Prop}
    {post' : γ → δ → Parser.State → Prop} (h : Reads reading parser cursor state post)
    (h' : ∀ value result cursor' state', cursor'.Shows state' → post value result state' →
      Reads (next result) (next' value) cursor' state' post') :
    Reads (reading >>= next) (parser >>= next') cursor state post' := by
  unfold Reads at h ⊢
  simp only [Bind.bind, EStateM.bind]
  cases hparser : parser state with
  | ok value state' =>
      rw [hparser] at h
      obtain ⟨result, cursor', hreading, hshows, hpost⟩ := h
      rw [hreading]
      exact h' value result cursor' state' hshows hpost
  | error error state' =>
      rw [hparser] at h
      obtain ⟨cursor', hreading⟩ := h
      rw [hreading]
      exact ⟨cursor', rfl⟩

/-- Steps that need no further argument. -/
theorem moved {reading reading₁ : Reading β} {parser parser₁ : Parser α} {cursor₁ : Cursor}
    {state₁ : Parser.State} {post : α → β → Parser.State → Prop}
    (h : Reads reading₁ parser₁ cursor₁ state₁ post)
    (hreading : reading cursor = reading₁ cursor₁) (hparser : parser state = parser₁ state₁) :
    Reads reading parser cursor state post := by
  unfold Reads at h ⊢
  rwa [hreading, hparser]

/-- Both have read the same, and something was taken. -/
def Taken (state : Parser.State) (value result : α) (state' : Parser.State) : Prop :=
  result = value ∧ state'.rest.length < state.rest.length

theorem take {reading : Reading α} {parser : Parser α} {next : α → Reading δ}
    {next' : α → Parser γ} {post' : γ → δ → Parser.State → Prop}
    (h : Reads reading parser cursor state (Taken state))
    (h' : ∀ value cursor' state', cursor'.Shows state' →
      state'.rest.length < state.rest.length →
      Reads (next value) (next' value) cursor' state' post') :
    Reads (reading >>= next) (parser >>= next') cursor state post' := by
  refine h.bind ?_
  rintro value result cursor' state' hshows ⟨rfl, hlength⟩
  exact h' result cursor' state' hshows hlength

end Reads

/-- The end token is no punctuation mark. -/
theorem Token.isMark_eq_false {token : Token} (h : token.kind = .eof) (symbol : String) :
    ¬token.isMark symbol = true := by
  simp [isMark, h]

namespace Cursor.Shows

variable {α β : Type} {cursor : Cursor} {state : Parser.State} (h : cursor.Shows state)
include h

/-- Both look at the same token. Unless it is the end token, both can go past it. -/
theorem current : ∃ token rest, state.rest = .ok token :: rest ∧
    Reading.peek cursor = .ok token cursor ∧
    (token.kind ≠ .eof → Shows { cursor with position := cursor.position + 1 }
      { state with rest, line := token.line }) := by
  have hwithin := h.within
  have hrest : cursor.rest = .ok cursor.tokens[cursor.position] ::
      Cursor.rest { cursor with position := cursor.position + 1 } := by
    unfold Cursor.rest
    rw [List.drop_eq_getElem_cons (by simpa using hwithin)]
    simp
  refine ⟨cursor.tokens[cursor.position],
    Cursor.rest { cursor with position := cursor.position + 1 }, h.rest.trans hrest, ?_, ?_⟩
  · unfold Reading.peek
    cases hsize : cursor.tokens.size with
    | zero => omega
    | succ last =>
        have hmin : min cursor.position last = cursor.position := by omega
        simp only [hmin, Array.getElem?_eq_getElem hwithin]
        rfl
  · intro hkind
    refine ⟨rfl, ?_, h.last⟩
    -- a position past the last token would make this one the last, which is the end token
    by_contra hover
    obtain ⟨token, hlast, heof⟩ := h.last
    have hposition : cursor.tokens.size - 1 = cursor.position := by
      dsimp only at hover
      omega
    have htoken : cursor.tokens[cursor.position]? = some token := by
      rw [← hposition, ← Array.back?_eq_getElem?]
      exact hlast
    rw [Array.getElem?_eq_getElem hwithin, Option.some.injEq] at htoken
    exact hkind (htoken ▸ heof)

/-- Taking a token that is not the end token. -/
theorem skip {token : Token} {rest : List Item} (hrest : state.rest = .ok token :: rest)
    (htoken : token.kind ≠ .eof) :
    ∃ cursor' state', Reading.next cursor = .ok token cursor' ∧
      Parser.next state = .ok token state' ∧ cursor'.Shows state' ∧
      state'.rest.length < state.rest.length := by
  obtain ⟨token', rest', hrest', hpeek, hmove⟩ := h.current
  cases hrest.symm.trans hrest'
  refine ⟨_, { state with rest, line := token.line }, ?_, ?_, hmove htoken, ?_⟩
  · unfold Reading.next
    rw [bind_of_ok hpeek, if_pos htoken]
    rfl
  · simp only [Parser.next, hrest]
  · simp [hrest]

/-- Taking the next token. What follows has to refuse the end token. -/
theorem next_bind (expected : Expected) {reading : Token → Reading β} {parser : Token → Parser α}
    {post : α → β → Parser.State → Prop}
    (hend : ∀ token, token.kind = .eof → reading token = Checked.unexpected expected token ∧
      parser token = Parser.unexpected expected token)
    (hnext : ∀ token cursor' state', token.kind ≠ .eof → cursor'.Shows state' →
      state'.rest.length < state.rest.length →
      Reads (reading token) (parser token) cursor' state' post) :
    Reads (Reading.next >>= reading) (Parser.next >>= parser) cursor state post := by
  obtain ⟨token, rest, hrest, hpeek, -⟩ := h.current
  by_cases htoken : token.kind = .eof
  -- here the two part: the parser drops the end token and the cursor stays on it, so nothing but
  -- an error may follow
  · obtain ⟨hreading, hparser⟩ := hend token htoken
    have hnext : Reading.next cursor = .ok token cursor := by
      unfold Reading.next
      rw [bind_of_ok hpeek, if_neg (not_not.2 htoken)]
      rfl
    have hnext' : Parser.next state = .ok token { state with rest, line := token.line } := by
      simp only [Parser.next, hrest]
    unfold Reads
    rw [bind_of_ok hnext', hparser, bind_of_ok hnext, hreading]
    exact ⟨cursor, rfl⟩
  · obtain ⟨cursor', state', hcursor, hstate, hshows, hlength⟩ := h.skip hrest htoken
    exact (hnext token cursor' state' htoken hshows hlength).moved (bind_of_ok hcursor)
      (bind_of_ok hstate)

/-- Looking at the next token. -/
theorem peek_bind {reading : Token → Reading β} {parser : Token → Parser α}
    {post : α → β → Parser.State → Prop}
    (hnext : ∀ token rest, state.rest = .ok token :: rest →
      Reads (reading token) (parser token) cursor state post) :
    Reads (Reading.peek >>= reading) (Parser.peek >>= parser) cursor state post := by
  obtain ⟨token, rest, hrest, hpeek, -⟩ := h.current
  have hpeek' : Parser.peek state = .ok token state := by simp only [Parser.peek, hrest]
  exact (hnext token rest hrest).moved (bind_of_ok hpeek) (bind_of_ok hpeek')

/-- Taking a token that was looked at and is not the end token. -/
theorem skip_bind {token : Token} {rest : List Item} (hrest : state.rest = .ok token :: rest)
    (htoken : token.kind ≠ .eof) {reading : Token → Reading β} {parser : Token → Parser α}
    {post : α → β → Parser.State → Prop}
    (hnext : ∀ cursor' state', cursor'.Shows state' →
      state'.rest.length < state.rest.length →
      Reads (reading token) (parser token) cursor' state' post) :
    Reads (Reading.next >>= reading) (Parser.next >>= parser) cursor state post := by
  obtain ⟨cursor', state', hcursor, hstate, hshows, hlength⟩ := h.skip hrest htoken
  exact (hnext cursor' state' hshows hlength).moved (bind_of_ok hcursor) (bind_of_ok hstate)

/-! ## Readers -/

theorem mark (symbol : String) :
    Reads (Checked.mark Reading.next symbol) (Parser.mark symbol) cursor state
      (Reads.Taken state) := by
  refine h.next_bind (.mark symbol) (fun token htoken => ?_)
    fun token cursor' state' _ hshows hlength => ?_
  · have hmark := Token.isMark_eq_false htoken symbol
    exact ⟨if_neg hmark, if_neg hmark⟩
  · by_cases hmark : token.isMark symbol = true
    · rw [if_pos hmark, if_pos hmark]
      exact .pure hshows ⟨rfl, hlength⟩
    · rw [if_neg hmark, if_neg hmark]
      exact .fail

theorem identifier (expected : Expected) :
    Reads (Checked.identifier Reading.next expected) (Parser.identifier expected) cursor state
      (Reads.Taken state) := by
  refine h.next_bind expected (fun token htoken => ?_)
    fun token cursor' state' _ hshows hlength => ?_
  · have hkind : token.kind ≠ .identifier := by simp [htoken]
    exact ⟨if_neg hkind, if_neg hkind⟩
  · by_cases hkind : token.kind = .identifier
    · rw [if_pos hkind, if_pos hkind]
      exact .pure hshows ⟨rfl, hlength⟩
    · rw [if_neg hkind, if_neg hkind]
      exact .fail

theorem declarableType (token : Token) :
    Reads (Checked.declarableType token) (Parser.declarableType token) cursor state
      fun value result state' => result = value ∧ state' = state := by
  unfold Checked.declarableType Parser.declarableType
  cases TypeTag.ofName? token.text with
  | none => exact .fail
  | some type =>
      by_cases hdeclarable : type.isDeclarable = true
      · simp only [if_pos hdeclarable]
        exact .pure h ⟨rfl, rfl⟩
      · simp only [if_neg hdeclarable]
        exact .fail

theorem typedName (expected : Expected) :
    Reads (Checked.typedName Reading.next expected) (Parser.typedName expected) cursor state
      (Reads.Taken state) := by
  refine (h.identifier expected).take fun name cursor₁ state₁ h₁ hlength₁ => ?_
  refine (h₁.identifier .typeName).take fun word cursor₂ state₂ h₂ hlength₂ => ?_
  refine (h₂.declarableType word).bind ?_
  rintro type _ cursor₃ _ h₃ ⟨rfl, rfl⟩
  exact .pure h₃ ⟨rfl, hlength₂.trans hlength₁⟩

theorem parameters {rounds : Nat} (hrounds : state.rest.length ≤ rounds) :
    Reads (Reading.parameters rounds) (Parser.parameters rounds) cursor state
      (Reads.Taken state) := by
  induction rounds generalizing cursor state with
  | zero =>
      obtain ⟨token, rest, hrest, -⟩ := h.current
      simp [hrest] at hrounds
  | succ rounds ih =>
      refine (h.typedName .parameterName).take fun named cursor₁ state₁ h₁ hlength₁ => ?_
      refine h₁.next_bind .commaOrParenthesis (fun token htoken => ?_)
        fun token cursor₂ state₂ _ h₂ hlength₂ => ?_
      · have hcloses := Token.isMark_eq_false htoken ")"
        have hcomma := Token.isMark_eq_false htoken ","
        rw [if_neg hcloses, if_neg hcloses, if_neg hcomma, if_neg hcomma]
        exact ⟨rfl, rfl⟩
      · have hlength := hlength₂.trans hlength₁
        by_cases hcloses : token.isMark ")" = true
        · rw [if_pos hcloses, if_pos hcloses]
          exact .pure h₂ ⟨rfl, hlength⟩
        · rw [if_neg hcloses, if_neg hcloses]
          by_cases hcomma : token.isMark "," = true
          · rw [if_pos hcomma, if_pos hcomma]
            refine (ih h₂ (by omega)).take fun rest cursor₃ state₃ h₃ hlength₃ => ?_
            exact .pure h₃ ⟨rfl, hlength₃.trans hlength⟩
          · rw [if_neg hcomma, if_neg hcomma]
            exact .fail

theorem parameterList {rounds : Nat} (hrounds : state.rest.length ≤ rounds) :
    Reads (Reading.parameterList rounds) (Parser.parameterList rounds) cursor state
      (Reads.Taken state) := by
  refine h.peek_bind fun token rest hrest => ?_
  by_cases hcloses : token.isMark ")" = true
  · rw [if_pos hcloses, if_pos hcloses]
    have htoken : token.kind ≠ .eof := fun heof => Token.isMark_eq_false heof ")" hcloses
    refine h.skip_bind hrest htoken fun cursor₁ state₁ h₁ hlength => ?_
    exact .pure h₁ ⟨rfl, hlength⟩
  · rw [if_neg hcloses, if_neg hcloses]
    exact h.parameters hrounds

theorem returnType :
    Reads Reading.returnType Parser.returnType cursor state
      fun value result state' => result = value ∧ state'.rest.length ≤ state.rest.length := by
  refine h.peek_bind fun token rest hrest => ?_
  by_cases hkind : token.kind = .identifier
  · rw [if_pos hkind, if_pos hkind]
    refine h.skip_bind hrest (by simp [hkind]) fun cursor₁ state₁ h₁ hlength => ?_
    refine (h₁.declarableType token).bind ?_
    rintro type _ cursor₂ _ h₂ ⟨rfl, rfl⟩
    exact .pure h₂ ⟨rfl, hlength.le⟩
  · rw [if_neg hkind, if_neg hkind]
    exact .pure h ⟨rfl, Nat.le_refl _⟩

/-- Braces are counted, and the count is above zero when it goes down. -/
theorem enclosed {rounds depth : Nat} (hrounds : state.rest.length ≤ rounds) :
    Reads (Reading.enclosed rounds depth) (Parser.enclosed rounds depth) cursor state
      (Reads.Taken state) := by
  induction rounds generalizing cursor state depth with
  | zero =>
      obtain ⟨token, rest, hrest, -⟩ := h.current
      simp [hrest] at hrounds
  | succ rounds ih =>
      unfold Reading.enclosed Parser.enclosed
      refine h.next_bind (.mark "\x7d") (fun token htoken => ?_)
        fun token cursor₁ state₁ htoken h₁ hlength₁ => ?_
      · exact ⟨if_pos htoken, if_pos htoken⟩
      · rw [if_neg htoken, if_neg htoken]
        have hmore : ∀ depth, Reads
            (do return .ok token :: (← Reading.enclosed rounds depth))
            (do return .ok token :: (← Parser.enclosed rounds depth)) cursor₁ state₁
            (Reads.Taken state) := fun depth => by
          refine (ih h₁ (by omega)).take fun items cursor₂ state₂ h₂ hlength₂ => ?_
          exact .pure h₂ ⟨rfl, hlength₂.trans hlength₁⟩
        by_cases hopens : token.isMark "\x7b" = true
        · have hcloses : ¬token.isMark "\x7d" = true := by
            simp_all [Token.isMark]
          rw [if_pos hopens, if_neg hcloses, if_pos hopens]
          exact hmore (depth + 1)
        · rw [if_neg hopens, if_neg hopens]
          by_cases hcloses : token.isMark "\x7d" = true
          · rw [if_pos hcloses, if_pos hcloses]
            cases depth with
            | zero => exact .pure h₁ ⟨rfl, hlength₁⟩
            | succ depth =>
                rw [if_neg (Nat.succ_ne_zero depth)]
                exact hmore depth
          · rw [if_neg hcloses, if_neg hcloses]
            exact hmore depth

theorem functionDeclaration {rounds : Nat} (hrounds : state.rest.length ≤ rounds) :
    Reads (Reading.functionDeclaration rounds) (Parser.functionDeclaration rounds) cursor state
      (Reads.Taken state) := by
  refine (h.identifier .functionName).take fun name cursor₁ state₁ h₁ hlength₁ => ?_
  refine (h₁.mark "(").take fun _ cursor₂ state₂ h₂ hlength₂ => ?_
  refine (h₂.parameterList (by omega)).take fun params cursor₃ state₃ h₃ hlength₃ => ?_
  refine h₃.returnType.bind ?_
  rintro returns _ cursor₄ state₄ h₄ ⟨rfl, hlength₄⟩
  refine (h₄.mark "\x7b").take fun _ cursor₅ state₅ h₅ hlength₅ => ?_
  refine (h₅.enclosed (by omega)).take fun body cursor₆ state₆ h₆ hlength₆ => ?_
  exact .pure h₆ ⟨rfl, by omega⟩

theorem declaration? {rounds : Nat} (hrounds : state.rest.length ≤ rounds) :
    Reads (Reading.declaration? rounds) (Parser.declaration? rounds) cursor state
      fun value result state' => result = value ∧
        (value.isSome → state'.rest.length < state.rest.length) := by
  refine h.peek_bind fun token rest hrest => ?_
  by_cases hvar : token.isWord "var" = true
  · rw [if_pos hvar, if_pos hvar]
    have htoken : token.kind ≠ .eof := by simp_all [Token.isWord]
    refine h.skip_bind hrest htoken fun cursor₁ state₁ h₁ hlength₁ => ?_
    refine (h₁.typedName .variableName).take fun named cursor₂ state₂ h₂ hlength₂ => ?_
    exact .pure h₂ ⟨rfl, fun _ => hlength₂.trans hlength₁⟩
  · rw [if_neg hvar, if_neg hvar]
    by_cases hfunc : token.isWord "func" = true
    · rw [if_pos hfunc, if_pos hfunc]
      have htoken : token.kind ≠ .eof := by simp_all [Token.isWord]
      refine h.skip_bind hrest htoken fun cursor₁ state₁ h₁ hlength₁ => ?_
      refine (h₁.functionDeclaration (by omega)).take fun declared cursor₂ state₂ h₂ hlength₂ => ?_
      exact .pure h₂ ⟨rfl, fun _ => hlength₂.trans hlength₁⟩
    · rw [if_neg hfunc, if_neg hfunc]
      exact .pure h ⟨rfl, by simp⟩

end Cursor.Shows

end StackScript
