import StackScript.Proofs.Emitter

/-!
# Code that is written in place

Writing code while a block is read gives the code of the tree that the parser reads, and the same
errors. The counter of the nesting never goes below zero, and whatever stood in the array at the
start is still there at the end, also after an error.
-/

namespace StackScript

/-! ## Expressions -/

/-- The emitter writes the code of the expression that the parser reads, on streams of at most
`bound` items. -/
def WritesExpression (bound budget : Nat) (emit : Emit Unit) (parser : Parser Expr) : Prop :=
  ∀ ⦃code : List Instruction⦄ ⦃emitter : Emitter⦄ ⦃state : Parser.State⦄,
    emitter.Shows budget code state → state.rest.length ≤ bound →
    Emits budget code emit parser emitter state fun tree _ code' => code' = code ++ tree.code

namespace Emitter.Shows

variable {bound budget : Nat} {argument : Emit Unit} {argument' : Parser Expr}
  {code : List Instruction} {emitter : Emitter} {state : Parser.State}

section Arguments

variable (hwrites : WritesExpression bound budget argument argument')
  (hreads : Parser.ReadsExpression bound budget argument')
include hwrites hreads

theorem arguments {rounds count : Nat} (h : emitter.Shows budget code state)
    (hrounds : state.rest.length ≤ rounds) (hbound : state.rest.length ≤ bound) :
    Emits budget code (Emit.arguments argument (rounds + 1) count)
      (Parser.arguments argument' rounds) emitter state
      fun trees result code' =>
        code' = code ++ Expr.codeAll trees ∧ result = count + trees.length := by
  induction rounds generalizing count code emitter state with
  | zero =>
      -- nothing is left to read, so there is no argument
      refine (hwrites h hbound).bind (List.prefix_refl code) ?_
      intro tree _ _ _ state' hread
      obtain ⟨derivation, hpasses, -⟩ := hreads hread hbound
      have hlength := hpasses.takes.length
      obtain ⟨symbol, word, hword⟩ := derivation.word_eq_cons
      rw [hword, List.length_cons] at hlength
      omega
  | succ rounds ih =>
      refine (hwrites h hbound).bind (List.prefix_refl code) ?_
      rintro tree _ _ emitter₁ state₁ hread rfl h₁
      obtain ⟨derivation, hpasses, -⟩ := hreads hread hbound
      have hlength := hpasses.takes.length
      refine h₁.next.read (List.prefix_append code _) fun token emitter₂ state₂ hnext h₂ => ?_
      by_cases hcloses : token.isMark ")" = true
      · rw [if_pos hcloses, if_pos hcloses]
        exact .pure h₂ ⟨by simp [Expr.codeAll], rfl⟩
      · rw [if_neg hcloses, if_neg hcloses]
        by_cases hcomma : token.isMark "," = true
        · rw [if_pos hcomma, if_pos hcomma]
          have htoken : token.terminal = .mark "," := Token.isMark_iff.1 hcomma
          have hlength' := (Parser.next_passes hnext (by simp [htoken])).takes.length
          rw [List.length_singleton] at hlength'
          refine (ih h₂ (by omega) (by omega)).map (List.prefix_append code _) ?_
          rintro trees result _ ⟨rfl, rfl⟩
          exact ⟨by simp [Expr.codeAll], by rw [List.length_cons]; omega⟩
        · rw [if_neg hcomma, if_neg hcomma]
          exact .fail h₂ (List.prefix_append code _)

theorem callArguments (h : emitter.Shows budget code state) (hbound : state.rest.length ≤ bound) :
    Emits budget code (Emit.callArguments argument (bound + 1))
      (Parser.callArguments argument' bound) emitter state
      fun trees result code' => code' = code ++ Expr.codeAll trees ∧ result = trees.length := by
  have hbase := List.prefix_refl code
  refine h.peek.read hbase fun token emitter₁ state₁ hpeek h₁ => ?_
  obtain ⟨rfl, -⟩ := Parser.peek_ok hpeek
  by_cases hcloses : token.isMark ")" = true
  · rw [if_pos hcloses, if_pos hcloses]
    refine h₁.next.read hbase fun _ emitter₂ state₂ _ h₂ => ?_
    exact .pure h₂ ⟨by simp [Expr.codeAll], rfl⟩
  · rw [if_neg hcloses, if_neg hcloses]
    refine (arguments hwrites hreads h₁ hbound hbound).mono hbase ?_
    rintro trees result _ ⟨rfl, rfl⟩
    exact ⟨rfl, Nat.zero_add _⟩

/-- The calls that follow a callee. -/
theorem calls {rounds : Nat} {callee : Expr} (h : emitter.Shows budget code state)
    (hrounds : state.rest.length ≤ rounds) (hbound : state.rest.length ≤ bound) :
    Emits budget code (Emit.calls argument (bound + 1) (rounds + 1) callee.isCall)
      (Parser.calls argument' bound rounds callee) emitter state
      fun tree called code' =>
        (∃ added, tree.code = callee.code ++ added ∧ code' = code ++ added) ∧
          called = tree.isCall := by
  have hbase := List.prefix_refl code
  induction rounds generalizing callee code emitter state with
  | zero =>
      -- nothing is left to read, so the emitter finds no call
      have hpeek : Parser.peek state = .ok (.eof state.line) state := by
        unfold Parser.peek
        rw [List.length_eq_zero_iff.1 (Nat.le_zero.1 hrounds)]
      have hends : Parser.calls argument' bound 0 callee state =
          (Parser.peek >>= fun _ => pure callee) state := by
        rw [bind_of_ok hpeek]
        rfl
      refine Emits.moved ?_ rfl hends
      refine h.peek.read hbase fun token emitter₁ state₁ hpeek' h₁ => ?_
      obtain ⟨rfl, rfl⟩ := EStateM.Result.ok.inj (hpeek.symm.trans hpeek')
      exact .pure h₁ ⟨⟨[], by simp, by simp⟩, rfl⟩
  | succ rounds ih =>
      refine h.peek.read hbase fun token emitter₁ state₁ hpeek h₁ => ?_
      obtain ⟨rfl, hsame⟩ := Parser.peek_ok hpeek
      by_cases hopens : token.isMark "(" = true
      · rw [if_pos hopens, if_pos hopens]
        refine h₁.next.read hbase fun token' emitter₂ state₂ hnext h₂ => ?_
        obtain rfl := hsame hnext
        have htoken : token'.terminal = .mark "(" := Token.isMark_iff.1 hopens
        have hlength := (Parser.next_passes hnext (by simp [htoken])).takes.length
        rw [List.length_singleton] at hlength
        refine (callArguments hwrites hreads h₂ (by omega)).bind hbase ?_
        rintro trees _ _ emitter₃ state₃ hread ⟨rfl, rfl⟩ h₃
        obtain ⟨_, hpasses, -⟩ := Parser.callArguments_ok hreads hread (by omega)
        have hlength' := hpasses.takes.length
        refine h₃.write_then _ fun emitter₄ h₄ => ?_
        rw [List.append_assoc] at h₄
        have hcall : (Expr.call callee trees).isCall = true := rfl
        rw [← hcall]
        refine (ih h₄ (by omega) (by omega) (List.prefix_refl _)).mono
          (List.prefix_append code _) ?_
        rintro tree called _ ⟨⟨added, htree, rfl⟩, hcalled⟩
        refine ⟨⟨Expr.codeAll trees ++ [.invoke trees.length] ++ added, ?_, ?_⟩, hcalled⟩
        · rw [htree, Expr.code]
          simp
        · simp
      · rw [if_neg hopens, if_neg hopens]
        exact .pure h₁ ⟨⟨[], by simp, by simp⟩, rfl⟩

theorem callable (h : emitter.Shows budget code state) (hbound : state.rest.length ≤ bound)
    (token : Token) :
    Emits budget code (Emit.callable argument (bound + 1) token)
      (Parser.callable argument' bound token) emitter state
      fun tree called code' => code' = code ++ tree.code ∧ called = tree.isCall := by
  refine (h.term token).bind (List.prefix_refl code) ?_
  rintro callee _ _ emitter₁ state₁ hterm ⟨rfl, hcall⟩ h₁
  obtain ⟨_, -, -, rfl⟩ := Parser.term_ok hterm
  rw [← hcall]
  refine (calls hwrites hreads h₁ hbound hbound).mono (List.prefix_append code _) ?_
  rintro tree called _ ⟨⟨added, htree, rfl⟩, hcalled⟩
  exact ⟨by rw [htree, List.append_assoc], hcalled⟩

end Arguments

theorem leave_of_depth {emitter : Emitter} {depth : Nat} (h : emitter.depth = depth + 1) :
    Emit.leave emitter = .ok () { emitter with depth } := by
  unfold Emit.leave
  rw [h]

/-- Below the last level there is none. -/
theorem level_zero {α β : Type} {line : Nat} {inside : Emit β}
    {post : α → β → List Instruction → Prop} (h : emitter.Shows 0 code state) :
    Emits 0 code (Emit.level line inside) (throw (.nestingTooDeep line)) emitter state post := by
  have hfull : Emit.enter line emitter = .error (.error (.nestingTooDeep line)) emitter :=
    if_pos (Nat.le_of_eq h.depth.symm)
  exact ⟨emitter, bind_eq_error.2 (.inl hfull), h.depth, h.code ▸ List.prefix_refl _⟩

/-- What is done one level down leaves the depth as it was, also if it fails. -/
theorem level {α β : Type} {line : Nat} {inside : Emit β} {parser : Parser α}
    {post : α → β → List Instruction → Prop} (h : emitter.Shows (budget + 1) code state)
    (hinside : ∀ emitter', emitter'.Shows budget code state →
      Emits budget code inside parser emitter' state post) :
    Emits (budget + 1) code (Emit.level line inside) parser emitter state post := by
  let below : Emitter := { emitter with depth := emitter.depth + 1 }
  have hdepth := h.depth
  have hbelow : below.Shows budget code state :=
    ⟨h.input, by simp only [below]; omega, h.code, h.locals, h.consistent⟩
  have henter : Emit.enter line emitter = .ok () below := if_neg (by omega)
  have hemits := hinside below hbelow
  unfold Emits at hemits ⊢
  rw [Emit.level, bind_of_ok henter]
  cases hparser : parser state with
  | ok value state' =>
      rw [hparser] at hemits
      obtain ⟨result, emitter', code', hemit, hpost, hshows⟩ := hemits
      have hattempt : Checked.attempt inside below = .ok (.ok result) emitter' := by
        simp only [Checked.attempt, hemit]
      have hdepth' := hshows.depth
      have hleave : Emit.leave emitter' = .ok () { emitter' with depth := emitter.depth } :=
        leave_of_depth (by omega)
      rw [bind_of_ok hattempt, bind_of_ok hleave]
      refine ⟨result, _, code', rfl, hpost, hshows.input, hdepth, hshows.code, hshows.locals,
        hshows.consistent⟩
  | error error state' =>
      rw [hparser] at hemits
      obtain ⟨emitter', hemit, hdepth', hcode⟩ := hemits
      have hattempt : Checked.attempt inside below = .ok (.error error) emitter' := by
        simp only [Checked.attempt, hemit]
      have hleave : Emit.leave emitter' = .ok () { emitter' with depth := emitter.depth } :=
        leave_of_depth (by omega)
      rw [bind_of_ok hattempt, bind_of_ok hleave]
      exact ⟨_, rfl, hdepth, hcode⟩

end Emitter.Shows

/-- Expressions are written as they are read. The induction is on the levels that are left. -/
theorem expression_writes (bound budget : Nat) :
    WritesExpression bound budget (Emit.expression (bound + 1) (budget + 1))
      (Parser.expression bound budget) := by
  induction budget with
  | zero =>
      intro code emitter state h hbound
      have hbase := List.prefix_refl code
      exact h.next.read hbase fun first emitter₁ state₁ _ h₁ => h₁.level_zero
  | succ budget ih =>
      intro code emitter state h hbound
      have hbase := List.prefix_refl code
      have hreads := Parser.expression_ok bound budget
      refine h.next.read hbase fun first emitter₁ state₁ hnext h₁ => ?_
      have hlength := Parser.length_of_next hnext
      refine h₁.level fun emitter₂ h₂ => ?_
      refine (h₂.callable ih hreads (by omega) first).bind hbase ?_
      rintro left _ _ emitter₃ state₃ hread ⟨rfl, rfl⟩ h₃
      obtain ⟨_, _, -, hpasses, -⟩ := Parser.callable_ok hreads hread (by omega)
      have hlength' := hpasses.takes.length
      have hgrows := List.prefix_append code left.code
      refine h₃.peek.read hgrows fun token emitter₄ state₄ hpeek h₄ => ?_
      obtain ⟨rfl, -⟩ := Parser.peek_ok hpeek
      by_cases hkind : token.kind = .operator
      · rw [if_pos hkind, if_pos hkind]
        refine h₄.next.read hgrows fun _ emitter₅ state₅ hnext' h₅ => ?_
        have hlength'' := Parser.length_of_next hnext'
        cases Operator.ofSymbol? token.text with
        | none => exact .fail h₅ hgrows
        | some operator =>
            refine (ih h₅ (by omega)).bind hgrows ?_
            rintro right _ _ emitter₆ state₆ _ rfl h₆
            refine h₆.write_last _ ?_
            rw [Expr.code, List.append_assoc, List.append_assoc]
      · rw [if_neg hkind, if_neg hkind]
        exact .pure h₄ rfl

/-! ## Statements -/

/-- The emitter writes the code of the statement that the parser reads, on streams of at most
`bound` items. -/
def WritesStatement (bound budget : Nat) (emit : Token → Emit Unit)
    (parser : Nat → Token → Parser Stmt) : Prop :=
  ∀ ⦃code : List Instruction⦄ ⦃emitter : Emitter⦄ ⦃state : Parser.State⦄ ⦃token : Token⦄,
    emitter.Shows budget code state → state.rest.length ≤ bound →
    Emits budget code (emit token) (parser code.length token) emitter state
      fun tree _ code' => code' = code ++ tree.code code.length

/-- The emitter writes the code of the block that the parser reads, on streams of at most `bound`
items. -/
def WritesBlock (bound budget : Nat) (emit : Emit Unit) (parser : Nat → Parser Block) : Prop :=
  ∀ ⦃code : List Instruction⦄ ⦃emitter : Emitter⦄ ⦃state : Parser.State⦄,
    emitter.Shows budget code state → state.rest.length ≤ bound →
    Emits budget code emit (parser code.length) emitter state
      fun tree _ code' => code' = code ++ Block.code code.length tree

namespace Emitter.Shows

variable {bound budget : Nat} {code : List Instruction} {emitter : Emitter} {state : Parser.State}

theorem closes (h : emitter.Shows budget code state) (closing : Parser.Closing) (token : Token) :
    Emits budget code (Emit.closes closing token) (closing.closes token) emitter state
      (Emits.Same code) := by
  have hbase := List.prefix_refl code
  cases closing with
  | endOfInput =>
      unfold Emit.closes Parser.Closing.closes
      by_cases hend : token.kind = .eof
      · simp only [if_pos hend]
        exact .pure h ⟨rfl, rfl⟩
      · simp only [if_neg hend]
        by_cases hbrace : token.isMark "\x7d" = true
        · simp only [if_pos hbrace]
          exact .fail h hbase
        · simp only [if_neg hbrace]
          exact .pure h ⟨rfl, rfl⟩
  | brace =>
      unfold Emit.closes Parser.Closing.closes
      by_cases hbrace : token.isMark "\x7d" = true
      · simp only [if_pos hbrace]
        exact .pure h ⟨rfl, rfl⟩
      · simp only [if_neg hbrace]
        by_cases hend : token.kind = .eof
        · simp only [if_pos hend]
          exact .fail h hbase
        · simp only [if_neg hend]
          exact .pure h ⟨rfl, rfl⟩

/-- Statements are written one after the other. -/
theorem statements {statement : Token → Emit Unit} {statement' : Nat → Token → Parser Stmt}
    (hwrites : WritesStatement bound budget statement statement')
    (hreads : Parser.ReadsStatement bound budget statement') {closing : Parser.Closing}
    {rounds : Nat} (h : emitter.Shows budget code state) (hrounds : state.rest.length ≤ rounds)
    (hbound : state.rest.length ≤ bound) :
    Emits budget code (Emit.statements statement closing (rounds + 1))
      (Parser.statements statement' closing rounds code.length) emitter state
      fun tree _ code' => code' = code ++ Block.code code.length tree := by
  have hbase := List.prefix_refl code
  induction rounds generalizing code emitter state with
  | zero =>
      refine h.next.read hbase fun token emitter₁ state₁ hnext h₁ => ?_
      refine (h₁.closes closing token).read hbase fun closed emitter₂ state₂ hcloses h₂ => ?_
      cases closed with
      | true => exact .pure h₂ (by simp [Block.code])
      | false =>
          -- only the end of the input is left, and that closes statements or is an error
          have hend := (Parser.closes_ok hcloses).2.2 rfl
          have hlength := (Parser.next_passes hnext hend).takes.length
          rw [List.length_singleton] at hlength
          omega
  | succ rounds ih =>
      refine h.next.read hbase fun token emitter₁ state₁ hnext h₁ => ?_
      refine (h₁.closes closing token).read hbase fun closed emitter₂ state₂ hcloses h₂ => ?_
      obtain ⟨rfl, -, hopen⟩ := Parser.closes_ok hcloses
      cases closed with
      | true => exact .pure h₂ (by simp [Block.code])
      | false =>
          have hlength := (Parser.next_passes hnext (hopen rfl)).takes.length
          rw [List.length_singleton] at hlength
          refine (hwrites h₂ (by omega)).bind hbase ?_
          rintro first _ _ emitter₃ state₃ hread rfl h₃
          obtain ⟨_, _, -, htakes, -⟩ := hreads hread (by omega)
          have hlength' := htakes.length
          have hrest := ih h₃ (by omega) (by omega) (List.prefix_refl _)
          rw [List.length_append, Stmt.length_code] at hrest
          refine hrest.map (List.prefix_append code _) ?_
          rintro rest _ _ rfl
          rw [Block.code, List.append_assoc]

theorem localDeclaration (h : emitter.Shows budget code state) (line start : Nat) :
    Emits budget code (Emit.localDeclaration line) (Parser.localDeclaration line) emitter state
      fun tree _ code' => code' = code ++ tree.code start := by
  have hbase := List.prefix_refl code
  refine (h.typedName .localName).read hbase fun named emitter₁ state₁ _ h₁ => ?_
  obtain ⟨name, type⟩ := named
  refine Emits.moved ?_ get_bind get_bind
  have hlocals := h₁.locals
  cases htable : emitter₁.locals with
  | none =>
      rw [htable] at hlocals
      simp only [← hlocals, Option.map_none]
      exact .fail h₁ hbase
  | some table =>
      rw [htable] at hlocals
      have hconsistent := h₁.consistent table htable
      have hdeclare := hconsistent.declare_eq ⟨name.text, type⟩
      simp only [← hlocals, Option.map_some]
      cases hresult : table.declare ⟨name.text, type⟩ with
      | error duplicate =>
          rw [hresult] at hdeclare
          simp only [← hdeclare, Except.map]
          exact .fail h₁ hbase
      | ok result =>
          obtain ⟨slot, table'⟩ := result
          rw [hresult] at hdeclare
          simp only [← hdeclare, Except.map]
          refine ⟨(), { emitter₁ with locals := some table' }, code, rfl, ?_, h₁.input, h₁.depth,
            h₁.code, rfl, ?_⟩
          · simp [Stmt.code]
          · rintro _ ⟨⟩
            exact hconsistent.declare hresult

/-- A jump that was written before `back` is led behind it. -/
theorem patch {front back : List Instruction} {target : Nat}
    (h : emitter.Shows budget (front ++ .jumpIfZero target :: back) state) :
    ∃ emitter', Emit.patch front.length emitter = .ok () emitter' ∧
      emitter'.Shows budget (front ++ .jumpIfZero (front.length + 1 + back.length) :: back)
        state := by
  have hjump : emitter.code[front.length]? = some (.jumpIfZero target) := by
    rw [← Array.getElem?_toList, h.code]
    simp
  have hsize : emitter.code.size = front.length + 1 + back.length := by
    rw [← Array.length_toList, h.code]
    simp only [List.length_append, List.length_cons]
    omega
  have hpatch : Emit.patch front.length emitter = .ok () { emitter with
      code := emitter.code.setIfInBounds front.length (.jumpIfZero emitter.code.size) } := by
    simp only [Emit.patch, modify_eq, hjump]
  refine ⟨_, hpatch, h.input, h.depth, ?_, h.locals, h.consistent⟩
  simp only [Array.toList_setIfInBounds, h.code, hsize]
  simp

/-- A test, a jump whose target is not known yet, and a block. -/
theorem guarded {block : Emit Unit} {block' : Nat → Parser Block} {finish : Nat → Emit Unit}
    {finish' : Expr → Block → Parser Stmt} {post : Stmt → Unit → List Instruction → Prop}
    (hwrites : WritesBlock bound budget block block') (h : emitter.Shows budget code state)
    (hbound : state.rest.length ≤ bound)
    (hfinish : ∀ (test : Expr) (body : Block) (emitter' : Emitter) (state' : Parser.State),
      emitter'.Shows budget (code ++ test.code ++ .jumpIfZero Emit.pending ::
        Block.code (code.length + test.size + 1) body) state' →
      Emits budget code (finish (code ++ test.code).length) (finish' test body) emitter' state'
        post) :
    Emits budget code
      (do
        Emit.expression (bound + 1) (budget + 1)
        let jump ← Emit.emit (.jumpIfZero Emit.pending)
        block
        finish jump)
      (do
        let test ← Parser.expression bound budget
        let body ← block' (code.length + test.size + 1)
        finish' test body)
      emitter state post := by
  refine (expression_writes bound budget h hbound).bind (List.prefix_refl code) ?_
  rintro test _ _ emitter₁ state₁ hread rfl h₁
  obtain ⟨_, hpasses, -⟩ := Parser.expression_ok bound budget hread hbound
  have hlength := hpasses.takes.length
  refine h₁.emit_then _ fun emitter₂ h₂ => ?_
  have hplace : (code ++ test.code ++ [Instruction.jumpIfZero Emit.pending]).length =
      code.length + test.size + 1 := by
    simp only [List.length_append, Expr.length_code, List.length_singleton]
  have hblock := hwrites h₂ (by omega)
  rw [hplace] at hblock
  refine hblock.bind ?_ ?_
  · rw [List.append_assoc]
    exact List.prefix_append code _
  · rintro body _ _ emitter₃ state₃ _ rfl h₃
    rw [List.append_assoc (code ++ test.code), List.singleton_append] at h₃
    exact hfinish test body emitter₃ state₃ h₃

/-- The value of a term that is no call is dropped. -/
theorem evaluate (h : emitter.Shows budget code state) (hbound : state.rest.length ≤ bound)
    (token : Token) :
    Emits budget code
      (do
        if ← Emit.callable (Emit.expression (bound + 1) (budget + 1)) (bound + 1) token then
          return ()
        else Emit.write .pop)
      (do
        let tree ← Parser.callable (Parser.expression bound budget) bound token
        return Stmt.evaluate tree)
      emitter state fun tree _ code' => code' = code ++ tree.code code.length := by
  have hexpression := expression_writes bound budget
  have hreads := Parser.expression_ok bound budget
  refine (h.callable hexpression hreads hbound token).bind (List.prefix_refl code) ?_
  rintro tree _ _ emitter₁ state₁ _ ⟨rfl, rfl⟩ h₁
  cases hcall : tree.isCall with
  | true => exact .pure h₁ (by simp [Stmt.code, hcall])
  | false => exact h₁.write_last _ (by simp [Stmt.code, hcall])

/-- A loop jumps back to its test. -/
theorem loop {block : Emit Unit} {block' : Nat → Parser Block}
    (hwrites : WritesBlock bound budget block block') (h : emitter.Shows budget code state)
    (hbound : state.rest.length ≤ bound) :
    Emits budget code
      (do
        Emit.expression (bound + 1) (budget + 1)
        let jump ← Emit.emit (.jumpIfZero Emit.pending)
        block
        Emit.write (.push (.int 0))
        Emit.write (.jumpIfZero code.length)
        Emit.patch jump)
      (do
        let test ← Parser.expression bound budget
        let body ← block' (code.length + test.size + 1)
        Parser.settle (code.length + test.size) (code.length + test.size + 1 + Block.size body + 2)
        return Stmt.loop test body)
      emitter state fun tree _ code' => code' = code ++ tree.code code.length := by
  refine guarded hwrites h hbound fun test body emitter₁ state₁ h₁ => ?_
  refine h₁.write_then _ fun emitter₂ h₂ => ?_
  refine h₂.write_then _ fun emitter₃ h₃ => ?_
  simp only [List.append_assoc, List.cons_append] at h₃
  rw [← List.append_assoc] at h₃
  obtain ⟨emitter₄, hpatch, h₄⟩ := h₃.patch
  refine ⟨(), emitter₄, _, hpatch, ?_, h₄.input, h₄.depth, h₄.code, h₄.locals, h₄.consistent⟩
  simp [Stmt.code, Expr.length_code, Block.length_code]
  omega

variable {block : Emit Unit} {block' : Nat → Parser Block}

/-- Statements are written as they are read. -/
theorem statement (hwrites : WritesBlock bound budget block block') :
    WritesStatement bound budget (Emit.statement (bound + 1) (budget + 1) block)
      (Parser.statement bound budget block') := by
  intro code emitter state token h hbound
  have hbase := List.prefix_refl code
  unfold Emit.statement Parser.statement
  by_cases hskip : token.isMark ";" = true
  · rw [if_pos hskip, if_pos hskip]
    exact .pure h (by simp [Stmt.code])
  rw [if_neg hskip, if_neg hskip]
  by_cases hreturn : token.isWord "return" = true
  · rw [if_pos hreturn, if_pos hreturn]
    exact h.write_last _ (by simp [Stmt.code])
  rw [if_neg hreturn, if_neg hreturn]
  by_cases hif : token.isWord "if" = true
  · rw [if_pos hif, if_pos hif]
    refine guarded hwrites h hbound fun test body emitter₁ state₁ h₁ => ?_
    obtain ⟨emitter₂, hpatch, h₂⟩ := h₁.patch
    refine ⟨(), emitter₂, _, hpatch, ?_, h₂.input, h₂.depth, h₂.code, h₂.locals, h₂.consistent⟩
    simp [Stmt.code, Expr.length_code, Block.length_code]
  rw [if_neg hif, if_neg hif]
  by_cases hwhile : token.isWord "while" = true
  · rw [if_pos hwhile, if_pos hwhile]
    have hsize : emitter.code.size = code.length := by rw [← h.code, Array.length_toList]
    refine Emits.moved ?_ get_bind rfl
    rw [hsize]
    exact loop hwrites h hbound
  rw [if_neg hwhile, if_neg hwhile]
  by_cases hlocal : token.isWord "local" = true
  · rw [if_pos hlocal, if_pos hlocal]
    exact h.localDeclaration token.line code.length
  rw [if_neg hlocal, if_neg hlocal]
  by_cases hname : token.kind = .identifier
  · rw [if_pos hname, if_pos hname]
    refine h.peek.read hbase fun token' emitter₁ state₁ hpeek h₁ => ?_
    obtain ⟨rfl, -⟩ := Parser.peek_ok hpeek
    by_cases hassign : token'.kind = .assign
    · rw [if_pos hassign, if_pos hassign]
      refine h₁.next.read hbase fun _ emitter₂ state₂ hnext h₂ => ?_
      have hlength := Parser.length_of_next hnext
      refine (expression_writes bound budget h₂ (by omega)).bind hbase ?_
      rintro value _ _ emitter₃ state₃ _ rfl h₃
      have hgrows := List.prefix_append code value.code
      refine (h₃.resolve token.text).read hgrows fun place emitter₄ state₄ _ h₄ => ?_
      exact h₄.write_last _ (by simp [Stmt.code])
    · rw [if_neg hassign, if_neg hassign]
      exact h₁.evaluate hbound token
  · rw [if_neg hname, if_neg hname]
    exact h.evaluate hbound token

/-- The last line is that of the token that was taken. -/
theorem lastLine_of_next (h : emitter.Shows budget code state) {token : Token}
    {emitter' : Emitter} (hnext : Emit.next emitter = .ok token emitter') :
    emitter'.lastLine = token.line := by
  obtain ⟨stream, peeked, lastLine, depth, written, locals⟩ := emitter
  have hinput := h.input
  dsimp only at hinput
  generalize state.rest = rest, state.line = line at hinput
  cases hinput with
  | plain =>
      match stream with
      | [] =>
          cases hnext
          rfl
      | .error error :: stream => cases hnext
      | .ok token :: stream =>
          cases hnext
          rfl
  | ahead =>
      cases hnext
      rfl
  | ended =>
      cases hnext
      rfl

theorem mark_level {β : Type} (h : emitter.Shows budget code state) (symbol : String)
    (inside : Emit β) :
    (do
      let _ ← Checked.mark Emit.next symbol
      Emit.level (← get).lastLine inside) emitter =
      (do
        let token ← Checked.mark Emit.next symbol
        Emit.level token.line inside) emitter := by
  cases hmark : Checked.mark Emit.next symbol emitter with
  | error stop emitter' =>
      exact (bind_eq_error.2 (.inl hmark)).trans (bind_eq_error.2 (.inl hmark)).symm
  | ok token emitter' =>
      rw [bind_of_ok hmark, bind_of_ok hmark, get_bind]
      obtain ⟨token', middle, hnext, hresult⟩ := bind_eq_ok.1 hmark
      split at hresult
      · obtain ⟨rfl, rfl⟩ := pure_eq_ok.1 hresult
        rw [h.lastLine_of_next hnext]
      · exact absurd hresult throw_ne_ok

end Emitter.Shows

/-- Blocks in braces are written as they are read. The induction is on the levels that are left. -/
theorem block_writes (bound budget : Nat) :
    WritesBlock bound budget (Emit.block (bound + 1) (budget + 1)) (Parser.block bound budget) := by
  induction budget with
  | zero =>
      intro code emitter state h hbound
      refine Emits.moved ?_ (h.mark_level _ _) rfl
      refine (h.mark _).read (List.prefix_refl code) fun token emitter₁ state₁ _ h₁ => ?_
      exact h₁.level_zero
  | succ budget ih =>
      intro code emitter state h hbound
      refine Emits.moved ?_ (h.mark_level _ _) rfl
      refine (h.mark _).read (List.prefix_refl code) fun token emitter₁ state₁ hmark h₁ => ?_
      have hlength := (Parser.mark_ok hmark).takes.length
      refine h₁.level fun emitter₂ h₂ => ?_
      have hreads := Parser.statement_ok (Parser.block_ok bound budget)
      exact h₂.statements (Emitter.Shows.statement ih) hreads (by omega) (by omega)

/-- A whole block is written as it is read: the code of the block comes after the code there was, or
the same error is reported and the code there was is still in front. -/
theorem wholeBlock_emits {items : List Item} {code : List Instruction} {emitter : Emitter}
    {state : Parser.State} (h : emitter.Shows nestingLimit code state)
    (hbound : state.rest.length ≤ items.length) :
    Emits nestingLimit code (Emit.wholeBlock (items.length + 1))
      (Parser.wholeBlock items.length code.length) emitter state
      fun tree _ code' => code' = code ++ Block.code code.length tree := by
  have hblock := block_writes items.length nestingLimit
  have hreads := Parser.statement_ok (Parser.block_ok items.length nestingLimit)
  exact h.statements (Emitter.Shows.statement hblock) hreads hbound hbound

end StackScript
