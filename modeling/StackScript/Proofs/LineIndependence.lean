import Mathlib
import StackScript.Native
import StackScript.Proofs.Building
import StackScript.Proofs.Lockstep

/-!
# Lines do not matter

A script, a body or top-level code can be laid out in any way: as long as its tokens keep their
kinds and texts, the same program comes out, or the same error with another line in it. Neither the
choice of quotes nor the layout is seen by the compiler.
-/

namespace StackScript

variable {ν α β : Type}

/-! ## Declarations -/

/-- Two declarations agree but for the lines in a body. -/
inductive Declaration.Alike : Declaration → Declaration → Prop
  | «variable» (name : String) (type : TypeTag) : Alike (.variable name type) (.variable name type)
  | function (signature : Signature) {body body' : List Item} (h : Items.Alike body body') :
      Alike (.function signature body) (.function signature body')

namespace Parser

theorem parameters_parallel (bound : Nat) : Parallel Eq (parameters bound) (parameters bound) := by
  induction bound with
  | zero =>
      refine (typedName_parallel .parameterName).bind fun declared declared' h => ?_
      exact .pure (by rw [h.1.text, h.2])
  | succ bound ih =>
      refine (typedName_parallel .parameterName).bind fun declared declared' h => ?_
      refine next_parallel.bind fun token token' htoken => ?_
      rw [htoken.isMark, htoken.isMark, h.1.text, h.2]
      refine .ite (.pure rfl) (.ite ?_ (unexpected_parallel _ htoken))
      exact ih.bind_same fun _ => .pure rfl

theorem parameterList_parallel (bound : Nat) :
    Parallel Eq (parameterList bound) (parameterList bound) := by
  refine peek_parallel.bind fun token token' htoken => ?_
  rw [htoken.isMark]
  exact .ite (next_parallel.bind fun _ _ _ => .pure rfl) (parameters_parallel bound)

theorem returnType_parallel : Parallel Eq returnType returnType := by
  refine peek_parallel.bind fun token token' htoken => ?_
  rw [htoken.kind]
  refine .ite (next_parallel.bind fun word word' hword => ?_) (.pure rfl)
  exact (declarableType_parallel hword).bind_same fun _ => .pure rfl

/-- The end token that stands for the closing brace takes the line of the brace. -/
theorem enclosed_parallel (bound depth : Nat) :
    Parallel Items.Alike (enclosed bound depth) (enclosed bound depth) := by
  induction bound generalizing depth with
  | zero => exact next_parallel.bind fun _ _ htoken => unexpected_parallel _ htoken
  | succ bound ih =>
      refine next_parallel.bind fun token token' htoken => ?_
      have hmore : ∀ depth, Parallel Items.Alike
          (do return .ok token :: (← enclosed bound depth))
          (do return .ok token' :: (← enclosed bound depth)) :=
        fun depth => (ih depth).bind fun _ _ hrest => .pure (.cons htoken hrest)
      rw [htoken.kind, htoken.isMark, htoken.isMark]
      refine .ite (unexpected_parallel _ htoken) (.ite ?_ (.ite (hmore _) (hmore _)))
      cases depth with
      | zero => exact .pure rfl
      | succ depth => exact hmore depth

theorem functionDeclaration_parallel (bound : Nat) :
    Parallel Declaration.Alike (functionDeclaration bound) (functionDeclaration bound) := by
  refine (identifier_parallel .functionName).bind fun name name' hname => ?_
  refine (mark_parallel "(").bind fun _ _ _ => ?_
  refine (parameterList_parallel bound).bind_same fun params => ?_
  refine returnType_parallel.bind_same fun returns => ?_
  refine (mark_parallel "\x7b").bind fun _ _ _ => ?_
  refine (enclosed_parallel bound 0).bind fun body body' hbody => ?_
  rw [hname.text]
  exact .pure (.function _ hbody)

theorem declaration?_parallel (bound : Nat) :
    Parallel (Option.Rel Declaration.Alike) (declaration? bound) (declaration? bound) := by
  refine peek_parallel.bind fun token token' htoken => ?_
  rw [htoken.isWord, htoken.isWord]
  refine .ite ?_ (.ite ?_ (.pure .none))
  · refine next_parallel.bind fun _ _ _ => ?_
    refine (typedName_parallel .variableName).bind fun declared declared' h => ?_
    dsimp only
    rw [h.1.text, h.2]
    exact .pure (.some (.variable _ _))
  · refine next_parallel.bind fun _ _ _ => ?_
    exact (functionDeclaration_parallel bound).bind fun _ _ h => .pure (.some h)

end Parser

theorem Declaration.Alike.register {first first' : Declaration} (h : first.Alike first')
    (builder : Builder ν) : builder.register first = builder.register first' := by
  cases h <;> rfl

namespace Script

theorem declarations_parallel (limit bound : Nat) (builder : Builder ν) :
    Parser.Parallel
      (fun left right => List.Forall₂ Declaration.Alike left.1 right.1 ∧ left.2 = right.2)
      (declarations limit bound builder) (declarations limit bound builder) := by
  induction bound generalizing builder with
  | zero => exact .pure ⟨.nil, rfl⟩
  | succ bound ih =>
      refine (Parser.declaration?_parallel limit).bind fun first? first?' h => ?_
      cases h with
      | none => exact .pure ⟨.nil, rfl⟩
      | some hfirst =>
          dsimp only
          rw [hfirst.register]
          refine Lockstep.lift.bind_same fun registered => ?_
          refine (ih registered).bind fun rest rest' hrest => ?_
          exact .pure ⟨.cons hfirst hrest.1, hrest.2⟩

end Script

/-! ## Builders -/

namespace Build

/-- Two computations of the compiler run in lockstep and report the same events. -/
abbrev Parallel (results : α → β → Prop) (left : Build α) (right : Build β) : Prop :=
  Lockstep Eq results left right

variable {items items' : List Item} (h : Items.Alike items items') (locals : Option SlotTable)
include h

theorem parse_parallel {results : α → β → Prop} {parser : Parser α} {parser' : Parser β}
    (hparser : Parser.Parallel results parser parser') :
    Parallel (fun left right => results left.1 right.1 ∧ left.2.Alike right.2)
      (parse items locals parser) (parse items' locals parser') := by
  rintro events _ rfl
  have hends := hparser { rest := items, locals, events } { rest := items', locals, events }
    ⟨h, rfl, rfl⟩
  unfold parse
  generalize parser { rest := items, locals, events } = left,
    parser' { rest := items', locals, events } = right at hends
  cases hends with
  | ok hresult hstate => exact .ok ⟨hresult, hstate⟩ hstate.events
  | error herror hstate => exact .error herror hstate.events

theorem block_parallel (start : Nat) :
    Parallel Eq (block items locals start) (block items' locals start) := by
  unfold block
  rw [h.length_eq]
  have hparse := parse_parallel h locals (Parser.wholeBlock_parallel items'.length start)
  refine hparse.bind fun left right hboth => ?_
  exact .pure (by rw [hboth.1, hboth.2.locals])

theorem append_parallel (code : Array Instruction) :
    Parallel Eq (append code items locals) (append code items' locals) :=
  (block_parallel h locals code.size).bind_same fun _ => .pure rfl

end Build

namespace Builder

variable {items items' : List Item}

theorem functionOfItems_parallel (h : Items.Alike items items') (builder : Builder ν)
    (signature : Signature) :
    Build.Parallel Eq (builder.functionOfItems signature items)
      (builder.functionOfItems signature items') := by
  refine Lockstep.lift.bind_same fun slot? => Lockstep.lift.bind_same fun table => ?_
  exact (Build.append_parallel h (some table) builder.code).bind_same fun _ => .refl _

theorem buildOfItems_parallel (h : Items.Alike items items') (builder : Builder ν) :
    Build.Parallel Eq (builder.buildOfItems items) (builder.buildOfItems items') :=
  (Build.append_parallel h none builder.code).bind_same fun _ => .refl _

end Builder

/-! ## Scripts -/

/-- Texts whose streams agree but for lines have tokens that agree, or errors that do. -/
theorem Token.tokenize_alike {left right : String}
    (h : Items.Alike (scan left) (scan right)) :
    (∃ tokens tokens', tokenize left = .ok tokens ∧ tokenize right = .ok tokens' ∧
      Items.Alike (tokens.map .ok) (tokens'.map .ok)) ∨
    ∃ error error', tokenize left = .error error ∧ tokenize right = .error error' ∧
      error.unlined = error'.unlined := by
  unfold tokenize
  generalize scan left = items, scan right = items' at h
  induction items generalizing items' with
  | nil =>
      rcases h.cases_head with ⟨-, rfl⟩ | ⟨_, _, _, _, hnil, -⟩ | ⟨_, _, _, _, hnil, -⟩
      · exact .inl ⟨[], [], rfl, rfl, rfl⟩
      · cases hnil
      · cases hnil
  | cons item items ih =>
      rcases h.cases_head with ⟨hcons, -⟩ | ⟨error, error', _, _, hcons, rfl, herror⟩ |
        ⟨first, first', _, rest', hcons, rfl, hfirst, hrest⟩
      · cases hcons
      · cases hcons
        exact .inr ⟨error, error', rfl, rfl, herror⟩
      · cases hcons
        simp only [List.mapM_cons]
        rcases ih rest' hrest with ⟨tokens, tokens', hleft, hright, htokens⟩ |
          ⟨error, error', hleft, hright, herror⟩
        · rw [hleft, hright]
          exact .inl ⟨first :: tokens, first' :: tokens', rfl, rfl, .cons hfirst htokens⟩
        · rw [hleft, hright]
          exact .inr ⟨error, error', rfl, rfl, herror⟩

namespace Script

theorem tokens_parallel {left right : String}
    (h : Items.Alike (Token.scan left) (Token.scan right)) :
    Build.Parallel (fun tokens tokens' => Items.Alike (tokens.map .ok) (tokens'.map .ok))
      (liftM ((Token.tokenize left).mapError CompileError.lex))
      (liftM ((Token.tokenize right).mapError CompileError.lex)) := by
  rcases Token.tokenize_alike h with ⟨tokens, tokens', hleft, hright, htokens⟩ |
    ⟨error, error', hleft, hright, herror⟩
  · rw [hleft, hright]
    exact .pure htokens
  · rw [hleft, hright]
    exact .throw (congrArg CompileError.lex herror)

theorem compileFunctions_parallel {declared declared' : List Declaration}
    (h : List.Forall₂ Declaration.Alike declared declared') (builder : Builder ν) :
    Build.Parallel Eq (compileFunctions builder declared) (compileFunctions builder declared') := by
  induction h generalizing builder with
  | nil => exact .refl _
  | cons hfirst _ ih =>
      cases hfirst with
      | «variable» name type => exact ih builder
      | function signature hbody =>
          exact (Builder.functionOfItems_parallel hbody builder signature).bind_same fun compiled =>
            ih compiled.2

theorem compileWith_parallel {left right : String}
    (h : Items.Alike (Token.scan left) (Token.scan right)) (builder : Builder ν) :
    Build.Parallel Eq (compileWith builder left) (compileWith builder right) := by
  refine (tokens_parallel h).bind fun tokens tokens' htokens => ?_
  dsimp only
  rw [htokens.length_eq]
  refine (Build.parse_parallel htokens none (declarations_parallel _ _ builder)).bind
    fun parsed parsed' hparsed => ?_
  obtain ⟨⟨hdeclared, hbuilder⟩, hstate⟩ := hparsed
  rw [hbuilder]
  refine (compileFunctions_parallel hdeclared parsed'.1.2).bind_same fun compiled => ?_
  exact Builder.buildOfItems_parallel hstate.rest compiled

theorem compile_parallel {left right : String}
    (h : Items.Alike (Token.scan left) (Token.scan right)) (natives : List (Builtin ν)) :
    Build.Parallel Eq (compile natives left) (compile natives right) :=
  Lockstep.lift.bind_same fun builder => compileWith_parallel h builder

end Script

/-- Lines do not matter. Scripts whose tokens agree but for lines compile to the same program with
the same events, or fail with errors that agree but for lines; so do functions and top-level code
that are compiled from streams of tokens. -/
theorem compiled_regardless_of_lines (natives : List (Builtin ν)) (builder : Builder ν)
    (events : Array Event) :
    (∀ left right, Items.Alike (Token.scan left) (Token.scan right) →
      EndAlike Eq Eq (Script.compile natives left events) (Script.compile natives right events)) ∧
    (∀ signature body body', Items.Alike body body' →
      EndAlike Eq Eq (builder.functionOfItems signature body events)
        (builder.functionOfItems signature body' events)) ∧
    ∀ main main', Items.Alike main main' →
      EndAlike Eq Eq (builder.buildOfItems main events) (builder.buildOfItems main' events) := by
  refine ⟨?_, ?_, ?_⟩
  · intro left right h
    exact Script.compile_parallel h natives events events rfl
  · intro signature body body' h
    exact Builder.functionOfItems_parallel h builder signature events events rfl
  · intro main main' h
    exact Builder.buildOfItems_parallel h builder events events rfl

/-- The same script in other quotes and on other lines gives the same program, and the same mistake
is reported on another line. -/
theorem compiled_on_other_lines :
    ∃ (left right : String) (program : Program Native) (events : Array Event),
      Items.Alike (Token.scan left) (Token.scan right) ∧
      Script.compile [] left #[] = .ok program events ∧
      Script.compile [] right #[] = .ok program events ∧
      ∃ (main main' : List Item) (error error' : CompileError),
        Items.Alike main main' ∧
        ({} : Builder Native).buildOfItems main #[] = .error error #[] ∧
        ({} : Builder Native).buildOfItems main' #[] = .error error' #[] ∧
        error ≠ error' ∧ error.unlined = error'.unlined := by
  let func : Func := ⟨"f", [], none, 0, {}⟩
  let program : Program Native :=
    { code := #[.push (.str "a"), .assignGlobal "x", .ret, .loadGlobal "f", .invoke 0]
      globals := ⟨[⟨"f", .function⟩]⟩
      memory := #[.function func]
      entry := 3 }
  have hsources : Items.Alike (Token.scan "func f() \x7b x = 'a' \x7d f()")
      (Token.scan "func f()\n\x7bx=\"a\"\x7d\nf()") := by
    unfold Items.Alike
    cbv
  have hmain : Items.Alike (Token.scan "x = = 1") (Token.scan "x =\n= 1") := by
    unfold Items.Alike
    cbv
  have hleft : Script.compile [] "func f() \x7b x = 'a' \x7d f()" #[] =
      .ok program #[.functionCompiled "f" 0 3 0, .mainCompiled 3 5] := by cbv
  have herror : ({} : Builder Native).buildOfItems (Token.scan "x = = 1") #[] =
      .error (.unexpectedToken .term ⟨.assign, "=", 1⟩) #[] := by cbv
  have herror' : ({} : Builder Native).buildOfItems (Token.scan "x =\n= 1") #[] =
      .error (.unexpectedToken .term ⟨.assign, "=", 2⟩) #[] := by cbv
  obtain ⟨hscripts, -, hbuilds⟩ :=
    compiled_regardless_of_lines ([] : List (Builtin Native)) {} #[]
  have hends := hscripts _ _ hsources
  have hfails := hbuilds _ _ hmain
  rw [hleft] at hends
  rw [herror, herror'] at hfails
  cases hright : Script.compile ([] : List (Builtin Native))
      "func f()\n\x7bx=\"a\"\x7d\nf()" #[] with
  | ok program' events' =>
      rw [hright] at hends
      cases hends with
      | ok hprogram hevents =>
          subst hprogram hevents
          cases hfails with
          | error hunlined _ =>
              exact ⟨_, _, _, _, hsources, hleft, hright, _, _, _, _, hmain, herror, herror',
                by simp, hunlined⟩
  | error error events' =>
      rw [hright] at hends
      cases hends

end StackScript
