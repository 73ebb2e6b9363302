import StackScript.Proofs.Assembly
import StackScript.Proofs.BytePositions
import StackScript.Proofs.Cursor

/-!
# Scripts that are compiled in place

A script is read by index, each name that it declares goes into the assembly at once, and the bodies
are compiled behind each other. The program is the one that the script compiles to, and so are the
errors.
-/

namespace StackScript

variable {ν : Type}

/-! ## Compiling by index and in place -/

namespace Assemble

/-- Makes the name of a declaration known. -/
def register : Declaration → Assemble ν Unit
  | .variable name type => do
      let _ ← declare name type (.initial type)
      return ()
  | .function signature _ => do
      let _ ← declare signature.name .function (.initial .function)
      return ()

/-- Declares builtins one after the other. -/
def addBuiltins : List (Builtin ν) → Assemble ν Unit
  | [] => return ()
  | first :: rest => do
      let _ ← declare first.name .builtin (.builtin first)
      addBuiltins rest

/-- Compiles the functions of a list of declarations in order. -/
def compileFunctions : List Declaration → Assemble ν Unit
  | [] => return ()
  | .variable _ _ :: rest => compileFunctions rest
  | .function signature body :: rest => do
      let _ ← functionOfItems signature body
      compileFunctions rest

/-- Changes an assembly in a computation that has a state of its own. -/
def on {σ α : Type} (assemble : Assemble ν α) (assembly : Assembly ν) :
    Checked CompileError σ (Assembly ν) :=
  match assemble assembly with
  | .ok _ assembly => pure assembly
  | .error stop _ => throw stop

end Assemble

/-- Takes all declarations and makes each name known when it is read. -/
def Reading.declarations (limit : Nat) :
    (rounds : Nat) → Assembly ν → Reading (List Declaration × Assembly ν)
  | 0, _ => Checked.undefined
  | rounds + 1, assembly => do
      match ← declaration? limit with
      | none => return ([], assembly)
      | some first =>
          let assembly ← (Assemble.register first).on assembly
          let (rest, assembly) ← declarations limit rounds assembly
          return (first :: rest, assembly)

namespace Assemble

/-- Reads the declarations of a script, and gives them with what follows them. -/
def readDeclarations (tokens : List Token) : Assemble ν (List Declaration × List Item) :=
  fun assembly =>
    match Reading.declarations tokens.length tokens.length assembly
      { tokens := tokens.toArray } with
    | .ok (declared, assembly) cursor => .ok (declared, cursor.rest) assembly
    | .error stop _ => .error stop assembly

/-- Compiles a script into a program that also has what the assembly holds. -/
def compileWith (source : String) : Assemble ν (IndexedProgram ν) := do
  let items ← ByteScanner.scan source
  let tokens ← Checked.ofExcept ((items.mapM id).mapError CompileError.lex)
  let (declared, main) ← readDeclarations tokens
  compileFunctions declared
  build main

/-- Compiles a script that may use the given builtins. -/
def compile (natives : List (Builtin ν)) (source : String) : Assemble ν (IndexedProgram ν) := do
  addBuiltins natives
  compileWith source

end Assemble

/-! ## Agreement with the builder -/

/-- What a computation in place gives if the computation on a builder has the given outcome. -/
def Assembly.Yields {α : Type} (assembly : Assembly ν) (assemble : Assemble ν α) :
    Except CompileError (Builder ν) → Prop
  | .ok builder => ∃ value after, assemble assembly = .ok value after ∧ after.Shows builder
  | .error error => ∃ after, assemble assembly = .error (.error error) after

theorem Assembly.Follows.yields {α : Type} {assembly : Assembly ν} {assemble : Assemble ν α}
    {outcome : Except CompileError (α × Builder ν)} (h : assembly.Follows assemble outcome) :
    assembly.Yields assemble (outcome.map (·.2)) := by
  cases outcome with
  | error error => exact ⟨assembly, h⟩
  | ok result =>
      obtain ⟨after, hafter, hshows⟩ := h
      exact ⟨result.1, after, hafter, hshows⟩

namespace Assembly.Yields

variable {α β : Type} {assembly : Assembly ν}

theorem bind {first : Assemble ν α} {next : α → Assemble ν β}
    {outcome outcome' : Except CompileError (Builder ν)} (h : assembly.Yields first outcome)
    (hok : ∀ builder, outcome = .ok builder → ∀ (value : α) (after : Assembly ν),
      after.Shows builder → after.Yields (next value) outcome')
    (herror : ∀ error, outcome = .error error → outcome' = .error error) :
    assembly.Yields (first >>= next) outcome' := by
  cases outcome with
  | error error =>
      obtain ⟨after, hafter⟩ := h
      rw [herror error rfl]
      exact ⟨after, bind_eq_error.2 (.inl hafter)⟩
  | ok builder =>
      obtain ⟨value, after, hafter, hshows⟩ := h
      have hnext := hok builder rfl value after hshows
      unfold Yields at hnext ⊢
      rwa [bind_of_ok hafter]

theorem unit {assemble : Assemble ν α} {outcome : Except CompileError (Builder ν)}
    (h : assembly.Yields assemble outcome) :
    assembly.Yields (assemble >>= fun _ => pure ()) outcome := by
  refine h.bind ?_ fun _ => id
  rintro builder rfl _ after hshows
  exact ⟨(), after, rfl, hshows⟩

end Assembly.Yields

namespace Assembly.Shows

variable {assembly : Assembly ν} {builder : Builder ν}

theorem register (h : assembly.Shows builder) (declaration : Declaration) :
    assembly.Yields (Assemble.register declaration) (builder.register declaration) := by
  cases declaration with
  | «variable» name type => exact (h.declare name type (.initial type)).yields.unit
  | function signature body =>
      exact (h.declare signature.name .function (.initial .function)).yields.unit

theorem addBuiltins (h : assembly.Shows builder) (natives : List (Builtin ν)) :
    assembly.Yields (Assemble.addBuiltins natives) (builder.addBuiltins natives) := by
  induction natives generalizing assembly builder with
  | nil => exact ⟨(), assembly, rfl, h⟩
  | cons first rest ih =>
      have hdeclare := (h.declare first.name .builtin (.builtin first)).yields
      unfold Builder.addBuiltins Builder.builtin
      cases hresult : builder.declare first.name .builtin (.builtin first) with
      | error error =>
          rw [hresult] at hdeclare
          refine hdeclare.bind ?_ ?_ <;> rintro _ ⟨⟩
          rfl
      | ok result =>
          rw [hresult] at hdeclare
          refine hdeclare.bind ?_ ?_ <;> rintro _ ⟨⟩
          intro _ after hshows
          exact ih hshows

theorem compileFunctions (h : assembly.Shows builder) (hmade : builder.Made)
    (declared : List Declaration) (events : Array Event) :
    assembly.Yields (Assemble.compileFunctions declared)
      (Checked.outcome (Script.compileFunctions builder declared events)) := by
  induction declared generalizing assembly builder events with
  | nil => exact ⟨(), assembly, rfl, h⟩
  | cons first rest ih =>
      cases first with
      | «variable» name type => exact ih h hmade events
      | function signature body =>
          obtain ⟨bodies, hlayout⟩ := hmade.exists_layout
          have hfunction := (h.functionOfItems hlayout.tidy signature body events).yields
          unfold Assemble.compileFunctions Script.compileFunctions
          cases hresult : builder.functionOfItems signature body events with
          | error error events' =>
              rw [hresult] at hfunction
              rw [bind_eq_error.2 (.inl hresult)]
              refine hfunction.bind ?_ ?_ <;> rintro _ ⟨⟩
              rfl
          | ok result events' =>
              rw [hresult] at hfunction
              rw [bind_of_ok hresult]
              refine hfunction.bind ?_ ?_ <;> rintro _ ⟨⟩
              intro _ after hshows
              exact ih hshows (.function hmade hresult) events'

end Assembly.Shows

/-- Changing an assembly while a script is read. -/
theorem Reads.on {assembly : Assembly ν} {α : Type} {assemble : Assemble ν α}
    {outcome : Except CompileError (Builder ν)} (hyields : assembly.Yields assemble outcome)
    {cursor : Cursor} {state : Parser.State} (h : cursor.Shows state) :
    Reads (assemble.on assembly) (liftM outcome : Parser (Builder ν)) cursor state
      fun builder after state' => after.Shows builder ∧ state' = state := by
  unfold Assemble.on
  cases outcome with
  | error error =>
      obtain ⟨after, hafter⟩ := hyields
      simp only [hafter]
      exact .fail
  | ok builder =>
      obtain ⟨value, after, hafter, hshows⟩ := hyields
      simp only [hafter]
      exact .pure h ⟨hshows, rfl⟩

/-- All declarations are read, and each name is known in place. -/
theorem Cursor.Shows.declarations {limit rounds : Nat} {cursor : Cursor} {state : Parser.State}
    (h : cursor.Shows state) (hlimit : state.rest.length ≤ limit)
    (hrounds : state.rest.length ≤ rounds) {assembly : Assembly ν} {builder : Builder ν}
    (hassembly : assembly.Shows builder) :
    Reads (Reading.declarations limit rounds assembly) (Script.declarations limit rounds builder)
      cursor state fun value result _ => result.1 = value.1 ∧ result.2.Shows value.2 := by
  induction rounds generalizing cursor state assembly builder with
  | zero =>
      obtain ⟨token, rest, hrest, -⟩ := h.current
      simp [hrest] at hrounds
  | succ rounds ih =>
      refine (h.declaration? hlimit).bind ?_
      rintro _ declared cursor₁ state₁ h₁ ⟨rfl, hlength⟩
      cases declared with
      | none => exact .pure h₁ ⟨rfl, hassembly⟩
      | some first =>
          have hlength := hlength rfl
          refine (Reads.on (hassembly.register first) h₁).bind ?_
          rintro builder₂ assembly₂ cursor₂ _ h₂ ⟨hassembly₂, rfl⟩
          refine (ih h₂ (by omega) (by omega) hassembly₂).bind ?_
          rintro ⟨rest, builder₃⟩ ⟨_, assembly₃⟩ cursor₃ state₃ h₃ ⟨rfl, hassembly₃⟩
          exact .pure h₃ ⟨rfl, hassembly₃⟩

/-- Before the first token of a text. Its last token is an end token. -/
theorem Cursor.shows_start {source : String} {tokens : List Token}
    (h : Token.tokenize source = .ok tokens) (events : Array Event) :
    Cursor.Shows { tokens := tokens.toArray }
      { rest := tokens.map .ok, locals := none, events } := by
  obtain ⟨pieces, rest, -, -, rfl⟩ := Token.divides_of_tokenize h
  refine ⟨?_, ?_, ?_⟩
  · simp [Cursor.rest]
  · simp
  · exact ⟨.eof (Token.lineAfter source.toList), by simp, rfl⟩

namespace Assembly

variable {assembly : Assembly ν} {builder : Builder ν}

/-- The bodies and the top-level code, once the declarations are read. -/
theorem Shows.finish (h : assembly.Shows builder) (hmade : builder.Made)
    (declared : List Declaration) (main : List Item) (events : Array Event) :
    SameOutcome
      (Checked.outcome
        ((Assemble.compileFunctions declared >>= fun _ => Assemble.build main) assembly))
      (Checked.outcome
        ((Script.compileFunctions builder declared >>= fun builder => builder.buildOfItems main)
          events)) := by
  have hfunctions := h.compileFunctions hmade declared events
  cases hcompile : Script.compileFunctions builder declared events with
  | error error events' =>
      rw [hcompile] at hfunctions
      obtain ⟨after, hafter⟩ := hfunctions
      rw [bind_eq_error.2 (.inl hafter), bind_eq_error.2 (.inl hcompile)]
      exact .error
  | ok builder' events' =>
      rw [hcompile] at hfunctions
      obtain ⟨_, after, hafter, hshows⟩ := hfunctions
      rw [bind_of_ok hafter, bind_of_ok hcompile]
      exact hshows.build main events'

section Declarations

variable {source : String} {tokens : List Token} {events events' : Array Event}
  (h : assembly.Shows builder) (htokens : Token.tokenize source = .ok tokens)
include h htokens

/-- The two readers of declarations start at the same place. -/
theorem Shows.reads (events : Array Event) :
    Reads (Reading.declarations tokens.length tokens.length assembly)
      (Script.declarations tokens.length tokens.length builder) { tokens := tokens.toArray }
      { rest := tokens.map .ok, locals := none, events }
      fun value result _ => result.1 = value.1 ∧ result.2.Shows value.2 := by
  have hlength : (tokens.map Except.ok : List Item).length ≤ tokens.length := by simp
  exact (Cursor.shows_start htokens events).declarations hlength hlength h

theorem Shows.readDeclarations_ok {declared : List Declaration} {builder' : Builder ν}
    {state : Parser.State}
    (hparse : Build.parse (tokens.map .ok) none
      (Script.declarations tokens.length tokens.length builder) events =
      .ok ((declared, builder'), state) events') :
    ∃ after, Assemble.readDeclarations tokens assembly = .ok (declared, state.rest) after ∧
      after.Shows builder' := by
  obtain ⟨hparser, -⟩ := Build.parse_eq_ok.1 hparse
  have hreads := h.reads htokens events
  unfold Reads at hreads
  rw [hparser] at hreads
  obtain ⟨⟨_, after⟩, cursor, hread, hcursor, rfl, hshows⟩ := hreads
  refine ⟨after, ?_, hshows⟩
  simp only [Assemble.readDeclarations, hread, hcursor.rest]

theorem Shows.readDeclarations_error {error : CompileError}
    (hparse : Build.parse (tokens.map .ok) none
      (Script.declarations tokens.length tokens.length builder) events = .error error events') :
    Assemble.readDeclarations tokens assembly = .error (.error error) assembly := by
  obtain ⟨state, hparser⟩ := Build.parse_error hparse
  have hreads := h.reads htokens events
  unfold Reads at hreads
  rw [hparser] at hreads
  obtain ⟨cursor, hread⟩ := hreads
  simp only [Assemble.readDeclarations, hread]

end Declarations

/-- A script compiled by index and in place. -/
theorem Shows.compileWith (h : assembly.Shows builder) (hmade : builder.Made) (source : String)
    (events : Array Event) :
    SameOutcome (Checked.outcome (Assemble.compileWith source assembly))
      (Checked.outcome (Script.compileWith builder source events)) := by
  have htokenize : (Token.scan source).mapM id = Token.tokenize source := rfl
  unfold Assemble.compileWith Script.compileWith
  rw [ByteScanner.scan_eq, pure_bind, htokenize, Checked.outcome_liftM_bind]
  cases htokens : Token.tokenize source with
  | error error => exact .error
  | ok tokens =>
      simp only [Except.mapError, Except.bind, List.length_map, Checked.ofExcept_ok, pure_bind]
      cases hparse : Build.parse (tokens.map .ok) none
          (Script.declarations tokens.length tokens.length builder) events with
      | error error events' =>
          rw [bind_eq_error.2 (.inl hparse),
            bind_eq_error.2 (.inl (h.readDeclarations_error htokens hparse))]
          exact .error
      | ok result events' =>
          obtain ⟨⟨declared, builder'⟩, state⟩ := result
          obtain ⟨after, hafter, hshows⟩ := h.readDeclarations_ok htokens hparse
          obtain ⟨hdeclared, -⟩ := Build.parse_eq_ok.1 hparse
          rw [bind_of_ok hparse, bind_of_ok hafter]
          exact hshows.finish (Script.made_of_declarations hmade hdeclared) declared state.rest
            events'

/-- A script that may use builtins, compiled by index and in place. -/
theorem compile_sameOutcome (natives : List (Builtin ν)) (source : String) (events : Array Event) :
    SameOutcome (Checked.outcome (Assemble.compile natives source {}))
      (Checked.outcome (Script.compile natives source events)) := by
  have hbuiltins := shows_empty.addBuiltins natives
  unfold Assemble.compile Script.compile
  rw [Checked.outcome_liftM_bind]
  unfold Builder.ofBuiltins
  cases hnatives : Builder.addBuiltins {} natives with
  | error error =>
      rw [hnatives] at hbuiltins
      obtain ⟨after, hafter⟩ := hbuiltins
      rw [bind_eq_error.2 (.inl hafter)]
      exact .error
  | ok builder =>
      rw [hnatives] at hbuiltins
      obtain ⟨_, after, hafter, hshows⟩ := hbuiltins
      rw [bind_of_ok hafter]
      exact hshows.compileWith (Script.made_of_addBuiltins .empty hnatives) source events

end Assembly

end StackScript
