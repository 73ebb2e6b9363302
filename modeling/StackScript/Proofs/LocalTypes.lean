import StackScript.Proofs.Representation
import StackScript.Proofs.ScriptTree

/-!
# The types of locals in scripts

A script can declare integers and strings only, so a local of a script starts with a value of its
own type, and no argument that a function accepts can be called. Every access to a local agrees
with the table of the function it stands in.
-/

namespace StackScript

variable {ν : Type}

/-! ## Values -/

/-- A variable that a script can declare starts with a value of its type. -/
theorem Value.tag_initial {type : TypeTag} (h : type.isDeclarable = true) :
    (Value.initial type : Value ν).tag = type := by
  cases type with
  | int | string => rfl
  | builtin | function => cases h

/-- Whatever a variable starts with has a type that a script can declare. -/
theorem Value.isDeclarable_initial (type : TypeTag) :
    (Value.initial type : Value ν).tag.isDeclarable = true := by
  cases type <;> rfl

namespace Machine

theorem tags_of_firstMismatch? {index : Nat} {types : List TypeTag} {values : List (Value ν)}
    (h : firstMismatch? index types values = none) (hlength : values.length = types.length) :
    values.map Value.tag = types := by
  induction types generalizing index values with
  | nil => simpa using hlength
  | cons expected types ih =>
      cases values with
      | nil => simp at hlength
      | cons value values =>
          unfold firstMismatch? at h
          split at h
          next htag => rw [List.map_cons, htag, ih h (by simpa using hlength)]
          next => cases h

/-- The arguments that a function accepts have the types of its parameters. -/
theorem tags_of_checkArguments {func : Func} {arguments : List (Value ν)}
    (h : checkArguments func arguments = .ok ()) : arguments.map Value.tag = func.params := by
  unfold checkArguments at h
  split at h
  next hlength =>
    split at h
    next hmismatch => exact tags_of_firstMismatch? hmismatch hlength
    next => cases h
  next => cases h

end Machine

/-! ## Declarations -/

/-- Only integers and strings are declared, and a function has no locals before its body. -/
def Declaration.IsDeclarable : Declaration → Prop
  | .variable _ type => type.isDeclarable = true
  | .function signature _ =>
      signature.locals = [] ∧ ∀ param ∈ signature.params, param.type.isDeclarable = true

namespace Parser

variable {state state' : State}

theorem parameters_declarable {bound : Nat} {params : List Variable}
    (h : parameters bound state = .ok params state') :
    ∀ param ∈ params, param.type.isDeclarable = true := by
  induction bound generalizing state state' params with
  | zero =>
      obtain ⟨⟨name, type⟩, _, hname, hresult⟩ := bind_eq_ok.1 h
      cases (pure_eq_ok.1 hresult).1
      intro param hparam
      obtain rfl := List.mem_singleton.1 hparam
      exact (typedName_ok hname).2
  | succ bound ih =>
      obtain ⟨⟨name, type⟩, _, hname, hmore⟩ := bind_eq_ok.1 h
      obtain ⟨token, _, -, hrest⟩ := bind_eq_ok.1 hmore
      have htype := (typedName_ok hname).2
      intro param hparam
      split at hrest
      · cases (pure_eq_ok.1 hrest).1
        obtain rfl := List.mem_singleton.1 hparam
        exact htype
      · split at hrest
        · obtain ⟨others, _, hothers, hresult⟩ := bind_eq_ok.1 hrest
          cases (pure_eq_ok.1 hresult).1
          rcases List.mem_cons.1 hparam with rfl | hparam
          · exact htype
          · exact ih hothers param hparam
        · exact absurd hrest throw_ne_ok

theorem functionDeclaration_declarable {bound : Nat} {declaration : Declaration}
    (h : functionDeclaration bound state = .ok declaration state') :
    declaration.IsDeclarable := by
  obtain ⟨name, _, -, hopen⟩ := bind_eq_ok.1 h
  obtain ⟨_, _, -, hparams⟩ := bind_eq_ok.1 hopen
  obtain ⟨params, _, hread, hreturns⟩ := bind_eq_ok.1 hparams
  obtain ⟨returns, _, -, hbrace⟩ := bind_eq_ok.1 hreturns
  obtain ⟨_, _, -, hbody⟩ := bind_eq_ok.1 hbrace
  obtain ⟨body, _, -, hresult⟩ := bind_eq_ok.1 hbody
  cases (pure_eq_ok.1 hresult).1
  refine ⟨rfl, ?_⟩
  obtain ⟨token, _, -, hlist⟩ := bind_eq_ok.1 hread
  split at hlist
  · obtain ⟨_, _, -, hnone⟩ := bind_eq_ok.1 hlist
    obtain ⟨rfl, -⟩ := pure_eq_ok.1 hnone
    intro param hparam
    cases hparam
  · exact parameters_declarable hlist

theorem declaration?_declarable {bound : Nat} {declaration : Declaration}
    (h : declaration? bound state = .ok (some declaration) state') :
    declaration.IsDeclarable := by
  obtain ⟨token, _, -, hword⟩ := bind_eq_ok.1 h
  split at hword
  · obtain ⟨_, _, -, hname⟩ := bind_eq_ok.1 hword
    obtain ⟨⟨name, type⟩, _, hread, hresult⟩ := bind_eq_ok.1 hname
    cases (pure_eq_ok.1 hresult).1
    exact (typedName_ok hread).2
  · split at hword
    · obtain ⟨_, _, -, hfunction⟩ := bind_eq_ok.1 hword
      obtain ⟨_, _, hread, hresult⟩ := bind_eq_ok.1 hfunction
      cases (pure_eq_ok.1 hresult).1
      exact functionDeclaration_declarable hread
    · cases (pure_eq_ok.1 hword).1

end Parser

theorem Script.takeDeclarations_declarable {limit bound : Nat} {state state' : Parser.State}
    {declared : List Declaration}
    (h : takeDeclarations limit bound state = .ok declared state') :
    ∀ declaration ∈ declared, declaration.IsDeclarable := by
  induction bound generalizing state state' declared with
  | zero =>
      cases (pure_eq_ok.1 h).1
      simp
  | succ bound ih =>
      obtain ⟨first?, _, hfirst, hrest⟩ := bind_eq_ok.1 h
      cases first? with
      | none =>
          cases (pure_eq_ok.1 hrest).1
          simp
      | some first =>
          obtain ⟨others, _, hothers, hresult⟩ := bind_eq_ok.1 hrest
          cases (pure_eq_ok.1 hresult).1
          intro declaration hmem
          rcases List.mem_cons.1 hmem with rfl | hmem
          · exact Parser.declaration?_declarable hfirst
          · exact ih hothers declaration hmem

/-! ## Definitions -/

/-- Every local can be declared in a script. -/
def SlotTable.IsDeclarable (table : SlotTable) : Prop :=
  ∀ entry ∈ table.entries, entry.type.isDeclarable = true

namespace Grammar

/-- A block that is read with such a table ends with one. -/
def KeepsDeclarable (locals : Option SlotTable) : Prop :=
  ∀ table, locals = some table → table.IsDeclarable

mutual

theorem Statement.keepsDeclarable (statement : Statement) {locals : Option SlotTable}
    (h : KeepsDeclarable locals) : KeepsDeclarable (statement.localsAfter locals) := by
  match statement with
  | .branch _ body | .loop _ body => exact block_keepsDeclarable body h
  | .declare name type declarable =>
      intro table htable
      obtain ⟨before, hbefore, rfl⟩ := Option.map_eq_some_iff.1 htable
      intro entry hentry
      rcases List.mem_append.1 hentry with hentry | hentry
      · exact h before hbefore entry hentry
      · obtain rfl := List.mem_singleton.1 hentry
        exact declarable
  | .empty | .ret | .assign _ _ _ | .evaluate _ _ _ => exact h

/-- Statements declare integers and strings only. -/
theorem block_keepsDeclarable (block : List Statement) {locals : Option SlotTable}
    (h : KeepsDeclarable locals) : KeepsDeclarable (blockLocalsAfter locals block) := by
  match block with
  | [] => exact h
  | first :: rest => exact block_keepsDeclarable rest (first.keepsDeclarable h)

end

end Grammar

/-- What the descriptor of a function of a script says about its body. -/
structure Compiled.IsTyped (compiled : Compiled) : Prop where
  params : compiled.func.params =
    (compiled.func.locals.entries.take compiled.func.arity).map (·.type)
  declarable : compiled.func.locals.IsDeclarable
  slots : ∀ instruction ∈ compiled.code, compiled.func.locals.Types instruction

namespace Compiled.IsTyped

variable {compiled : Compiled}

theorem declarable_params (h : compiled.IsTyped) :
    ∀ type ∈ compiled.func.params, type.isDeclarable = true := by
  intro type htype
  rw [h.params] at htype
  obtain ⟨entry, hentry, rfl⟩ := List.mem_map.1 htype
  exact h.declarable entry (List.mem_of_mem_take hentry)

/-- A call starts with values of the declared types in all slots. -/
theorem tags_of_call (h : compiled.IsTyped) {arguments : List (Value ν)}
    (haccepts : Machine.checkArguments compiled.func arguments = .ok ()) :
    (arguments ++ compiled.func.extraLocals).map Value.tag =
      compiled.func.locals.entries.map (·.type) := by
  have hextra : (compiled.func.extraLocals : List (Value ν)).map Value.tag =
      (compiled.func.locals.entries.drop compiled.func.arity).map (·.type) := by
    rw [Func.extraLocals, List.map_map]
    apply List.map_congr_left
    intro entry hentry
    exact Value.tag_initial (h.declarable entry (List.mem_of_mem_drop hentry))
  rw [List.map_append, Machine.tags_of_checkArguments haccepts, hextra, h.params,
    ← List.map_append, List.take_append_drop]

end Compiled.IsTyped

namespace Script

/-- A definition of a function makes a typed function wherever its body is placed. -/
theorem isTyped_of_define {declaration : Declaration} {signature : Signature}
    {locals : SlotTable} {body : Block} {events events' : Array Event}
    (hdeclarable : declaration.IsDeclarable)
    (h : define declaration events = .ok (.function signature locals body) events')
    (entry : Nat) : Compiled.IsTyped ⟨signature.func entry locals, body⟩ := by
  match declaration with
  | .variable name type => cases (pure_eq_ok.1 h).1
  | .function signature' items =>
      obtain ⟨table, _, hlift, hblock⟩ := bind_eq_ok.1 h
      obtain ⟨⟨tree, locals'⟩, _, hread, hresult⟩ := bind_eq_ok.1 hblock
      cases (pure_eq_ok.1 hresult).1
      have hreads := Source.reads_of_block (liftM_eq_ok.1 hlift).1 hread entry
      obtain ⟨derivation, final, -, hfinal, -, hfunc⟩ := hreads.body
      have hinitial : Grammar.KeepsDeclarable (some signature.initialTable) := by
        intro table htable
        cases htable
        intro param hparam
        rw [Signature.initialTable, hdeclarable.1, List.append_nil] at hparam
        exact hdeclarable.2 param hparam
      have hlocals : locals'.getD {} = final := congrArg Func.locals hfunc
      refine ⟨hreads.params, ?_, hreads.slots⟩
      rw [Signature.func, hlocals]
      exact Grammar.block_keepsDeclarable derivation hinitial final hfinal

theorem define_of_mem {declared : List Declaration} {definitions : List Definition}
    {events events' : Array Event} (h : defineAll declared events = .ok definitions events')
    {definition : Definition} (hmem : definition ∈ definitions) :
    ∃ declaration ∈ declared, ∃ before after,
      define declaration before = .ok definition after := by
  induction declared generalizing definitions events events' with
  | nil =>
      cases (pure_eq_ok.1 h).1
      cases hmem
  | cons first rest ih =>
      obtain ⟨found, _, hfirst, hothers⟩ := bind_eq_ok.1 h
      obtain ⟨others, _, hrest, hresult⟩ := bind_eq_ok.1 hothers
      cases (pure_eq_ok.1 hresult).1
      rcases List.mem_cons.1 hmem with rfl | hmem
      · exact ⟨first, List.mem_cons_self, _, _, hfirst⟩
      · obtain ⟨declaration, hdeclaration, hdefine⟩ := ih hrest hmem
        exact ⟨declaration, List.mem_cons_of_mem _ hdeclaration, hdefine⟩

/-- Every function of a script is typed wherever it is placed. -/
theorem isTyped_of_tree {source : String} {tree : Tree} {events events' : Array Event}
    (h : Script.tree source events = .ok tree events') {signature : Signature}
    {locals : SlotTable} {body : Block}
    (hmem : .function signature locals body ∈ tree.definitions) (entry : Nat) :
    Compiled.IsTyped ⟨signature.func entry locals, body⟩ := by
  obtain ⟨tokens, _, -, hdeclared⟩ := bind_eq_ok.1 h
  obtain ⟨⟨declared, state⟩, _, hparse, hdefined⟩ := bind_eq_ok.1 hdeclared
  obtain ⟨definitions, _, hdefine, hblock⟩ := bind_eq_ok.1 hdefined
  obtain ⟨⟨main, _⟩, _, -, hresult⟩ := bind_eq_ok.1 hblock
  cases (pure_eq_ok.1 hresult).1
  have hdeclarable := takeDeclarations_declarable (Build.parse_eq_ok.1 hparse).1
  obtain ⟨declaration, hdeclaration, _, _, hfound⟩ := define_of_mem hdefine hmem
  exact isTyped_of_define (hdeclarable declaration hdeclaration) hfound entry

/-- The layout of a compiled script, with typed functions whose bodies are those of the tree. -/
theorem layout_of_compile {natives : List (Builtin ν)} {source : String} {program : Program ν}
    {events events' : Array Event} (h : compile natives source events = .ok program events') :
    ∃ (tree : Tree) (events'' : Array Event) (bodies : List Compiled),
      Script.tree source events = .ok tree events'' ∧ program.Layout bodies tree.main ∧
      ∀ compiled ∈ bodies, compiled.IsTyped ∧
        ∃ signature locals, .function signature locals compiled.body ∈ tree.definitions := by
  obtain ⟨placed, main, events'', htree, -, -, hlayout⟩ := compile_placed h
  refine ⟨_, events'', _, htree, hlayout, ?_⟩
  intro compiled hmem
  obtain ⟨one, hone, hcompiled⟩ := List.mem_filterMap.1 hmem
  obtain ⟨signature, locals, hdefinition, hfunc⟩ := Placed.compiled?_eq_some.1 hcompiled
  have hdefined : .function signature locals compiled.body ∈ placed.map (·.definition) :=
    hdefinition ▸ List.mem_map_of_mem hone
  have htyped := isTyped_of_tree htree hdefined one.entry
  rw [← hfunc] at htyped
  exact ⟨htyped, signature, locals, hdefined⟩

end Script

end StackScript
