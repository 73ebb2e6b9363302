import Mathlib.Tactic.Common
import StackScript.Proofs.Building

/-!
# Computations with checked operations

Some operations are defined in part of their domain only: an index has to be within bounds, a
counter cannot go below zero. A checked computation says so when one of them is used elsewhere, and
this is not an error that it reports. Where a checked computation never does, nothing is lost by
leaving the checks out.

The first use is a table of variables that finds slots through a map from names. It answers as the
plain table does, and the slots that it finds are within bounds.
-/

namespace StackScript

/-- Why a computation has no result: there is an error to report, or an operation was used where it
is not defined. -/
inductive Stop (ε : Type) where
  | error (error : ε)
  | undefined
deriving DecidableEq

/-- A computation whose partial operations are checked. -/
abbrev Checked (ε σ : Type) := EStateM (Stop ε) σ

namespace Checked

variable {ε σ α β : Type}

/-- Fails with an error to report. -/
def fail (error : ε) : Checked ε σ α :=
  throw (.error error)

/-- An operation outside its domain. -/
def undefined : Checked ε σ α :=
  throw .undefined

/-- The result of a partial operation, which has to be there. -/
def demand : Option α → Checked ε σ α
  | some value => pure value
  | none => undefined

/-- Carries on with the error of a computation that fails. -/
def attempt (computation : Checked ε σ α) : Checked ε σ (Except ε α) := fun state =>
  match computation state with
  | .ok value state => .ok (.ok value) state
  | .error (.error error) state => .ok (.error error) state
  | .error .undefined state => .error .undefined state

/-- A result, or an error to report. -/
def ofExcept : Except ε α → Checked ε σ α
  | .ok value => pure value
  | .error error => fail error

theorem ofExcept_ok (value : α) : (ofExcept (.ok value) : Checked ε σ α) = pure value :=
  rfl

/-- A computation all of whose operations are total. -/
def ofTotal (computation : EStateM ε σ α) : Checked ε σ α := fun state =>
  match computation state with
  | .ok value state => .ok value state
  | .error error state => .error (.error error) state

/-- What a computation gives, without the state it ends in. -/
def outcome : EStateM.Result ε σ α → Except ε α
  | .ok value _ => .ok value
  | .error error _ => .error error

theorem outcome_liftM (result : Except ε α) (state : σ) :
    outcome ((liftM result : EStateM ε σ α) state) = result := by
  cases result <;> rfl

theorem outcome_liftM_bind (result : Except ε α) (next : α → EStateM ε σ β) (state : σ) :
    outcome (((liftM result : EStateM ε σ α) >>= next) state) =
      result.bind fun value => outcome (next value state) := by
  cases result <;> rfl

theorem ofTotal_pure (value : α) : (ofTotal (pure value) : Checked ε σ α) = pure value :=
  rfl

theorem ofTotal_bind (first : EStateM ε σ α) (next : α → EStateM ε σ β) :
    ofTotal (first >>= next) = ofTotal first >>= fun value => ofTotal (next value) := by
  funext state
  simp only [ofTotal, bind, EStateM.bind]
  cases first state <;> rfl

theorem ofTotal_get_bind (next : σ → EStateM ε σ β) (state : σ) :
    ofTotal ((get : EStateM ε σ σ) >>= next) state = ofTotal (next state) state :=
  rfl

theorem ofTotal_set_bind (state' : σ) (next : PUnit → EStateM ε σ β) (state : σ) :
    ofTotal ((set state' : EStateM ε σ PUnit) >>= next) state = ofTotal (next ⟨⟩) state' :=
  rfl

theorem ofTotal_ok {computation : EStateM ε σ α} {state state' : σ} {value : α}
    (h : computation state = .ok value state') : ofTotal computation state = .ok value state' := by
  simp only [ofTotal, h]

theorem ofTotal_error {computation : EStateM ε σ α} {state state' : σ} {error : ε}
    (h : computation state = .error error state') :
    ofTotal computation state = .error (.error error) state' := by
  simp only [ofTotal, h]

/-! ### Readers of tokens

They take tokens by any `next` that there is. -/

section Readers

variable (next : Checked CompileError σ Token)

/-- Fails because of a token that does not fit. -/
def unexpected (expected : Expected) (found : Token) : Checked CompileError σ α :=
  fail (.unexpectedToken expected found)

/-- Takes a punctuation mark. -/
def mark (symbol : String) : Checked CompileError σ Token := do
  let token ← next
  if token.isMark symbol then return token
  else unexpected (.mark symbol) token

/-- Takes a name. -/
def identifier (expected : Expected) : Checked CompileError σ Token := do
  let token ← next
  if token.kind = .identifier then return token
  else unexpected expected token

/-- The declarable type that a token names. -/
def declarableType (token : Token) : Checked CompileError σ TypeTag :=
  match TypeTag.ofName? token.text with
  | some type =>
      if type.isDeclarable then pure type else fail (.unknownType token.line token.text)
  | none => fail (.unknownType token.line token.text)

/-- Takes a name and its declarable type. -/
def typedName (expected : Expected) : Checked CompileError σ (Token × TypeTag) := do
  let name ← identifier next expected
  let type ← declarableType (← identifier next .typeName)
  return (name, type)

end Readers

end Checked

/-! ## Tables with a map from names to slots -/

/-- A new variable is found in the slot after the others. -/
theorem SlotTable.slot?_concat {table : SlotTable} {new : Variable}
    (hnew : table.slot? new.name = none) (name : String) :
    slot? ⟨table.entries ++ [new]⟩ name =
      if new.name = name then some table.size else table.slot? name := by
  unfold slot? at hnew ⊢
  rw [List.findIdx?_append]
  by_cases hname : new.name = name
  · subst hname
    simp [hnew, size]
  · simp [hname]

/-- The slot of a name is that of the variable that is found. -/
theorem SlotTable.map_find? (table : SlotTable) (name : String) :
    (table.find? name).map (·.1) = table.slot? name := by
  unfold find?
  cases hslot : table.slot? name with
  | none => rfl
  | some slot =>
      obtain ⟨entry, hentry, -⟩ := Option.map_eq_some_iff.1 (getElem?_of_slot? hslot)
      simp [hentry]

/-- A variable in its slot. -/
structure Cell where
  name : String
  type : TypeTag
  slot : Nat

/-- Variables in slot order, and the slot of each name. -/
structure IndexedTable where
  cells : Array Cell := #[]
  byName : Std.HashMap String Nat := {}

namespace IndexedTable

/-- The variables in slot order. -/
def table (indexed : IndexedTable) : SlotTable :=
  ⟨indexed.cells.toList.map fun cell => ⟨cell.name, cell.type⟩⟩

/-- Gives a new name the next free slot, and refuses a name that has one. -/
def declare (indexed : IndexedTable) (new : Variable) : Except DuplicateName (Nat × IndexedTable) :=
  if new.name ∈ indexed.byName then .error ⟨new.name⟩
  else
    let slot := indexed.cells.size
    .ok (slot, ⟨indexed.cells.push ⟨new.name, new.type, slot⟩, indexed.byName.insert new.name slot⟩)

/-- The variable of a name. The slot in the map has to be within bounds. -/
def find {ε σ : Type} (indexed : IndexedTable) (name : String) : Checked ε σ (Option Cell) :=
  match indexed.byName[name]? with
  | none => pure none
  | some slot => some <$> Checked.demand indexed.cells[slot]?

/-- The map agrees with the slots of the table, and every variable knows its own. -/
structure Consistent (indexed : IndexedTable) : Prop where
  slots : ∀ (slot : Nat) (cell : Cell), indexed.cells[slot]? = some cell → cell.slot = slot
  names : ∀ name, indexed.byName[name]? = indexed.table.slot? name

theorem Consistent.empty : Consistent {} :=
  ⟨by simp, by simp [table, SlotTable.slot?]⟩

theorem getElem?_table (indexed : IndexedTable) (slot : Nat) :
    indexed.table.entries[slot]? =
      (indexed.cells[slot]?).map fun cell => ⟨cell.name, cell.type⟩ := by
  simp [table]

variable {indexed indexed' : IndexedTable}

namespace Consistent

theorem mem_iff (h : indexed.Consistent) (name : String) :
    name ∈ indexed.byName ↔ indexed.table.slot? name ≠ none := by
  rw [← h.names, Std.HashMap.mem_iff_isSome_getElem?, Option.isSome_iff_ne_none]

/-- A consistent table declares what the plain table declares. -/
theorem declare_eq (h : indexed.Consistent) (new : Variable) :
    (indexed.declare new).map (fun result => (result.1, result.2.table)) =
      indexed.table.declare new := by
  unfold IndexedTable.declare SlotTable.declare
  cases hslot : indexed.table.slot? new.name with
  | none =>
      rw [if_neg (by simp [h.mem_iff, hslot])]
      simp [Except.map, table, SlotTable.size]
  | some slot =>
      rw [if_pos (by simp [h.mem_iff, hslot])]
      rfl

/-- Declaring keeps a table consistent. -/
theorem declare (h : indexed.Consistent) {new : Variable} {slot : Nat}
    (hdeclare : indexed.declare new = .ok (slot, indexed')) : indexed'.Consistent := by
  unfold IndexedTable.declare at hdeclare
  split at hdeclare
  · cases hdeclare
  next hnew =>
    rw [h.mem_iff, not_not] at hnew
    cases hdeclare
    refine ⟨fun slot cell hcell => ?_, fun name => ?_⟩
    · rw [Array.getElem?_push] at hcell
      split at hcell
      next hlast =>
        cases hcell
        exact hlast.symm
      next => exact h.slots slot cell hcell
    · have htable : IndexedTable.table
          ⟨indexed.cells.push ⟨new.name, new.type, indexed.cells.size⟩,
            indexed.byName.insert new.name indexed.cells.size⟩ =
          ⟨indexed.table.entries ++ [new]⟩ := by simp [table]
      rw [htable, SlotTable.slot?_concat hnew, Std.HashMap.getElem?_insert, h.names]
      simp [table, SlotTable.size]

/-- A consistent table finds what the plain table finds, and never looks out of bounds. -/
theorem find_eq {ε σ : Type} (h : indexed.Consistent) (name : String) :
    (indexed.find name : Checked ε σ (Option Cell)) =
      pure ((indexed.table.find? name).map fun found => ⟨found.2.name, found.2.type, found.1⟩) := by
  unfold find SlotTable.find?
  rw [h.names]
  cases hslot : indexed.table.slot? name with
  | none => rfl
  | some slot =>
      obtain ⟨entry, hentry, -⟩ := Option.map_eq_some_iff.1 (SlotTable.getElem?_of_slot? hslot)
      rw [getElem?_table] at hentry
      obtain ⟨cell, hcell, rfl⟩ := Option.map_eq_some_iff.1 hentry
      obtain rfl := h.slots slot cell hcell
      simp only [getElem?_table, hcell, Option.map_some]
      rfl

end Consistent

/-- Declares variables one after the other. One whose name is known changes nothing. -/
def declareAll (indexed : IndexedTable) : List Variable → IndexedTable
  | [] => indexed
  | first :: rest =>
      match indexed.declare first with
      | .ok (_, indexed) => indexed.declareAll rest
      | .error _ => indexed.declareAll rest

theorem Consistent.declareAll (h : indexed.Consistent) (declared : List Variable) :
    (indexed.declareAll declared).Consistent := by
  induction declared generalizing indexed with
  | nil => exact h
  | cons first rest ih =>
      unfold IndexedTable.declareAll
      split
      next hdeclare => exact ih (h.declare hdeclare)
      next => exact ih h

end IndexedTable

/-- Code ready to run, whose globals are found through a map. -/
structure IndexedProgram (ν : Type) where
  code : Array Instruction
  globals : IndexedTable := {}
  memory : Array (Value ν) := #[]
  entry : Nat := 0

/-- The program without the map. -/
def IndexedProgram.program {ν : Type} (indexed : IndexedProgram ν) : Program ν :=
  { code := indexed.code
    globals := indexed.globals.table
    memory := indexed.memory
    entry := indexed.entry }

end StackScript
