import Mathlib.Data.List.Basic
import Mathlib.Data.List.Induction
import StackScript.Proofs.Checked

/-!
# Tables after any declarations

A table of variables is filled by declarations, some of which are refused. What a table lists and
finds after any of them is told by the declarations alone: the first one of each name counts, in
order, and its place among the first ones is its slot. This is said once, for anything that does
what a table does, and holds both of the plain table and of the table that finds slots through a
map.
-/

namespace StackScript

/-! ## First declarations -/

/-- The first declaration of each name, in order. -/
def firstDeclarations (declared : List Variable) : List Variable :=
  declared.eraseDupsBy fun later earlier => later.name == earlier.name

/-- Some declaration has this name. -/
def Declares (declared : List Variable) (name : String) : Prop :=
  ∃ earlier ∈ declared, earlier.name = name

theorem firstDeclarations_cons (first : Variable) (rest : List Variable) :
    firstDeclarations (first :: rest) =
      first :: firstDeclarations (rest.filter (·.name ≠ first.name)) := by
  unfold firstDeclarations
  rw [List.eraseDupsBy_cons]
  simp

theorem length_others (first : Variable) (rest : List Variable) :
    (rest.filter (·.name ≠ first.name)).length < (first :: rest).length :=
  Nat.lt_succ_of_le (List.length_filter_le _ _)

/-- The first declaration of a name is found among the first ones. -/
theorem find?_firstDeclarations (name : String) : ∀ declared : List Variable,
    (firstDeclarations declared).find? (·.name = name) = declared.find? (·.name = name)
  | [] => rfl
  | first :: rest => by
      rw [firstDeclarations_cons]
      by_cases hfirst : first.name = name
      · simp [hfirst]
      · have hothers : (rest.filter (·.name ≠ first.name)).find? (·.name = name) =
            rest.find? (·.name = name) := by
          rw [List.find?_filter]
          congr 1
          funext later
          by_cases hlater : later.name = name
          · simp [hlater, Ne.symm hfirst]
          · simp [hlater]
        rw [List.find?_cons_of_neg (by simpa using hfirst),
          List.find?_cons_of_neg (by simpa using hfirst), ← hothers]
        exact find?_firstDeclarations name (rest.filter (·.name ≠ first.name))
termination_by declared => declared.length
decreasing_by exact length_others first rest

theorem declares_firstDeclarations {declared : List Variable} {name : String} :
    Declares (firstDeclarations declared) name ↔ Declares declared name := by
  have hfound : ∀ list : List Variable,
      Declares list name ↔ (list.find? (·.name = name)).isSome = true := by
    intro list
    simp [Declares, List.find?_isSome]
  rw [hfound, hfound, find?_firstDeclarations]

/-- One more declaration counts if its name is new. -/
theorem firstDeclarations_concat (new : Variable) : ∀ declared : List Variable,
    (Declares declared new.name →
      firstDeclarations (declared ++ [new]) = firstDeclarations declared) ∧
    (¬Declares declared new.name →
      firstDeclarations (declared ++ [new]) = firstDeclarations declared ++ [new])
  | [] => ⟨fun h => by simp [Declares] at h, fun _ => rfl⟩
  | first :: rest => by
      rw [List.cons_append, firstDeclarations_cons, firstDeclarations_cons, List.filter_append]
      by_cases hfirst : new.name = first.name
      · have hnothing : [new].filter (·.name ≠ first.name) = [] := by simp [hfirst]
        rw [hnothing, List.append_nil]
        refine ⟨fun _ => rfl, fun hnew => ?_⟩
        exact absurd ⟨first, List.mem_cons_self, hfirst.symm⟩ hnew
      · have hkept : [new].filter (·.name ≠ first.name) = [new] := by simp [hfirst]
        have hdeclares : Declares (rest.filter (·.name ≠ first.name)) new.name ↔
            Declares (first :: rest) new.name := by
          simp only [Declares, List.mem_filter, List.mem_cons, decide_eq_true_eq]
          constructor
          · rintro ⟨earlier, ⟨hmem, -⟩, hname⟩
            exact ⟨earlier, .inr hmem, hname⟩
          · rintro ⟨earlier, rfl | hmem, hname⟩
            · exact absurd hname.symm hfirst
            · exact ⟨earlier, ⟨hmem, hname ▸ hfirst⟩, hname⟩
        obtain ⟨hknown, hunknown⟩ :=
          firstDeclarations_concat new (rest.filter (·.name ≠ first.name))
        rw [hkept, ← hdeclares]
        refine ⟨fun h => ?_, fun h => ?_⟩
        · rw [hknown h]
        · rw [hunknown h, List.cons_append]
termination_by declared => declared.length
decreasing_by exact length_others first rest

/-! ## What a table does -/

deriving instance DecidableEq for Cell

/-- A variable in a slot. -/
def Variable.cell (slot : Nat) (new : Variable) : Cell :=
  ⟨new.name, new.type, slot⟩

/-- The variable without its slot. -/
def Cell.declaration (cell : Cell) : Variable :=
  ⟨cell.name, cell.type⟩

/-- The operations of a table of variables. -/
structure Registry (τ : Type) where
  /-- A table without variables. -/
  empty : τ
  /-- Declares a variable in place and gives its slot. -/
  declare : Variable → EStateM DuplicateName τ Nat
  /-- The variables in slot order. -/
  cells : τ → List Cell
  /-- The variable of a name. It has no error to report. -/
  find : String → Checked Empty τ (Option Cell)
  /-- Whether two tables are equal. -/
  same : τ → τ → Bool

namespace Registry

variable {τ : Type} (registry : Registry τ)

/-- What the declarations so far gave and the table after them, with one more declaration. One that
is refused ends nothing. -/
def step (sofar : List (Except DuplicateName Nat) × τ) (new : Variable) :
    List (Except DuplicateName Nat) × τ :=
  match registry.declare new sofar.2 with
  | .ok slot table => (sofar.1 ++ [.ok slot], table)
  | .error duplicate table => (sofar.1 ++ [.error duplicate], table)

/-- Makes declarations one after the other. -/
def run (declared : List Variable) : List (Except DuplicateName Nat) × τ :=
  declared.foldl registry.step ([], registry.empty)

/-- What each of the declarations gives. -/
def results (declared : List Variable) : List (Except DuplicateName Nat) :=
  (registry.run declared).1

/-- The table after declarations. -/
def after (declared : List Variable) : τ :=
  (registry.run declared).2

/-- The declarations that succeed, in order. -/
def accepted (declared : List Variable) : List Variable :=
  ((declared.zip (registry.results declared)).filter (·.2.isOk)).map (·.1)

/-- The table is told by the declarations made so far. -/
structure KeepsTrack : Prop where
  /-- The first declaration of each name is listed, in order, and each has its place as its slot. -/
  lists : ∀ declared, registry.cells (registry.after declared) =
    (firstDeclarations declared).mapIdx Variable.cell
  /-- A name is found in the cell that is listed for it, or not at all, and nothing is changed. -/
  finds : ∀ declared name, registry.find name (registry.after declared) =
    .ok ((registry.cells (registry.after declared)).find? (·.name = name)) (registry.after declared)
  /-- What is listed for a name is its first declaration. -/
  first : ∀ declared name,
    ((registry.cells (registry.after declared)).find? (·.name = name)).map Cell.declaration =
      declared.find? (·.name = name)
  /-- A declaration is refused exactly if its name was declared before, and changes nothing then. -/
  refuses : ∀ declared new duplicate table,
    registry.declare new (registry.after declared) = .error duplicate table ↔
      Declares declared new.name ∧ duplicate = ⟨new.name⟩ ∧ table = registry.after declared
  /-- Any other declaration gets the next free slot. -/
  accepts : ∀ declared new slot table,
    registry.declare new (registry.after declared) = .ok slot table ↔
      ¬Declares declared new.name ∧ slot = (registry.cells (registry.after declared)).length ∧
        table = registry.after (declared ++ [new])
  /-- Tables are equal exactly if the same declarations succeeded, in the same order. -/
  equal : ∀ declared others,
    registry.same (registry.after declared) (registry.after others) = true ↔
      registry.accepted declared = registry.accepted others

theorem run_concat (declared : List Variable) (new : Variable) :
    registry.run (declared ++ [new]) = registry.step (registry.run declared) new :=
  List.foldl_concat ..

variable {registry} {declared : List Variable} {new : Variable} {table : τ}

theorem run_of_ok {slot : Nat}
    (h : registry.declare new (registry.after declared) = .ok slot table) :
    registry.run (declared ++ [new]) = (registry.results declared ++ [.ok slot], table) := by
  rw [run_concat, step]
  unfold after at h
  rw [h]
  rfl

theorem run_of_error {duplicate : DuplicateName}
    (h : registry.declare new (registry.after declared) = .error duplicate table) :
    registry.run (declared ++ [new]) =
      (registry.results declared ++ [.error duplicate], table) := by
  rw [run_concat, step]
  unfold after at h
  rw [h]
  rfl

end Registry

/-! ## The plain table -/

namespace SlotTable

/-- The plain table keeps its entries only; slots are places among them. -/
def registry : Registry SlotTable where
  empty := {}
  declare new := fun table =>
    match table.declare new with
    | .ok (slot, table) => .ok slot table
    | .error duplicate => .error duplicate table
  cells table := table.entries.mapIdx Variable.cell
  find name := fun table => .ok ((table.find? name).map fun found => found.2.cell found.1) table
  same left right := left = right

variable {table : SlotTable} {new : Variable}

theorem slot?_eq_none_iff_declares {name : String} :
    table.slot? name = none ↔ ¬Declares table.entries name := by
  rw [slot?_eq_none, List.mem_map]
  rfl

theorem declare_of_declares (h : Declares table.entries new.name) :
    table.declare new = .error ⟨new.name⟩ := by
  unfold declare
  split
  · rfl
  next hslot => exact absurd h (slot?_eq_none_iff_declares.1 hslot)

theorem declare_of_new (h : ¬Declares table.entries new.name) :
    table.declare new = .ok (table.size, ⟨table.entries ++ [new]⟩) := by
  unfold declare
  rw [slot?_eq_none_iff_declares.2 h]

end SlotTable

/-- Cells hold the declarations that they were made of. -/
theorem map_declaration_cells (list : List Variable) :
    (list.mapIdx Variable.cell).map Cell.declaration = list := by
  apply List.ext_getElem?
  intro slot
  rw [List.getElem?_map, List.getElem?_mapIdx, Option.map_map]
  exact congrFun Option.map_id _

/-- The slot that is found is the place of the first entry of the name. -/
theorem SlotTable.find?_eq (table : SlotTable) (name : String) :
    (table.find? name).map (fun found => found.2.cell found.1) =
      (table.entries.mapIdx Variable.cell).find? (·.name = name) := by
  unfold find?
  cases hslot : table.slot? name with
  | none =>
      rw [slot?, List.findIdx?_eq_none_iff] at hslot
      symm
      rw [Option.map_none, List.find?_eq_none]
      intro cell hcell
      obtain ⟨slot, hlt, rfl⟩ := List.mem_mapIdx.1 hcell
      exact Bool.eq_false_iff.1 (hslot _ (List.getElem_mem hlt))
  | some slot =>
      obtain ⟨hlt, hname, hbefore⟩ := List.findIdx?_eq_some_iff_getElem.1 hslot
      simp only [List.getElem?_eq_getElem hlt, Option.map_some]
      symm
      rw [List.find?_eq_some_iff_getElem]
      refine ⟨hname, slot, by simpa using hlt, by simp, fun earlier hearlier => ?_⟩
      simpa [Variable.cell] using hbefore earlier hearlier

/-! ## Tables that show a plain table -/

namespace Registry

variable {τ : Type}

/-- Valid tables show a plain table and do what it does; a new table is valid and declarations keep
it so. -/
structure Refines (registry : Registry τ) (Valid : τ → Prop) (view : τ → SlotTable) : Prop where
  empty : Valid registry.empty
  view_empty : view registry.empty = {}
  refuses : ∀ {table new duplicate}, Valid table → (view table).declare new = .error duplicate →
    registry.declare new table = .error duplicate table
  accepts : ∀ {table new slot plain}, Valid table → (view table).declare new = .ok (slot, plain) →
    ∃ table', registry.declare new table = .ok slot table' ∧ Valid table' ∧ view table' = plain
  cells : ∀ {table}, Valid table → registry.cells table =
    (view table).entries.mapIdx Variable.cell
  find : ∀ {table}, Valid table → ∀ name, registry.find name table =
    .ok (((view table).find? name).map fun found => found.2.cell found.1) table
  same : ∀ {left right}, Valid left → Valid right →
    (registry.same left right = true ↔ view left = view right)

/-- What is known of a table after declarations. -/
structure Tracked (registry : Registry τ) (Valid : τ → Prop) (view : τ → SlotTable)
    (declared : List Variable) : Prop where
  valid : Valid (registry.after declared)
  entries : (view (registry.after declared)).entries = firstDeclarations declared
  length : (registry.results declared).length = declared.length
  accepted : registry.accepted declared = firstDeclarations declared

/-- One more declaration has been made. -/
theorem Tracked.concat {registry : Registry τ} {Valid : τ → Prop} {view : τ → SlotTable}
    {declared : List Variable} {new : Variable} {result : Except DuplicateName Nat} {table : τ}
    (h : registry.Tracked Valid view declared)
    (hrun : registry.run (declared ++ [new]) = (registry.results declared ++ [result], table))
    (hvalid : Valid table) (hentries : (view table).entries = firstDeclarations (declared ++ [new]))
    (haccepted : firstDeclarations declared ++ (if result.isOk then [new] else []) =
      firstDeclarations (declared ++ [new])) :
    registry.Tracked Valid view (declared ++ [new]) := by
  refine ⟨?_, ?_, ?_, ?_⟩
  · rw [after, hrun]
    exact hvalid
  · rw [after, hrun]
    exact hentries
  · rw [results, hrun]
    simp [h.length]
  · rw [← haccepted, ← h.accepted]
    unfold Registry.accepted
    rw [results, hrun, List.zip_append h.length.symm, List.filter_append, List.map_append]
    congr 1
    cases result <;> rfl

namespace Refines

variable {registry : Registry τ} {Valid : τ → Prop} {view : τ → SlotTable}
  (h : registry.Refines Valid view) {declared : List Variable} {new : Variable}
include h

theorem declare_known (htracked : registry.Tracked Valid view declared)
    (hknown : Declares declared new.name) :
    registry.declare new (registry.after declared) =
      .error ⟨new.name⟩ (registry.after declared) := by
  apply h.refuses htracked.valid
  apply SlotTable.declare_of_declares
  rwa [htracked.entries, declares_firstDeclarations]

theorem declare_unknown (htracked : registry.Tracked Valid view declared)
    (hnew : ¬Declares declared new.name) :
    ∃ table, registry.declare new (registry.after declared) =
        .ok (firstDeclarations declared).length table ∧
      Valid table ∧ (view table).entries = firstDeclarations declared ++ [new] := by
  have hentries := htracked.entries
  have hdeclare : (view (registry.after declared)).declare new = _ :=
    SlotTable.declare_of_new (by rwa [hentries, declares_firstDeclarations])
  obtain ⟨table, htable, hvalid, hview⟩ := h.accepts htracked.valid hdeclare
  rw [SlotTable.size, hentries] at htable
  exact ⟨table, htable, hvalid, by rw [hview, hentries]⟩

/-- By induction on the declarations, the last one first. -/
theorem tracked (declared : List Variable) : registry.Tracked Valid view declared := by
  induction declared using List.reverseRecOn with
  | nil => exact ⟨h.empty, congrArg SlotTable.entries h.view_empty, rfl, rfl⟩
  | append_singleton declared new ih =>
      obtain ⟨hfirst, hanother⟩ := firstDeclarations_concat new declared
      by_cases hknown : Declares declared new.name
      · have hrun := run_of_error (h.declare_known ih hknown)
        refine ih.concat hrun ih.valid ?_ ?_
        · rw [hfirst hknown]
          exact ih.entries
        · rw [hfirst hknown]
          exact List.append_nil _
      · obtain ⟨table, hdeclare, hvalid, hentries⟩ := h.declare_unknown ih hknown
        exact ih.concat (run_of_ok hdeclare) hvalid (hanother hknown ▸ hentries)
          (hanother hknown).symm

/-- Any two tables that show a plain table give the same results. -/
theorem results_eq {σ : Type} {other : Registry σ} {Valid' : σ → Prop} {view' : σ → SlotTable}
    (h' : other.Refines Valid' view') (declared : List Variable) :
    registry.results declared = other.results declared := by
  induction declared using List.reverseRecOn with
  | nil => rfl
  | append_singleton declared new ih =>
      by_cases hknown : Declares declared new.name
      · have hrun := run_of_error (h.declare_known (h.tracked declared) hknown)
        have hrun' := run_of_error (h'.declare_known (h'.tracked declared) hknown)
        rw [results, results, hrun, hrun', ih]
      · obtain ⟨table, hdeclare, -⟩ := h.declare_unknown (h.tracked declared) hknown
        obtain ⟨table', hdeclare', -⟩ := h'.declare_unknown (h'.tracked declared) hknown
        rw [results, results, run_of_ok hdeclare, run_of_ok hdeclare', ih]

theorem cells_after (declared : List Variable) :
    registry.cells (registry.after declared) =
      (firstDeclarations declared).mapIdx Variable.cell := by
  rw [h.cells (h.tracked declared).valid, (h.tracked declared).entries]

/-- Whatever shows a plain table keeps track of declarations as that does. -/
theorem keepsTrack : registry.KeepsTrack where
  lists := h.cells_after
  finds := by
    intro declared name
    have hvalid := (h.tracked declared).valid
    rw [h.find hvalid, SlotTable.find?_eq, h.cells hvalid]
  first := by
    intro declared name
    rw [h.cells_after, ← find?_firstDeclarations]
    conv_rhs => rw [← map_declaration_cells (firstDeclarations declared), List.find?_map]
    rfl
  refuses := by
    intro declared new duplicate table
    by_cases hknown : Declares declared new.name
    · rw [h.declare_known (h.tracked declared) hknown]
      simp [hknown, eq_comm]
    · obtain ⟨table', hdeclare, -⟩ := h.declare_unknown (h.tracked declared) hknown
      simp [hdeclare, hknown]
  accepts := by
    intro declared new slot table
    by_cases hknown : Declares declared new.name
    · rw [h.declare_known (h.tracked declared) hknown]
      simp [hknown]
    · obtain ⟨table', hdeclare, -⟩ := h.declare_unknown (h.tracked declared) hknown
      have hafter : registry.after (declared ++ [new]) = table' :=
        congrArg Prod.snd (run_of_ok hdeclare)
      rw [hafter, hdeclare, h.cells_after, List.length_mapIdx]
      simp [hknown, eq_comm]
  equal := by
    intro declared others
    have hleft := h.tracked declared
    have hright := h.tracked others
    rw [h.same hleft.valid hright.valid, hleft.accepted, hright.accepted, ← hleft.entries,
      ← hright.entries]
    exact ⟨congrArg _, congrArg SlotTable.mk⟩

end Refines

end Registry

/-! ## The two tables -/

theorem SlotTable.registry_refines : SlotTable.registry.Refines (fun _ => True) id where
  empty := trivial
  view_empty := rfl
  refuses _ hdeclare := by
    simp only [registry, id] at hdeclare ⊢
    rw [hdeclare]
  accepts _ hdeclare := by
    refine ⟨_, ?_, trivial, rfl⟩
    simp only [registry, id] at hdeclare ⊢
    rw [hdeclare]
  cells _ := rfl
  find _ _ := rfl
  same _ _ := decide_eq_true_iff

namespace IndexedTable

/-- Declares a variable in place: a new name gets a cell and then an entry of the map. A name that
is known is refused before anything is changed. -/
def enter (new : Variable) : EStateM DuplicateName IndexedTable Nat := do
  if new.name ∈ (← get).byName then throw ⟨new.name⟩
  else
    let slot := (← get).cells.size
    modify fun indexed => { indexed with cells := indexed.cells.push (new.cell slot) }
    modify fun indexed => { indexed with byName := indexed.byName.insert new.name slot }
    return slot

/-- The table that finds slots through a map. Two of them are equal if their cells are and their
maps have the same entries. -/
def registry : Registry IndexedTable where
  empty := {}
  declare := enter
  cells indexed := indexed.cells.toList
  find name := do (← get).find name
  same left right := left.cells == right.cells && left.byName == right.byName

variable {indexed left right : IndexedTable} {new : Variable}

theorem enter_of_error {duplicate : DuplicateName} (h : indexed.declare new = .error duplicate) :
    enter new indexed = .error duplicate indexed := by
  unfold declare at h
  split at h
  next hmem =>
    cases h
    rw [enter, get_bind, if_pos hmem]
    rfl
  next => cases h

theorem enter_of_ok {slot : Nat} {indexed' : IndexedTable}
    (h : indexed.declare new = .ok (slot, indexed')) : enter new indexed = .ok slot indexed' := by
  unfold declare at h
  split at h
  next => cases h
  next hnew =>
    cases h
    rw [enter, get_bind, if_neg hnew]
    rfl

namespace Consistent

theorem cells_eq (h : indexed.Consistent) :
    indexed.cells.toList = indexed.table.entries.mapIdx Variable.cell := by
  apply List.ext_getElem?
  intro slot
  rw [List.getElem?_mapIdx, getElem?_table, Option.map_map, Array.getElem?_toList]
  cases hcell : indexed.cells[slot]? with
  | none => rfl
  | some cell =>
      obtain rfl := h.slots slot cell hcell
      rfl

/-- Equal cells make equal tables, and the map follows from the cells. -/
theorem same_iff (hleft : left.Consistent) (hright : right.Consistent) :
    registry.same left right = true ↔ left.table = right.table := by
  simp only [registry, Bool.and_eq_true, beq_iff_eq, Std.HashMap.beq_iff_equiv]
  constructor
  · rintro ⟨hcells, -⟩
    rw [table, table, hcells]
  · intro htable
    refine ⟨Array.toList_inj.1 ?_, Std.HashMap.Equiv.of_forall_getElem?_eq fun name => ?_⟩
    · rw [hleft.cells_eq, hright.cells_eq, htable]
    · rw [hleft.names, hright.names, htable]

end Consistent

theorem registry_refines : registry.Refines Consistent table where
  empty := .empty
  view_empty := rfl
  refuses := by
    intro indexed new duplicate h hdeclare
    rw [← h.declare_eq] at hdeclare
    cases hindexed : indexed.declare new with
    | ok result =>
        rw [hindexed] at hdeclare
        cases hdeclare
    | error other =>
        rw [hindexed] at hdeclare
        cases hdeclare
        exact enter_of_error hindexed
  accepts := by
    intro indexed new slot plain h hdeclare
    rw [← h.declare_eq] at hdeclare
    cases hindexed : indexed.declare new with
    | ok result =>
        rw [hindexed] at hdeclare
        cases hdeclare
        exact ⟨_, enter_of_ok hindexed, h.declare hindexed, rfl⟩
    | error other =>
        rw [hindexed] at hdeclare
        cases hdeclare
  cells h := h.cells_eq
  find := by
    intro indexed h name
    exact congrFun (h.find_eq name) indexed
  same hleft hright := hleft.same_iff hright

end IndexedTable

/-- Slot tables stay consistent. After any declarations, refused ones among them, both the plain
table and the one with a map list the first declaration of each name in its slot, find exactly
these, refuse exactly the names that were declared before without a change, and are equal exactly
if the same declarations succeeded. They give the same results, and the one shows the other. -/
theorem tables_keep_track :
    SlotTable.registry.KeepsTrack ∧ IndexedTable.registry.KeepsTrack ∧
    ∀ declared,
      IndexedTable.registry.results declared = SlotTable.registry.results declared ∧
      (IndexedTable.registry.after declared).table = SlotTable.registry.after declared := by
  have hplain := SlotTable.registry_refines
  have hindexed := IndexedTable.registry_refines
  refine ⟨hplain.keepsTrack, hindexed.keepsTrack, fun declared => ⟨?_, ?_⟩⟩
  · exact hindexed.results_eq hplain declared
  · have hentries := (hindexed.tracked declared).entries
    exact congrArg SlotTable.mk (hentries.trans (hplain.tracked declared).entries.symm)

end StackScript
