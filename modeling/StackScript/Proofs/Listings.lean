import Mathlib.Data.List.Basic
import Mathlib.Data.Prod.Basic
import StackScript.Program.Listing
import StackScript.Native
import StackScript.Proofs.InstructionText
import StackScript.Proofs.SourceNames

/-!
# What listings say

A listing of a compiled script is read line by line. The numbered lines are the instructions, and a
heading says what starts at the instruction that follows it, so the number of instructions in front
of a heading is an entry. Nothing in a string or in a name can be taken for a line of its own.
-/

namespace StackScript

variable {ν : Type}

/-! ## Lines -/

namespace Text

/-- The pieces of a text between its line ends. -/
def lines (text : String) : List String :=
  (text.toList.splitOn '\n').map String.ofList

/-- The text that has the given lines, each with a line end. -/
def unlines (lines : List String) : String :=
  String.join (lines.map (· ++ "\n"))

theorem unlines_append (lines lines' : List String) :
    unlines (lines ++ lines') = unlines lines ++ unlines lines' := by
  simp [unlines]

theorem unlines_cons (line : String) (rest : List String) :
    unlines (line :: rest) = line ++ "\n" ++ unlines rest := by
  simp [unlines]

/-- Lines are read back if there is no line end in them; nothing follows the last one. -/
theorem lines_unlines {written : List String} (h : ∀ line ∈ written, '\n' ∉ line.toList) :
    lines (unlines written) = written ++ [""] := by
  induction written with
  | nil => rfl
  | cons first rest ih =>
      obtain ⟨hfirst, hrest⟩ := List.forall_mem_cons.1 h
      have htext : (unlines (first :: rest)).toList =
          first.toList ++ '\n' :: (unlines rest).toList := by simp [unlines_cons]
      have hlines := ih hrest
      rw [lines] at hlines ⊢
      rw [htext, List.splitOn_append_cons_self_of_not_mem hfirst, List.map_cons, hlines,
        String.ofList_toList, List.cons_append]

/-- Whether a line of a listing has a number. -/
def isNumbered (line : String) : Bool :=
  line.toList.head?.any Char.isDigit

/-- Whether a line of a listing opens a function. -/
def opensFunction (line : String) : Bool :=
  "; func ".toList.isPrefixOf line.toList

/-- The lines of a listing that have no number, each with the number of instructions in front. -/
def headingsFrom (count : Nat) : List String → List (String × Nat)
  | [] => []
  | line :: rest =>
      if isNumbered line then headingsFrom (count + 1) rest
      else (line, count) :: headingsFrom count rest

theorem map_fst_headingsFrom (count : Nat) (listed : List String) :
    (headingsFrom count listed).map Prod.fst = listed.filter (!isNumbered ·) := by
  induction listed generalizing count with
  | nil => rfl
  | cons line rest ih => cases hnumbered : isNumbered line <;> simp [headingsFrom, hnumbered, ih]

theorem headingsFrom_append {front : List String} (h : ∀ line ∈ front, isNumbered line = false)
    (count : Nat) (rest : List String) :
    headingsFrom count (front ++ rest) = front.map (·, count) ++ headingsFrom count rest := by
  induction front with
  | nil => rfl
  | cons line others ih =>
      obtain ⟨hline, hothers⟩ := List.forall_mem_cons.1 h
      simp [headingsFrom, hline, ih hothers]

end Text

open Text

namespace Program

/-- The line that opens the top-level code. -/
def mainLine : String :=
  "; main"

/-- The line that opens a function. -/
def functionLine (func : Func) : String :=
  "; func " ++ func.name

/-- The line of an instruction. -/
def numberedLine (index : Nat) (instruction : Instruction) : String :=
  position index ++ " " ++ instruction.render

/-- The lines in front of the instruction at an index. -/
def headingLines (program : Program ν) (index : Nat) : List String :=
  (program.functions.filter (·.entry = index)).map functionLine ++
    if index = program.entry then [mainLine] else []

/-- The lines of a listing for the code from an index on. -/
def linesFrom (program : Program ν) : (index : Nat) → List Instruction → List String
  | index, [] => if index ≤ program.entry then [mainLine] else []
  | index, instruction :: rest =>
      program.headingLines index ++
        numberedLine index instruction :: program.linesFrom (index + 1) rest

theorem headings_eq_unlines (program : Program ν) (index : Nat) :
    program.headings index = unlines (program.headingLines index) := by
  have hfunctions : functionHeading = (· ++ "\n") ∘ functionLine := by
    funext func
    simp [functionHeading, functionLine]
  rw [Program.headings, headingLines, unlines_append, hfunctions, ← List.map_map]
  split <;> rfl

theorem unlines_linesFrom (program : Program ν) (index : Nat) (code : List Instruction) :
    unlines (program.linesFrom index code) =
      String.join ((code.zipIdx index).map fun line =>
        program.headings line.2 ++ listingLine line.2 line.1) ++
        (if index + code.length ≤ program.entry then mainHeading else "") := by
  induction code generalizing index with
  | nil =>
      simp only [linesFrom, List.zipIdx_nil, List.map_nil, List.length_nil, Nat.add_zero]
      split <;> rfl
  | cons instruction rest ih =>
      have hlength : index + (rest.length + 1) = index + 1 + rest.length := by omega
      rw [linesFrom, unlines_append, unlines_cons, ih, List.zipIdx_cons, List.length_cons, hlength]
      simp [listingLine, numberedLine, headings_eq_unlines, String.append_assoc]

theorem listing_eq_unlines (program : Program ν) :
    program.listing = unlines (program.linesFrom 0 program.code.toList) := by
  rw [unlines_linesFrom, Nat.zero_add, Array.length_toList]
  rfl

/-! ## Reading lines -/

/-- The functions stand in front of the top-level code in the order of their slots, and neither
their names nor the instructions hold a line end. -/
structure IsListable (program : Program ν) : Prop where
  sorted : program.functions.Pairwise (·.entry < ·.entry)
  before : ∀ func ∈ program.functions, func.entry < program.entry
  within : program.entry ≤ program.code.size
  names : ∀ func ∈ program.functions, '\n' ∉ func.name.toList
  code : ∀ instruction ∈ program.code.toList, '\n' ∉ instruction.render.toList

theorem isNumbered_numberedLine (index : Nat) (instruction : Instruction) :
    isNumbered (numberedLine index instruction) = true := by
  obtain ⟨first, rest, hposition⟩ := List.exists_cons_of_ne_nil (position_ne_nil index)
  have hfirst : first.isDigit = true :=
    isDigit_of_mem_position (by rw [hposition]; exact List.mem_cons_self)
  simp [isNumbered, numberedLine, hposition, hfirst]

theorem newline_notMem_numberedLine {index : Nat} {instruction : Instruction}
    (h : '\n' ∉ instruction.render.toList) : '\n' ∉ (numberedLine index instruction).toList := by
  have hposition : '\n' ∉ (position index).toList := fun hmem =>
    absurd (isDigit_of_mem_position hmem) (by decide)
  simp [numberedLine, hposition, h]

theorem numberedLine_injective {index : Nat} {left right : Instruction}
    (h : numberedLine index left = numberedLine index right) : left = right :=
  Instruction.render_injective ((String.append_right_inj _).1 h)

theorem eq_of_numberedLines {left right : List Instruction} {index : Nat}
    (h : ((left.zipIdx index).map fun line => numberedLine line.2 line.1) =
      (right.zipIdx index).map fun line => numberedLine line.2 line.1) : left = right := by
  induction left generalizing right index with
  | nil =>
      cases right with
      | nil => rfl
      | cons => cases h
  | cons first rest ih =>
      cases right with
      | nil => cases h
      | cons first' rest' =>
          simp only [List.zipIdx_cons, List.map_cons, List.cons.injEq] at h
          rw [numberedLine_injective h.1, ih h.2]

theorem functionLine_ne_mainLine (func : Func) : functionLine func ≠ mainLine := by
  intro h
  have htext := congrArg String.toList h
  simp [functionLine, mainLine] at htext

theorem opensFunction_functionLine (func : Func) : opensFunction (functionLine func) = true := by
  simp [opensFunction, functionLine]

theorem isNumbered_of_opensFunction {line : String} (h : opensFunction line = true) :
    isNumbered line = false := by
  obtain ⟨rest, hline⟩ := List.isPrefixOf_iff_prefix.1 h
  rw [isNumbered, ← hline]
  rfl

theorem mem_headingLines {program : Program ν} {index : Nat} {line : String}
    (h : line ∈ program.headingLines index) :
    (∃ func ∈ program.functions, line = functionLine func) ∨ line = mainLine := by
  rcases List.mem_append.1 h with h | h
  · obtain ⟨func, hfunc, rfl⟩ := List.mem_map.1 h
    exact .inl ⟨func, List.mem_of_mem_filter hfunc, rfl⟩
  · split at h
    · exact .inr (List.mem_singleton.1 h)
    · cases h

theorem isNumbered_of_mem_headingLines {program : Program ν} {index : Nat} {line : String}
    (h : line ∈ program.headingLines index) : isNumbered line = false := by
  rcases mem_headingLines h with ⟨func, -, rfl⟩ | rfl
  · exact isNumbered_of_opensFunction (opensFunction_functionLine func)
  · rfl

/-- The numbered lines are those of the instructions. -/
theorem filter_linesFrom (program : Program ν) (index : Nat) (code : List Instruction) :
    (program.linesFrom index code).filter isNumbered =
      (code.zipIdx index).map fun line => numberedLine line.2 line.1 := by
  induction code generalizing index with
  | nil =>
      rw [linesFrom]
      split <;> rfl
  | cons instruction rest ih =>
      have hheadings : (program.headingLines index).filter isNumbered = [] :=
        List.filter_eq_nil_iff.2 fun line hline => by simp [isNumbered_of_mem_headingLines hline]
      rw [linesFrom, List.filter_append, hheadings, List.nil_append,
        List.filter_cons_of_pos (isNumbered_numberedLine index instruction), ih, List.zipIdx_cons,
        List.map_cons]

/-- In a list that is sorted by entries, those at the least entry come first. -/
theorem filter_le_eq {functions : List Func} (h : functions.Pairwise (·.entry < ·.entry))
    (index : Nat) :
    functions.filter (index ≤ ·.entry) =
      functions.filter (·.entry = index) ++ functions.filter (index + 1 ≤ ·.entry) := by
  induction functions with
  | nil => rfl
  | cons first rest ih =>
      obtain ⟨hfirst, hrest⟩ := List.pairwise_cons.1 h
      have hothers := ih hrest
      rcases Nat.lt_trichotomy first.entry index with hlt | heq | hgt
      · rwa [List.filter_cons_of_neg (by simpa using hlt),
          List.filter_cons_of_neg (by simpa using hlt.ne),
          List.filter_cons_of_neg (by simpa using hlt.le)]
      · rw [List.filter_cons_of_pos (by simp [heq]), List.filter_cons_of_pos (by simp [heq]),
          List.filter_cons_of_neg (by simp [heq]), hothers, List.cons_append]
      -- what follows `first` starts even later, so nothing starts at the index
      · have hnone : rest.filter (·.entry = index) = [] := by
          rw [List.filter_eq_nil_iff]
          intro func hfunc
          have hlater := hfirst func hfunc
          simp only [decide_eq_true_eq]
          omega
        rw [List.filter_cons_of_pos (by simpa using hgt.le),
          List.filter_cons_of_neg (by simpa using hgt.ne'),
          List.filter_cons_of_pos (by simpa using hgt), hothers, hnone, List.nil_append,
          List.nil_append]

theorem map_headingLines (program : Program ν) (index : Nat) :
    (program.headingLines index).map (·, index) =
      (program.functions.filter (·.entry = index)).map
        (fun func => (functionLine func, func.entry)) ++
      if index = program.entry then [(mainLine, program.entry)] else [] := by
  rw [headingLines, List.map_append, List.map_map]
  congr 1
  · apply List.map_congr_left
    intro func hfunc
    have hentry : func.entry = index := by simpa using (List.mem_filter.1 hfunc).2
    rw [hentry]
    rfl
  · split
    next heq => rw [heq]; rfl
    next => rfl

namespace IsListable

variable {program : Program ν}

theorem filter_eq_nil (h : program.IsListable) {index : Nat} (hindex : program.entry ≤ index) :
    program.functions.filter (index ≤ ·.entry) = [] := by
  rw [List.filter_eq_nil_iff]
  intro func hfunc
  have hbefore := h.before func hfunc
  simp only [decide_eq_true_eq]
  omega

/-- The headings of a listing are those of the functions and of the top-level code, each in front of
the instruction at its entry. -/
theorem headingsFrom_linesFrom (h : program.IsListable) {index : Nat} {code : List Instruction}
    (hcode : index + code.length = program.code.size) :
    headingsFrom index (program.linesFrom index code) =
      (program.functions.filter (index ≤ ·.entry)).map (fun func => (functionLine func, func.entry))
        ++ if index ≤ program.entry then [(mainLine, program.entry)] else [] := by
  induction code generalizing index with
  | nil =>
      rw [List.length_nil, Nat.add_zero] at hcode
      rw [linesFrom, h.filter_eq_nil (hcode ▸ h.within), List.map_nil, List.nil_append]
      split
      next hle =>
        obtain rfl := Nat.le_antisymm hle (hcode ▸ h.within)
        rfl
      next => rfl
  | cons instruction rest ih =>
      have hrest := ih (show index + 1 + rest.length = program.code.size by simp at hcode; omega)
      rw [linesFrom, headingsFrom_append fun _ hline => isNumbered_of_mem_headingLines hline,
        headingsFrom, if_pos (isNumbered_numberedLine index instruction), hrest,
        map_headingLines, filter_le_eq h.sorted index, List.map_append]
      -- the heading of the top-level code comes last, as no function starts at its entry or later
      rcases Nat.lt_trichotomy index program.entry with hlt | rfl | hgt
      · simp [hlt.ne, hlt.le, Nat.succ_le_of_lt hlt]
      · rw [h.filter_eq_nil (Nat.le_succ _)]
        simp
      · simp [hgt.ne', hgt.not_ge, (Nat.lt_succ_of_lt hgt).not_ge]

theorem newline_notMem_headingLines (h : program.IsListable) {index : Nat} {line : String}
    (hline : line ∈ program.headingLines index) : '\n' ∉ line.toList := by
  rcases mem_headingLines hline with ⟨func, hfunc, rfl⟩ | rfl
  · simpa [functionLine] using h.names func hfunc
  · decide

theorem newline_notMem (h : program.IsListable) {index : Nat} {code : List Instruction}
    (hcode : ∀ instruction ∈ code, '\n' ∉ instruction.render.toList) :
    ∀ line ∈ program.linesFrom index code, '\n' ∉ line.toList := by
  induction code generalizing index with
  | nil =>
      intro line hline
      rw [linesFrom] at hline
      split at hline
      · rw [List.mem_singleton.1 hline]
        decide
      · cases hline
  | cons instruction rest ih =>
      obtain ⟨hinstruction, hrest⟩ := List.forall_mem_cons.1 hcode
      intro line hline
      rw [linesFrom, List.mem_append, List.mem_cons] at hline
      rcases hline with hheading | rfl | hlater
      · exact h.newline_notMem_headingLines hheading
      · exact newline_notMem_numberedLine hinstruction
      · exact ih hrest line hlater

/-- The text of a listing is that of its lines. -/
theorem lines_listing (h : program.IsListable) :
    lines program.listing = program.linesFrom 0 program.code.toList ++ [""] := by
  rw [listing_eq_unlines, lines_unlines (h.newline_notMem h.code)]

theorem headingsFrom_zero (h : program.IsListable) :
    headingsFrom 0 (program.linesFrom 0 program.code.toList) =
      program.functions.map (fun func => (functionLine func, func.entry)) ++
        [(mainLine, program.entry)] := by
  have hall : program.functions.filter (0 ≤ ·.entry) = program.functions :=
    List.filter_eq_self.2 fun _ _ => by simp
  rw [h.headingsFrom_linesFrom (by simp), hall, if_pos (Nat.zero_le _)]

/-- The lines without a number open the functions in the order of their slots, then the top-level
code. -/
theorem filter_not_isNumbered (h : program.IsListable) :
    (program.linesFrom 0 program.code.toList).filter (!isNumbered ·) =
      program.functions.map functionLine ++ [mainLine] := by
  rw [← map_fst_headingsFrom 0, h.headingsFrom_zero, List.map_append, List.map_map]
  rfl

theorem numbered_lines (h : program.IsListable) :
    (lines program.listing).filter isNumbered =
      program.code.toList.zipIdx.map fun line => numberedLine line.2 line.1 := by
  have hend : [""].filter isNumbered = [] := rfl
  rw [h.lines_listing, List.filter_append, filter_linesFrom, hend, List.append_nil]

theorem count_mainLine (h : program.IsListable) : (lines program.listing).count mainLine = 1 := by
  have hfunctions : (program.functions.map functionLine).count mainLine = 0 := by
    rw [List.count_eq_zero]
    intro hmem
    obtain ⟨func, -, hfunc⟩ := List.mem_map.1 hmem
    exact functionLine_ne_mainLine func hfunc
  rw [h.lines_listing, List.count_append, ← List.count_filter (p := (!isNumbered ·)) rfl,
    h.filter_not_isNumbered, List.count_append, hfunctions]
  rfl

theorem function_lines (h : program.IsListable) :
    (lines program.listing).filter opensFunction = program.functions.map functionLine := by
  have hplain : ∀ listed : List String,
      listed.filter opensFunction = (listed.filter (!isNumbered ·)).filter opensFunction := by
    intro listed
    rw [List.filter_filter]
    refine List.filter_congr fun line _ => ?_
    cases hopens : opensFunction line with
    | false => rfl
    | true => rw [isNumbered_of_opensFunction hopens]; rfl
  have hfunctions :
      (program.functions.map functionLine).filter opensFunction =
        program.functions.map functionLine := by
    rw [List.filter_eq_self]
    intro line hline
    obtain ⟨func, -, rfl⟩ := List.mem_map.1 hline
    exact opensFunction_functionLine func
  have hothers : [mainLine].filter opensFunction ++ [""].filter opensFunction = [] := rfl
  rw [h.lines_listing, List.filter_append, hplain (program.linesFrom _ _),
    h.filter_not_isNumbered, List.filter_append, hfunctions, List.append_assoc, hothers,
    List.append_nil]

/-- Two programs with the same listing have the same code, the same entry and functions with the
same names and entries. -/
theorem eq_of_listing_eq {ν' : Type} {other : Program ν'} (h : program.IsListable)
    (h' : other.IsListable) (heq : program.listing = other.listing) :
    program.code = other.code ∧ program.entry = other.entry ∧
      program.functions.map (fun func => (func.name, func.entry)) =
        other.functions.map (fun func => (func.name, func.entry)) := by
  have hlines : program.linesFrom 0 program.code.toList =
      other.linesFrom 0 other.code.toList := by
    have hall := congrArg lines heq
    rw [h.lines_listing, h'.lines_listing] at hall
    exact List.append_cancel_right hall
  -- the numbered lines are the code, and the others tell where it is entered
  have hnumbered := congrArg (List.filter isNumbered) hlines
  have hheadings := congrArg (headingsFrom 0) hlines
  rw [filter_linesFrom, filter_linesFrom] at hnumbered
  rw [h.headingsFrom_zero, h'.headingsFrom_zero] at hheadings
  obtain ⟨hfunctions, hmain⟩ := List.append_inj' hheadings rfl
  refine ⟨Array.toList_inj.1 (eq_of_numberedLines hnumbered), ?_, ?_⟩
  · simpa using hmain
  · have hheading : Function.Injective ("; func " ++ · : String → String) :=
      fun _ _ => (String.append_right_inj _).1
    have hentry : Function.Injective (id : Nat → Nat) := Function.injective_id
    apply (hheading.prodMap hentry).list_map
    simpa [functionLine, Function.comp_def] using hfunctions

end IsListable

end Program

/-! ## Compiled scripts -/

/-- An instruction stands on one line if the name in it does. -/
theorem Instruction.newline_notMem_render {instruction : Instruction}
    (h : ∀ name ∈ instruction.name?, '\n' ∉ name.toList) : '\n' ∉ instruction.render.toList := by
  have hnumber : ∀ n : Nat, '\n' ∉ (toString n).toList := fun n hmem =>
    absurd (isDigit_of_mem_toString hmem) (by decide)
  cases instruction with
  | push literal =>
      have hliteral : '\n' ∉ literal.render.toList := by
        cases literal with
        | int value => exact fun hmem => absurd (isDigit_of_mem_int hmem) (by decide)
        | str text => exact newline_notMem_quoted text
      simp [render, mnemonic, hliteral]
  | loadGlobal name | assignGlobal name =>
      have hname := h name rfl
      simp [render, mnemonic, hname]
  | loadLocal slot type | setLocal slot type =>
      have hslot := hnumber slot
      cases type <;> simp_all [render, mnemonic, TypeTag.name]
  | invoke n | jumpIfZero n =>
      have hn := hnumber n
      simp_all [render, mnemonic]
  | binary operator => cases operator <;> decide
  | ret | pop => decide

/-- Bodies in a row are sorted by their entries. -/
theorem Laid.pairwise {start stop : Nat} {bodies : List Compiled} (h : Laid start bodies stop) :
    bodies.Pairwise (·.func.entry < ·.func.entry) := by
  induction bodies generalizing start with
  | nil => exact .nil
  | cons first rest ih =>
      refine .cons ?_ (ih h.2)
      intro other hother
      have hlater := (h.2.bounds hother).1
      rw [Compiled.last] at hlater
      omega

theorem Script.isListable_of_compile {natives : List (Builtin ν)} {source : String}
    {program : Program ν} {events events' : Array Event}
    (h : compile natives source events = .ok program events') : program.IsListable := by
  obtain ⟨hcode, hfunctions⟩ := isWordPart_of_compile h
  have hplain : ∀ {name : String}, (∀ c ∈ name.toList, Token.isWordPart c = true) →
      '\n' ∉ name.toList := fun hparts hmem => absurd (hparts _ hmem) (by decide)
  obtain ⟨tree, _, -, rfl⟩ := program_of_compile h
  have hlaid := tree.laid_bodies natives
  refine ⟨?_, ?_, ?_, fun func hfunc => hplain (hfunctions func hfunc), ?_⟩
  · rw [Tree.functions_program, List.pairwise_map]
    exact hlaid.pairwise
  · intro func hfunc
    rw [Tree.functions_program] at hfunc
    obtain ⟨compiled, hmem, rfl⟩ := List.mem_map.1 hfunc
    have hlast := (hlaid.bounds hmem).2
    rw [Compiled.last] at hlast
    omega
  · have hlength := hlaid.length
    rw [← Array.length_toList, Tree.toList_code_program, List.length_append]
    omega
  · intro instruction hmem
    refine Instruction.newline_notMem_render fun name hname => hplain (hcode name ?_)
    exact List.mem_flatMap.2 ⟨instruction, hmem, Option.mem_toList.2 hname⟩

namespace Program

variable {ν' : Type} {natives : List (Builtin ν)} {source : String} {program : Program ν}
  {events events' : Array Event}

/-- Listings determine code. The numbered lines of a compiled script's listing are its instructions
in the order of their indices, one line opens the top-level code and one opens each function. Any
other script with the same listing has the same code, the same entry, and functions with the same
names and entries in the same order. -/
theorem listing_determines_code (h : Script.compile natives source events = .ok program events') :
    ((lines program.listing).filter isNumbered =
        program.code.toList.zipIdx.map fun line => numberedLine line.2 line.1) ∧
    (lines program.listing).count mainLine = 1 ∧
    (lines program.listing).filter opensFunction = program.functions.map functionLine ∧
    ∀ (natives' : List (Builtin ν')) (source' : String) (other : Program ν')
      (events₁ events₂ : Array Event),
      Script.compile natives' source' events₁ = .ok other events₂ →
      program.listing = other.listing →
      program.code = other.code ∧ program.entry = other.entry ∧
        program.functions.map (fun func => (func.name, func.entry)) =
          other.functions.map (fun func => (func.name, func.entry)) := by
  have hlistable := Script.isListable_of_compile h
  refine ⟨hlistable.numbered_lines, hlistable.count_mainLine, hlistable.function_lines, ?_⟩
  intro natives' source' other events₁ events₂ hother heq
  exact hlistable.eq_of_listing_eq (Script.isListable_of_compile hother) heq

/-- A string that looks like lines of a listing, in a function that nothing follows. -/
theorem listing_of_quoted_lines :
    ∃ (source source' : String) (program other : Program Native) (events events' : Array Event),
      Script.compile [] source #[] = .ok program events ∧
      Script.compile [] source' #[] = .ok other events' ∧
      program.globals ≠ other.globals ∧ program.listing = other.listing ∧
      program.code = other.code ∧ program.entry = other.entry ∧
      (lines program.listing).filter isNumbered =
        ["0000 PUSH \"\\n; main\\n0001 POP\"", "0001 ASSIGN_GLOBAL s", "0002 RETURN"] ∧
      (lines program.listing).count "; main" = 1 ∧
      (lines program.listing).filter opensFunction = ["; func f"] := by
  let func : Func := ⟨"f", [], none, 0, {}⟩
  let code : Array Instruction := #[.push (.str "\n; main\n0001 POP"), .assignGlobal "s", .ret]
  let program : Program Native :=
    { code, globals := ⟨[⟨"f", .function⟩]⟩, memory := #[.function func], entry := 3 }
  let other : Program Native :=
    { code, globals := ⟨[⟨"s", .string⟩, ⟨"f", .function⟩]⟩,
      memory := #[.str "", .function func], entry := 3 }
  have hcompile : Script.compile [] "func f() \x7b s = '\n; main\n0001 POP' \x7d" #[] =
      .ok program #[.functionCompiled "f" 0 3 0, .mainCompiled 3 3] := by cbv
  have hother : Script.compile [] "var s string func f() \x7b s = '\n; main\n0001 POP' \x7d" #[] =
      .ok other #[.functionCompiled "f" 0 3 0, .mainCompiled 3 3] := by cbv
  have hlisting : program.listing = other.listing := rfl
  have hwritten : (code.toList.zipIdx.map fun line => numberedLine line.2 line.1) =
      ["0000 PUSH \"\\n; main\\n0001 POP\"", "0001 ASSIGN_GLOBAL s", "0002 RETURN"] := by cbv
  obtain ⟨hnumbered, hmain, hfunctions, hsame⟩ := listing_determines_code hcompile
  obtain ⟨hcode, hentry, -⟩ := hsame _ _ _ _ _ hother hlisting
  exact ⟨_, _, program, other, _, _, hcompile, hother, by decide, hlisting, hcode, hentry,
    hnumbered.trans hwritten, hmain, hfunctions⟩

end Program

end StackScript
