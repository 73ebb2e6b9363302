import Mathlib.Order.Interval.Finset.Nat
import StackScript.Native
import StackScript.Proofs.Operands
import StackScript.Proofs.Relocation

/-!
# Jumps are structured

Jumps come from branches and loops only, and these stand in one another. So the code that a jump
leads over and the code that a loop repeats are either apart or one inside the other, a jump back
ends a loop that has exactly one way out, and no jump leaves the body it stands in. That is so of
code that is written in place too, once the jumps that were left open are filled in.

Regions of one program are compared, rather than pieces of code, so that nothing has to be moved
when a region becomes part of a larger one.
-/

namespace StackScript

variable {ν : Type}

/-! ## Spans of jumps -/

/-- The positions from a jump forward up to its target, or from the target of a jump back up to
the jump. -/
def jumpSpan (index target : Nat) : Finset Nat :=
  if index < target then Finset.Icc index (target - 1) else Finset.Icc target index

theorem mem_jumpSpan {index target position : Nat} :
    position ∈ jumpSpan index target ↔
      index ≤ position ∧ position < target ∨ target ≤ position ∧ position ≤ index := by
  unfold jumpSpan
  split <;> rw [Finset.mem_Icc] <;> omega

/-- The spans of any two of the jumps are apart, or one is inside the other. -/
def Nest (jumps : Nat → Nat → Prop) : Prop :=
  ∀ index target index' target', jumps index target → jumps index' target' →
    Disjoint (jumpSpan index target) (jumpSpan index' target') ∨
      jumpSpan index target ⊆ jumpSpan index' target' ∨
      jumpSpan index' target' ⊆ jumpSpan index target

namespace Nest

variable {jumps jumps' : Nat → Nat → Prop}

theorem mono (h : Nest jumps) (himp : ∀ index target, jumps' index target → jumps index target) :
    Nest jumps' := by
  intro index target index' target' hjump hjump'
  exact h _ _ _ _ (himp _ _ hjump) (himp _ _ hjump')

/-- A jump around all the others. -/
theorem insert {outer goal : Nat} (h : Nest jumps)
    (hinside : ∀ index target, jumps index target → jumpSpan index target ⊆ jumpSpan outer goal) :
    Nest fun index target => index = outer ∧ target = goal ∨ jumps index target := by
  rintro index target index' target' (⟨rfl, rfl⟩ | hjump) (⟨rfl, rfl⟩ | hjump')
  · exact .inr (.inl (Finset.Subset.refl _))
  · exact .inr (.inr (hinside _ _ hjump'))
  · exact .inr (.inl (hinside _ _ hjump))
  · exact h _ _ _ _ hjump hjump'

theorem union (h : Nest jumps) (h' : Nest jumps')
    (hapart : ∀ index target index' target', jumps index target → jumps' index' target' →
      Disjoint (jumpSpan index target) (jumpSpan index' target')) :
    Nest fun index target => jumps index target ∨ jumps' index target := by
  rintro index target index' target' (hjump | hjump) (hjump' | hjump')
  · exact h _ _ _ _ hjump hjump'
  · exact .inl (hapart _ _ _ _ hjump hjump')
  · exact .inl (hapart _ _ _ _ hjump' hjump).symm
  · exact h' _ _ _ _ hjump hjump'

end Nest

/-! ## Regions of a program -/

namespace Program

/-- The instruction at the index jumps to the target. -/
def Jumps (program : Program ν) (index target : Nat) : Prop :=
  program.code[index]? = some (.jumpIfZero target)

/-- There is such a jump between two positions. -/
def JumpsIn (program : Program ν) (start stop index target : Nat) : Prop :=
  start ≤ index ∧ index < stop ∧ program.Jumps index target

/-- The code from `start` up to the jump at `last` is a loop: the jump is always taken, and there is
one jump that leads out, behind it. No jump comes before that one, and all others stay in the
loop. -/
structure IsLoop (program : Program ν) (start last : Nat) : Prop where
  always : program.code[last - 1]? = some (.push (.int 0))
  exit : ∃ exit, program.JumpsIn start last exit (last + 1) ∧
    ∀ index target, program.JumpsIn start (last + 1) index target →
      index = exit ∨ exit < index ∧ start ≤ target ∧ target ≤ last

/-- The jumps between two positions stay there, their spans nest, and those that go back end
loops. -/
structure WellJumped (program : Program ν) (start stop : Nat) : Prop where
  stay : ∀ ⦃index target⦄, program.JumpsIn start stop index target →
    start ≤ target ∧ target ≤ stop
  nest : Nest (program.JumpsIn start stop)
  loops : ∀ ⦃index target⦄, program.JumpsIn start stop index target → target ≤ index →
    program.IsLoop target index

variable {program : Program ν}

theorem JumpsIn.split {start middle stop index target : Nat}
    (h : program.JumpsIn start stop index target) :
    program.JumpsIn start middle index target ∨ program.JumpsIn middle stop index target := by
  obtain ⟨hstart, hstop, hjump⟩ := h
  rcases Nat.lt_or_ge index middle with hlt | hge
  · exact .inl ⟨hstart, hlt, hjump⟩
  · exact .inr ⟨hge, hstop, hjump⟩

theorem Jumps.unique {index target target' : Nat} (h : program.Jumps index target)
    (h' : program.Jumps index target') : target = target' := by
  have hsame := Option.some.inj (h.symm.trans h')
  exact Instruction.jumpIfZero.inj hsame

/-- What stands in a region where a fragment is held is an instruction of the fragment. -/
theorem Holds.mem {start index : Nat} {fragment : List Instruction} {instruction : Instruction}
    (h : program.Holds start fragment) (hstart : start ≤ index)
    (hstop : index < start + fragment.length)
    (hcode : program.code[index]? = some instruction) : instruction ∈ fragment := by
  have hlt : index - start < fragment.length := by omega
  have hheld := h (List.getElem?_eq_getElem hlt)
  rw [Nat.add_sub_cancel' hstart, hcode] at hheld
  exact Option.some.inj hheld ▸ List.getElem_mem hlt

namespace WellJumped

variable {start middle stop : Nat}

/-- Code without jumps. -/
theorem plain (h : ∀ index target, ¬ program.JumpsIn start stop index target) :
    program.WellJumped start stop where
  stay _ _ hjump := absurd hjump (h _ _)
  nest _ _ _ _ hjump := absurd hjump (h _ _)
  loops _ _ hjump := absurd hjump (h _ _)

/-- The span of a jump is in the region of the jump. -/
theorem mem_of_mem_jumpSpan (h : program.WellJumped start stop) {index target position : Nat}
    (hjump : program.JumpsIn start stop index target) (hmem : position ∈ jumpSpan index target) :
    start ≤ position ∧ position < stop := by
  have htarget := h.stay hjump
  obtain ⟨hstart, hstop, -⟩ := hjump
  rw [mem_jumpSpan] at hmem
  omega

/-- Where all jumps stay in their region, none is left open: the target that stands for an unknown
one is behind all code. -/
theorem ne_pending (h : program.WellJumped start stop) (hstop : stop < Emit.pending)
    {index target : Nat} (hjump : program.JumpsIn start stop index target) :
    target ≠ Emit.pending := by
  have htarget := h.stay hjump
  omega

/-- Two regions, one behind the other. -/
theorem append (h : program.WellJumped start middle) (h' : program.WellJumped middle stop)
    (hstart : start ≤ middle) (hstop : middle ≤ stop) : program.WellJumped start stop where
  stay index target hjump := by
    rcases hjump.split with hjump | hjump
    · have htarget := h.stay hjump
      omega
    · have htarget := h'.stay hjump
      omega
  nest := by
    apply (h.nest.union h'.nest ?_).mono
    · intro index target hjump
      exact hjump.split
    · intro index target index' target' hjump hjump'
      rw [Finset.disjoint_left]
      intro position hmem hmem'
      have hbefore := h.mem_of_mem_jumpSpan hjump hmem
      have hbehind := h'.mem_of_mem_jumpSpan hjump' hmem'
      omega
  loops index target hjump hback := by
    rcases hjump.split with hjump | hjump
    · exact h.loops hjump hback
    · exact h'.loops hjump hback

/-- A test and a jump over a body. -/
theorem branch {jump : Nat} (htest : ∀ index target, ¬ program.JumpsIn start jump index target)
    (hjump : program.Jumps jump stop) (hbody : program.WellJumped (jump + 1) stop)
    (hstart : start ≤ jump) (hstop : jump < stop) : program.WellJumped start stop := by
  have hcases : ∀ index target, program.JumpsIn start stop index target →
      index = jump ∧ target = stop ∨ program.JumpsIn (jump + 1) stop index target := by
    intro index target hin
    rcases hin.split with hin | ⟨hge, hlt, hin⟩
    · exact absurd hin (htest _ _)
    · rcases Nat.eq_or_lt_of_le hge with rfl | hgt
      · exact .inl ⟨rfl, hin.unique hjump⟩
      · exact .inr ⟨hgt, hlt, hin⟩
  refine ⟨?_, ?_, ?_⟩
  · intro index target hin
    rcases hcases index target hin with ⟨rfl, rfl⟩ | hin
    · omega
    · have htarget := hbody.stay hin
      omega
  · apply (hbody.nest.insert ?_).mono hcases
    intro index target hin position hmem
    have hbounds := hbody.mem_of_mem_jumpSpan hin hmem
    rw [mem_jumpSpan]
    omega
  · intro index target hin hback
    rcases hcases index target hin with ⟨rfl, rfl⟩ | hin
    · omega
    · exact hbody.loops hin hback

/-- A test, a jump over a body, and behind the body a jump back to the test. -/
theorem loop {jump last : Nat}
    (htest : ∀ index target, ¬ program.JumpsIn start jump index target)
    (hjump : program.Jumps jump (last + 1)) (hbody : program.WellJumped (jump + 1) (last - 1))
    (halways : program.code[last - 1]? = some (.push (.int 0))) (hback : program.Jumps last start)
    (hstart : start ≤ jump) (hlast : jump + 1 < last) : program.WellJumped start (last + 1) := by
  have hcases : ∀ index target, program.JumpsIn start (last + 1) index target →
      index = last ∧ target = start ∨ index = jump ∧ target = last + 1 ∨
        program.JumpsIn (jump + 1) (last - 1) index target := by
    intro index target hin
    rcases hin.split with htested | ⟨hge, hlt, hfound⟩
    · exact absurd htested (htest _ _)
    · by_cases hout : index = jump
      · exact .inr (.inl ⟨hout, (hout ▸ hfound).unique hjump⟩)
      by_cases hagain : index = last
      · exact .inl ⟨hagain, (hagain ▸ hfound).unique hback⟩
      have hne : index ≠ last - 1 := by
        rintro rfl
        have hpush := hfound.symm.trans halways
        cases hpush
      exact .inr (.inr ⟨by omega, by omega, hfound⟩)
  refine ⟨?_, ?_, ?_⟩
  · intro index target hin
    rcases hcases index target hin with ⟨rfl, rfl⟩ | ⟨rfl, rfl⟩ | hin
    · omega
    · omega
    · have htarget := hbody.stay hin
      omega
  · -- the body is inside the jump over it, and both are inside the jump back
    have hover : Nest fun index target => index = jump ∧ target = last + 1 ∨
        program.JumpsIn (jump + 1) (last - 1) index target := by
      apply hbody.nest.insert
      intro index target hin position hmem
      have hbounds := hbody.mem_of_mem_jumpSpan hin hmem
      rw [mem_jumpSpan]
      omega
    apply (hover.insert ?_).mono hcases
    rintro index target (⟨rfl, rfl⟩ | hin) position hmem
    · rw [mem_jumpSpan] at hmem ⊢
      omega
    · have hbounds := hbody.mem_of_mem_jumpSpan hin hmem
      rw [mem_jumpSpan]
      omega
  · intro index target hin hle
    rcases hcases index target hin with ⟨rfl, rfl⟩ | ⟨rfl, rfl⟩ | hin
    · refine ⟨halways, jump, ⟨hstart, by omega, hjump⟩, ?_⟩
      intro other target hother
      rcases hcases other target hother with ⟨rfl, rfl⟩ | ⟨rfl, rfl⟩ | hother
      · exact .inr (by omega)
      · exact .inl rfl
      · have htarget := hbody.stay hother
        have hgt := hother.1
        exact .inr (by omega)
    · omega
    · exact hbody.loops hin hle

end WellJumped

/-! ## Trees in a program -/

theorem jumpsIn_of_holds {start stop index target : Nat} {fragment : List Instruction}
    (h : program.Holds start fragment) (hstop : stop = start + fragment.length)
    (hin : program.JumpsIn start stop index target) : .jumpIfZero target ∈ fragment := by
  obtain ⟨hstart, hlt, hjump⟩ := hin
  exact h.mem hstart (hstop ▸ hlt) hjump

theorem wellJumped_of_holds {start stop : Nat} {fragment : List Instruction}
    (h : program.Holds start fragment) (hstop : stop = start + fragment.length)
    (hplain : ∀ target, .jumpIfZero target ∉ fragment) : program.WellJumped start stop := by
  apply WellJumped.plain
  intro index target hin
  exact hplain target (jumpsIn_of_holds h hstop hin)

end Program

open Program (WellJumped jumpsIn_of_holds wellJumped_of_holds)

/-- The test of a branch or a loop, the jump behind it and what follows. -/
theorem Program.Holds.guarded {program : Program ν} {start target : Nat} {test : Expr}
    {rest : List Instruction} (h : program.Holds start (test.code ++ .jumpIfZero target :: rest)) :
    (∀ index target, ¬ program.JumpsIn start (start + test.size) index target) ∧
      program.Jumps (start + test.size) target ∧
      program.Holds (start + test.size + 1) rest := by
  have hrest := h.right
  rw [Expr.length_code] at hrest
  refine ⟨?_, hrest.head, hrest.tail⟩
  intro index target hin
  apply Expr.jumpIfZero_notMem_code target test
  exact jumpsIn_of_holds h.left (by rw [Expr.length_code]) hin

mutual

theorem Stmt.wellJumped {program : Program ν} {start : Nat} (statement : Stmt)
    (h : program.Holds start (statement.code start)) :
    program.WellJumped start (start + statement.size) := by
  have hlength := statement.length_code start
  match statement with
  | .skip | .declare _ _ | .ret =>
      apply wellJumped_of_holds h (by rw [hlength])
      simp [Stmt.code]
  | .assign target value =>
      apply wellJumped_of_holds h (by rw [hlength])
      cases target <;> simp [Stmt.code, Expr.jumpIfZero_notMem_code, Place.store]
  | .evaluate term =>
      apply wellJumped_of_holds h (by rw [hlength])
      cases hcall : term.isCall <;> simp [Stmt.code, Expr.jumpIfZero_notMem_code, hcall]
  | .branch test body =>
      obtain ⟨htest, hjump, hrest⟩ := Program.Holds.guarded h
      have hbody := Block.wellJumped body hrest
      have hstop : start + (Stmt.branch test body).size =
          start + test.size + 1 + Block.size body := by
        simp only [Stmt.size]
        omega
      rw [hstop]
      exact .branch htest hjump hbody (by omega) (by omega)
  | .loop test body =>
      obtain ⟨htest, hjump, hrest⟩ := Program.Holds.guarded h
      have hbody := Block.wellJumped body hrest.left
      have hend := hrest.right
      rw [Block.length_code] at hend
      have hstop : start + (Stmt.loop test body).size =
          start + test.size + 1 + Block.size body + 1 + 1 := by
        simp only [Stmt.size]
        omega
      rw [hstop]
      exact .loop htest hjump hbody hend.head hend.tail.head (by omega) (by omega)

/-- Wherever the code of a block stands, its jumps are structured. -/
theorem Block.wellJumped {program : Program ν} {start : Nat} (block : Block)
    (h : program.Holds start (Block.code start block)) :
    program.WellJumped start (start + Block.size block) := by
  match block with
  | [] =>
      apply wellJumped_of_holds h (by rw [Block.length_code])
      simp [Block.code]
  | first :: rest =>
      have hfirst := first.wellJumped h.left
      have hheld := h.right
      rw [Stmt.length_code] at hheld
      have hrest := Block.wellJumped rest hheld
      rw [Block.size, ← Nat.add_assoc]
      exact hfirst.append hrest (by omega) (by omega)

end

/-! ## Code that is written in place -/

/-- When a block has been written in place, every jump that was left open has been filled in: the
jumps of the new code stay in it and are structured, and those before it are as they were. -/
theorem Emit.behind_wellJumped {items : List Item} {code : Array Instruction}
    {declared : Option (List Variable)} {emitter : Emitter}
    (h : Emit.behind items code (declared.map (IndexedTable.declareAll {})) = .ok () emitter)
    {program : Program ν} (hcode : program.code = emitter.code) :
    program.WellJumped code.size emitter.code.size ∧
      (emitter.code.size < Emit.pending → ∀ index target,
        program.JumpsIn code.size emitter.code.size index target → target ≠ Emit.pending) ∧
      ∀ index < code.size, program.code[index]? = code[index]? := by
  have hconsistent := IndexedTable.consistent_of_mem_declared declared
  -- the patches are those that the code of the tree has from the start
  obtain ⟨tree, hwritten⟩ : ∃ tree, emitter.code = code ++ (Block.code code.size tree).toArray := by
    cases hread : Parser.behind items code _ #[] with
    | error error state =>
        obtain ⟨_, hfailed, -⟩ := Emit.behind_of_error hconsistent hread
        cases h.symm.trans hfailed
    | ok tree state =>
        obtain ⟨_, hdone, hwritten, -⟩ := Emit.behind_of_ok hconsistent hread
        cases h.symm.trans hdone
        exact ⟨tree, hwritten⟩
  have hsize : emitter.code.size = code.size + Block.size tree := by
    simp only [hwritten, Array.size_append, List.size_toArray, Block.length_code]
  have hjumps : program.WellJumped code.size emitter.code.size := by
    rw [hsize]
    apply Block.wellJumped tree
    intro index instruction hindex
    rw [hcode, hwritten, Array.getElem?_append_right (Nat.le_add_right _ _),
      Nat.add_sub_cancel_left, List.getElem?_toArray, hindex]
  refine ⟨hjumps, fun hlimit index target => hjumps.ne_pending hlimit, fun index hindex => ?_⟩
  rw [hcode, hwritten, Array.getElem?_append_left hindex]

/-! ## Programs -/

namespace Program.Layout

variable {program : Program ν} {bodies : List Compiled} {main : Block} {compiled : Compiled}

/-- Before its last return, the body of a function is the code of its block. -/
theorem wellJumped_block (h : program.Layout bodies main) (hmem : compiled ∈ bodies) :
    program.WellJumped compiled.func.entry compiled.last :=
  Block.wellJumped compiled.body (h.holds_body hmem).left

theorem wellJumped_body (h : program.Layout bodies main) (hmem : compiled ∈ bodies) :
    program.WellJumped compiled.func.entry (compiled.last + 1) := by
  apply (h.wellJumped_block hmem).append
  · apply WellJumped.plain
    rintro index target ⟨hge, hlt, hjump⟩
    obtain rfl : index = compiled.last := by omega
    cases hjump.symm.trans (h.code_last hmem)
  · exact Nat.le_add_right _ _
  · exact Nat.le_succ _

theorem wellJumped_bodies (h : program.Layout bodies main) {start stop : Nat}
    {rest : List Compiled} (hrest : Laid start rest stop)
    (hmem : ∀ compiled ∈ rest, compiled ∈ bodies) :
    program.WellJumped start stop := by
  induction rest generalizing start with
  | nil =>
      obtain rfl : start = stop := hrest
      apply WellJumped.plain
      rintro index target ⟨hge, hlt, -⟩
      omega
  | cons first rest ih =>
      obtain ⟨rfl, hothers⟩ := hrest
      have hlength := hothers.length
      have hfirst := h.wellJumped_body (hmem first List.mem_cons_self)
      apply hfirst.append
      · exact ih hothers fun compiled hin => hmem compiled (List.mem_cons_of_mem _ hin)
      · simp only [Compiled.last]
        omega
      · omega

theorem wellJumped_main (h : program.Layout bodies main) :
    program.WellJumped program.entry program.code.size := by
  rw [h.size_code]
  exact Block.wellJumped main h.holds_main

theorem wellJumped (h : program.Layout bodies main) : program.WellJumped 0 program.code.size := by
  have hbodies := h.wellJumped_bodies h.laid fun _ hmem => hmem
  apply hbodies.append h.wellJumped_main (Nat.zero_le _)
  rw [h.size_code]
  exact Nat.le_add_right _ _

/-- A jump in the body of a function stays in that body. -/
theorem inBody_of_jumps (h : program.Layout bodies main) {func : Func}
    (hfunc : func ∈ program.functions) {index target : Nat} (hjump : program.Jumps index target)
    (hbody : program.InBody func index) : program.InBody func target := by
  obtain ⟨compiled, hmem, rfl⟩ := h.mem_functions.1 hfunc
  rw [h.inBody_iff hmem] at hbody ⊢
  -- the last instruction of the body is a return
  have hne : index ≠ compiled.last := by
    rintro rfl
    cases hjump.symm.trans (h.code_last hmem)
  exact (h.wellJumped_block hmem).stay ⟨hbody.1, by omega, hjump⟩

/-- A jump in the top-level code stays there. -/
theorem inMain_of_jumps (h : program.Layout bodies main) {index target : Nat}
    (hjump : program.Jumps index target) (hmain : program.InMain index) :
    program.InMain target := by
  obtain ⟨hlt, -⟩ := Array.getElem?_eq_some_iff.1 hjump
  exact h.wellJumped_main.stay ⟨hmain.1, hlt, hjump⟩

theorem exists_stop (h : program.Layout bodies main) {func : Func}
    (hfunc : func ∈ program.functions) :
    ∃ stop, program.code[stop - 1]? = some .ret ∧
      ∀ position, program.InBody func position ↔ func.entry ≤ position ∧ position < stop := by
  obtain ⟨compiled, hmem, rfl⟩ := h.mem_functions.1 hfunc
  refine ⟨compiled.last + 1, h.code_last hmem, fun position => ?_⟩
  rw [h.inBody_iff hmem, Nat.lt_succ_iff]

/-- Every position of the code is in the top-level code or in the body of a function. -/
theorem inMain_or_inBody (h : program.Layout bodies main) {position : Nat}
    (hposition : position < program.code.size) :
    program.InMain position ∨ ∃ func ∈ program.functions, program.InBody func position := by
  rcases Nat.lt_or_ge position program.entry with hlt | hge
  · obtain ⟨compiled, hmem, hbounds⟩ := h.laid.exists_body (Nat.zero_le _) hlt
    exact .inr ⟨compiled.func, h.mem_functions.2 ⟨compiled, hmem, rfl⟩,
      (h.inBody_iff hmem).2 hbounds⟩
  · exact .inl ⟨hge, Nat.le_of_lt hposition⟩

end Program.Layout

namespace Program

variable {program : Program ν}

/-- The way out of a loop is the only jump of the loop behind its end. -/
theorem IsLoop.exists_exit {start last : Nat} (h : program.IsLoop start last) :
    ∃ exit, (∀ index, program.JumpsIn start last index (last + 1) ↔ index = exit) ∧
      ∀ index target, program.JumpsIn start (last + 1) index target → index ≠ exit →
        exit < index ∧ start ≤ target ∧ target ≤ last := by
  obtain ⟨-, exit, hexit, hothers⟩ := h
  refine ⟨exit, fun index => ⟨fun hindex => ?_, ?_⟩, fun index target hindex hne => ?_⟩
  · obtain ⟨hge, hlt, hjump⟩ := hindex
    rcases hothers index _ ⟨hge, by omega, hjump⟩ with heq | hinside
    · exact heq
    · omega
  · rintro rfl
    exact hexit
  · exact (hothers index target hindex).resolve_left hne

/-- The jumps of a program that a builder made are filled in and structured. The body of a function
reaches from its entry up to the position behind its last return; no jump leaves it, and no jump
leaves the top-level code, of which the end is a part. A jump back ends a loop: it is always taken,
exactly one jump of the loop leads behind it, no jump comes before that one in the loop and all
others stay in the loop. The spans of jumps are apart or one inside the other. -/
theorem Built.jumps_structured (hbuilt : program.Built) :
    (∀ func ∈ program.functions, ∃ stop, program.code[stop - 1]? = some .ret ∧
      ∀ position, program.InBody func position ↔ func.entry ≤ position ∧ position < stop) ∧
    ∀ index target, program.Jumps index target →
      (program.code.size < Emit.pending → target ≠ Emit.pending) ∧
      (program.InMain index ∨ ∃ func ∈ program.functions, program.InBody func index) ∧
      (∀ func ∈ program.functions, program.InBody func index → program.InBody func target) ∧
      (program.InMain index → program.InMain target) ∧
      (target ≤ index → program.code[index - 1]? = some (.push (.int 0)) ∧
        ∃ exit, (∀ other, program.JumpsIn target index other (index + 1) ↔ other = exit) ∧
          ∀ other target', program.JumpsIn target (index + 1) other target' → other ≠ exit →
            exit < other ∧ target ≤ target' ∧ target' ≤ index) ∧
      ∀ index' target', program.Jumps index' target' →
        Disjoint (jumpSpan index target) (jumpSpan index' target') ∨
          jumpSpan index target ⊆ jumpSpan index' target' ∨
          jumpSpan index' target' ⊆ jumpSpan index target := by
  obtain ⟨bodies, main, h⟩ := hbuilt.exists_layout
  have hin : ∀ index target, program.Jumps index target →
      program.JumpsIn 0 program.code.size index target := by
    intro index target hjump
    exact ⟨Nat.zero_le _, (Array.getElem?_eq_some_iff.1 hjump).1, hjump⟩
  refine ⟨fun func => h.exists_stop, fun index target hjump => ⟨?_, ?_, ?_, ?_, ?_, ?_⟩⟩
  · intro hsize
    exact h.wellJumped.ne_pending hsize (hin _ _ hjump)
  · exact h.inMain_or_inBody (hin _ _ hjump).2.1
  · intro func hfunc
    exact h.inBody_of_jumps hfunc hjump
  · exact h.inMain_of_jumps hjump
  · intro hback
    have hloop := h.wellJumped.loops (hin _ _ hjump) hback
    exact ⟨hloop.always, hloop.exists_exit⟩
  · intro index' target' hjump'
    exact h.wellJumped.nest _ _ _ _ (hin _ _ hjump) (hin _ _ hjump')

theorem Built.jumps_structured_in_loop :
    ∃ (program : Program Native) (func : Func), program.Built ∧ func ∈ program.functions ∧
      program.Jumps 1 3 ∧ program.InBody func 1 ∧ program.InBody func 3 ∧
      program.Jumps 10 4 ∧ program.InMain 10 ∧ program.InMain 4 ∧
      program.code[9]? = some (.push (.int 0)) ∧
      ∃ exit, (∀ index, program.JumpsIn 4 10 index 11 ↔ index = exit) ∧ exit = 5 := by
  let func : Func := ⟨"f", [.int], none, 0, ⟨[⟨"n", .int⟩]⟩⟩
  let program : Program Native :=
    { code := #[.loadLocal 0 .int, .jumpIfZero 3, .ret, .ret,
        .loadGlobal "x", .jumpIfZero 11, .loadGlobal "f", .push (.int 1), .invoke 1,
        .push (.int 0), .jumpIfZero 4]
      globals := ⟨[⟨"x", .int⟩, ⟨"f", .function⟩]⟩
      memory := #[.int 0, .function func]
      entry := 4 }
  have hcompile : Script.compile []
      "var x int func f(n int) \x7b if n \x7b return \x7d \x7d while x \x7b f(1) \x7d" #[] =
      .ok program #[.jumpSettled 1 3, .functionCompiled "f" 0 4 1, .jumpSettled 5 11,
        .mainCompiled 4 11] := by cbv
  have hbuilt : program.Built := .compile hcompile
  have hfunc : func ∈ program.functions := by simp [program, Program.functions, Value.function?]
  have hentered : program.InBody func 1 := by
    refine ⟨by decide, by decide, ?_⟩
    simp [program, func, Program.functions, Value.function?]
  obtain ⟨-, hjumps⟩ := hbuilt.jumps_structured
  obtain ⟨-, -, hstays, -⟩ := hjumps 1 3 rfl
  obtain ⟨-, -, -, hmain, hloop, -⟩ := hjumps 10 4 rfl
  obtain ⟨halways, exit, hexit, -⟩ := hloop (by decide)
  have hten : program.InMain 10 := ⟨by decide, by decide⟩
  refine ⟨program, func, hbuilt, hfunc, rfl, hentered, hstays func hfunc hentered, rfl, hten,
    hmain hten, halways, exit, hexit, ?_⟩
  exact ((hexit 5).1 ⟨by decide, by decide, rfl⟩).symm

end Program

end StackScript
