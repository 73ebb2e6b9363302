import Mathlib.Order.Basic
import StackScript.Proofs.OutputIndependence
import StackScript.Proofs.Simulation

/-!
# Sinks with a capacity

A run that writes to a sink with a capacity is the run without one, up to the step that writes past
the capacity. That step calls a builtin, and here the call fails: what it wrote is cut off at the
capacity, and the machine stops.
-/

namespace StackScript

/-- One sink holds what the other does and then some, with the same capacity. -/
structure Sink.Grows (before after : Sink) : Prop where
  capacity : after.capacity = before.capacity
  bytes : ∃ data, after.bytes = before.bytes ++ data

namespace Sink.Grows

variable {before middle after : Sink}

theorem refl (sink : Sink) : sink.Grows sink :=
  ⟨rfl, .empty, ByteArray.append_empty.symm⟩

theorem trans (h : before.Grows middle) (h' : middle.Grows after) : before.Grows after := by
  obtain ⟨data, hdata⟩ := h.bytes
  obtain ⟨data', hdata'⟩ := h'.bytes
  exact ⟨h'.capacity.trans h.capacity, data ++ data', by
    rw [hdata', hdata, ByteArray.append_assoc]⟩

theorem size_le (h : before.Grows after) : before.bytes.size ≤ after.bytes.size := by
  obtain ⟨data, hdata⟩ := h.bytes
  rw [hdata, ByteArray.size_append]
  exact Nat.le_add_right _ _

/-- What was written first stays in front. -/
theorem extract_eq (h : before.Grows after) {count : Nat} (hcount : count ≤ before.bytes.size) :
    after.bytes.extract 0 count = before.bytes.extract 0 count := by
  obtain ⟨data, hdata⟩ := h.bytes
  rw [hdata, ByteArray.extract_append, Nat.sub_eq_zero_of_le hcount, Nat.zero_sub,
    ByteArray.extract_same, ByteArray.append_empty]

end Sink.Grows

/-- The machine with the same output so far and a capacity. -/
def Machine.limited {ν : Type} (limit : Nat) (machine : Machine ν) : Machine ν :=
  machine.withOutput ⟨machine.output.bytes, some limit⟩

/-- The progress with the same output so far and a capacity. -/
def Progress.limited {ν : Type} (limit : Nat) : Progress ν → Progress ν
  | .running machine => .running (machine.limited limit)
  | .stopped outcome machine => .stopped outcome (machine.limited limit)

namespace Machine

variable {program : Program Native} {machine : Machine Native} {limit steps : Nat}

/-! ## One step -/

theorem withOutput_self (machine : Machine Native) (h : machine.output.capacity = none) :
    machine.withOutput ⟨machine.output.bytes, none⟩ = machine := by
  rw [← h]
  rfl

theorem withOutput_machine (progress : Progress Native) (output : Sink) :
    (progress.withOutput output).machine.output = output := by
  cases progress <;> rfl

/-- What a step of a machine without a capacity writes, and where it leads. -/
theorem exists_step_eq (program : Program Native) (h : machine.output.capacity = none) :
    ∃ data after, machine.StepWrites program data after ∧
      machine.step program = after.withOutput ⟨machine.output.bytes ++ data, none⟩ := by
  obtain ⟨data, after, hwrites⟩ := exists_stepWrites program machine
  refine ⟨data, after, hwrites, ?_⟩
  rw [← hwrites.unlimited, withOutput_self machine h]

theorem step_grows (program : Program Native) (h : machine.output.capacity = none) :
    machine.output.Grows (machine.step program).machine.output := by
  obtain ⟨data, after, -, hstep⟩ := exists_step_eq program h
  rw [hstep, withOutput_machine]
  exact ⟨h.symm, data, rfl⟩

/-- A step whose output fits is the same with a capacity. -/
theorem step_limited (h : machine.output.capacity = none)
    (hfits : (machine.step program).machine.output.bytes.size ≤ limit) :
    (machine.limited limit).step program = (machine.step program).limited limit := by
  obtain ⟨data, after, hwrites, hstep⟩ := exists_step_eq program h
  rw [hstep, withOutput_machine] at hfits
  have hput : Native.put data ⟨machine.output.bytes, some limit⟩ =
      .ok () ⟨machine.output.bytes ++ data, some limit⟩ := by
    simp only [Native.put, EStateM.adaptExcept, Sink.put_fits hfits]
  rw [limited, hwrites.fits hput, hstep]
  cases after <;> rfl

/-- A step whose output does not fit calls a builtin. With a capacity the call fails. -/
theorem step_crosses (h : machine.output.capacity = none)
    (hbefore : machine.output.bytes.size ≤ limit)
    (hafter : limit < (machine.step program).machine.output.bytes.size) :
    ∃ arguments builtin, machine.CallsBuiltin program arguments builtin ∧
      (machine.limited limit).step program =
        .stopped (.failed ⟨machine.pc, .native builtin.name (.output .full)⟩)
          { machine with
            stack := machine.stack.take (machine.stack.size - (arguments + 1))
            output := ⟨(machine.step program).machine.output.bytes.extract 0 limit,
              some limit⟩ } := by
  obtain ⟨data, after, hwrites, hstep⟩ := exists_step_eq program h
  rw [hstep, withOutput_machine] at hafter ⊢
  apply hwrites.fails
  simp only [Native.put, EStateM.adaptExcept, Sink.put_crosses hbefore hafter]

/-! ## Runs -/

theorem run_grows (program : Program Native) (steps : Nat) (h : machine.output.capacity = none) :
    machine.output.Grows (machine.run program steps).machine.output := by
  induction steps generalizing machine with
  | zero => exact .refl machine.output
  | succ steps ih =>
      have hstep := step_grows program h
      rw [run]
      cases hnext : machine.step program with
      | running next =>
          rw [hnext] at hstep
          exact hstep.trans (ih (hstep.capacity.trans h))
      | stopped outcome next =>
          rw [hnext] at hstep
          exact hstep

/-- The output grows from step to step. -/
theorem run_grows_of_le (h : machine.output.capacity = none) {steps' : Nat} (hle : steps ≤ steps') :
    (machine.run program steps).machine.output.Grows
      (machine.run program steps').machine.output := by
  obtain ⟨more, rfl⟩ := Nat.exists_eq_add_of_le hle
  have hgrows := run_grows program steps h
  rw [run_add]
  cases hrun : machine.run program steps with
  | running middle =>
      rw [hrun] at hgrows
      exact run_grows program more (hgrows.capacity.trans h)
  | stopped outcome middle => exact .refl middle.output

/-- As long as the output fits, a run is the same with a capacity. -/
theorem run_limited (h : machine.output.capacity = none)
    (hfits : (machine.run program steps).machine.output.bytes.size ≤ limit) :
    (machine.limited limit).run program steps = (machine.run program steps).limited limit := by
  induction steps generalizing machine with
  | zero => rfl
  | succ steps ih =>
      have hstep := step_grows program h
      rw [run] at hfits
      cases hnext : machine.step program with
      | running next =>
          rw [hnext] at hfits hstep
          have hcapacity : next.output.capacity = none := hstep.capacity.trans h
          have hsize := (run_grows program steps hcapacity).size_le
          have hsame : (machine.limited limit).step program =
              (machine.step program).limited limit := by
            apply step_limited h
            rw [hnext]
            exact hsize.trans hfits
          rw [run, run, hsame, hnext]
          exact ih hcapacity hfits
      | stopped outcome next =>
          rw [hnext] at hfits
          have hsame : (machine.limited limit).step program =
              (machine.step program).limited limit := by
            apply step_limited h
            rw [hnext]
            exact hfits
          rw [run, run, hsame, hnext]
          rfl

/-- A run that writes past a limit has a step that does. -/
theorem exists_crossing (h : machine.output.capacity = none)
    (hbefore : machine.output.bytes.size ≤ limit)
    (hafter : limit < (machine.run program steps).machine.output.bytes.size) :
    ∃ before middle, before < steps ∧ machine.run program before = .running middle ∧
      middle.output.bytes.size ≤ limit ∧
      limit < (middle.step program).machine.output.bytes.size := by
  induction steps generalizing machine with
  | zero => exact absurd hafter (Nat.not_lt.2 hbefore)
  | succ steps ih =>
      by_cases hcross : limit < (machine.step program).machine.output.bytes.size
      · exact ⟨0, machine, Nat.succ_pos steps, rfl, hbefore, hcross⟩
      · have hstep := step_grows program h
        rw [run] at hafter
        cases hnext : machine.step program with
        | running next =>
            rw [hnext] at hafter hcross hstep
            obtain ⟨before, middle, hlt, hrun, hmiddle⟩ :=
              ih (hstep.capacity.trans h) (Nat.not_lt.1 hcross) hafter
            refine ⟨before + 1, middle, Nat.succ_lt_succ hlt, ?_, hmiddle⟩
            rw [run, hnext]
            exact hrun
        | stopped outcome next =>
            rw [hnext] at hafter hcross
            exact absurd hafter hcross

theorem run_succ_of_running {before : Nat} {middle : Machine Native}
    (h : machine.run program before = .running middle) :
    machine.run program (before + 1) = middle.step program := by
  rw [run_add, h]
  dsimp only
  rw [run]
  cases middle.step program <;> rfl

/-- A sink with a capacity only cuts a run short. As long as the run without a capacity has written
no more than the limit, the run with it is in the same state after the same number of steps. If the
run without a capacity writes more, there is one step that does: it calls a builtin. The run with
the capacity fails in that call, with the callee and the arguments gone from the stack, and has
written the first bytes of the other run's output, as many as the limit says. -/
theorem limited_run_truncates (program : Program Native) (limit steps : Nat) :
    let whole := fun count => (start program {}).run program count
    let cut := fun count => (start program { capacity := some limit }).run program count
    ((whole steps).machine.output.bytes.size ≤ limit →
      cut steps = (whole steps).limited limit) ∧
    (limit < (whole steps).machine.output.bytes.size →
      ∃ before machine arguments builtin, before < steps ∧
        whole before = .running machine ∧
        machine.output.bytes.size ≤ limit ∧
        limit < (whole (before + 1)).machine.output.bytes.size ∧
        machine.CallsBuiltin program arguments builtin ∧
        cut before = .running (machine.limited limit) ∧
        ∀ later, before < later →
          cut later = .stopped (.failed ⟨machine.pc, .native builtin.name (.output .full)⟩)
            { machine with
              stack := machine.stack.take (machine.stack.size - (arguments + 1))
              output := ⟨(whole steps).machine.output.bytes.extract 0 limit, some limit⟩ }) := by
  intro whole cut
  have hstart : (start program {}).output.capacity = none := rfl
  refine ⟨fun hfits => run_limited hstart hfits, fun hafter => ?_⟩
  obtain ⟨before, machine, hlt, hrun, hmiddle, hcross⟩ :=
    exists_crossing hstart (Nat.zero_le limit) hafter
  have hcapacity : machine.output.capacity = none := by
    have hgrows := run_grows program before hstart
    rw [hrun] at hgrows
    exact hgrows.capacity
  have hnext : whole (before + 1) = machine.step program := run_succ_of_running hrun
  have hbefore : cut before = .running (machine.limited limit) := by
    have hfits : (whole before).machine.output.bytes.size ≤ limit := by
      simp only [whole, hrun]
      exact hmiddle
    have hsame : cut before = (whole before).limited limit := run_limited hstart hfits
    simp only [whole, hrun] at hsame
    exact hsame
  obtain ⟨arguments, builtin, hcalls, hfails⟩ := step_crosses hcapacity hmiddle hcross
  -- what is written later stands behind the first bytes
  have hbytes : (whole steps).machine.output.bytes.extract 0 limit =
      (machine.step program).machine.output.bytes.extract 0 limit := by
    rw [← hnext] at hcross ⊢
    exact (run_grows_of_le hstart hlt).extract_eq (Nat.le_of_lt hcross)
  refine ⟨before, machine, arguments, builtin, hlt, hrun, hmiddle, hnext ▸ hcross, hcalls, hbefore,
    fun later hlater => ?_⟩
  rw [hbytes]
  exact run_of_le ((run_succ_of_running hbefore).trans hfails) hlater

/-- Prints two texts on a line each. -/
def twoLines : Program Native where
  code := #[.loadGlobal "print_all", .push (.str "ab"), .push (.str "cd"), .invoke 2]
  globals := ⟨[⟨"print_all", .builtin⟩]⟩
  memory := #[.builtin Native.printAll.builtin]

theorem limited_run_truncates_second_line :
    let whole := (start twoLines {}).run twoLines 4
    4 < whole.machine.output.bytes.size ∧
      ∃ index name after,
        (start twoLines { capacity := some 4 }).run twoLines 4 =
          .stopped (.failed ⟨index, .native name (.output .full)⟩) after ∧
        after.output.bytes = whole.machine.output.bytes.extract 0 4 := by
  intro whole
  have hsize : 4 < whole.machine.output.bytes.size := by decide
  obtain ⟨before, machine, arguments, builtin, hlt, -, -, -, -, -, hcut⟩ :=
    (limited_run_truncates twoLines 4 4).2 hsize
  exact ⟨hsize, _, _, _, hcut 4 hlt, rfl⟩

end Machine

end StackScript
