import Mathlib.Data.List.TakeDrop
import StackScript.Native
import StackScript.Proofs.Limits
import StackScript.Proofs.LocalTypes

/-!
# The protocol of a call

A call is checked before anything is changed. The checks have an order, and `Refused` says which one
fails first; a machine that refuses a call is as it was, so it refuses the call whenever it is run
again. `Called` says what a call does that is not refused. Only a call that runs out of stack while
its locals are set up fails after that.
-/

namespace StackScript

variable {ν : Type}

namespace Machine

/-- The stack ends with a callee and `count` arguments, and other values are below. -/
structure Presents (machine : Machine ν) (count : Nat) (below : List (Value ν)) (callee : Value ν)
    (arguments : List (Value ν)) : Prop where
  stack : machine.stack.toList = below ++ callee :: arguments
  count : arguments.length = count

/-- The values that the locals after the parameters start with. -/
def Defaults (func : Func) (values : List (Value ν)) : Prop :=
  ∀ index : Nat, values[index]? =
    func.locals.entries[func.arity + index]?.map fun extra => .initial extra.type

/-- Why a call is refused. Each reason says that none of those before it holds. -/
inductive Refused (machine : Machine ν) (count : Nat) : Fault → Prop
  | underflow (few : machine.stack.size < count + 1) : Refused machine count .stackUnderflow
  | notInvocable {below arguments : List (Value ν)} {callee : Value ν}
      (presents : machine.Presents count below callee arguments)
      (builtin : callee.tag ≠ .builtin) (function : callee.tag ≠ .function) :
      Refused machine count (.notInvocable callee.tag)
  | arity {below arguments : List (Value ν)} {func : Func}
      (presents : machine.Presents count below (.function func) arguments)
      (differs : count ≠ func.arity) :
      Refused machine count (.arityMismatch func.name func.arity count)
  | argument {below arguments : List (Value ν)} {func : Func} {index : Nat} {expected : TypeTag}
      {argument : Value ν} (presents : machine.Presents count below (.function func) arguments)
      (arity : count = func.arity) (declared : func.params[index]? = some expected)
      (given : arguments[index]? = some argument) (mismatch : argument.tag ≠ expected)
      (least : ∀ earlier < index, arguments[earlier]?.map Value.tag = func.params[earlier]?) :
      Refused machine count (.argumentTypeMismatch func.name index expected argument.tag)
  | tooDeep {below arguments : List (Value ν)} {func : Func}
      (presents : machine.Presents count below (.function func) arguments)
      (accepted : arguments.map Value.tag = func.params)
      (deep : machine.frames.length = callLimit) :
      Refused machine count .callDepthExceeded

/-- What a call does that is not refused. -/
inductive Called [Host ν] (machine : Machine ν) (count : Nat) : Progress ν → Prop
  | entered {below arguments defaults : List (Value ν)} {func : Func}
      (presents : machine.Presents count below (.function func) arguments)
      (accepted : arguments.map Value.tag = func.params)
      (depth : machine.frames.length < callLimit) (locals : Defaults func defaults)
      (room : below.length + count + defaults.length ≤ stackLimit) :
      Called machine count (.running { machine with
        pc := func.entry
        stack := (below ++ arguments ++ defaults).toArray
        frames := ⟨machine.pc + 1, below.length⟩ :: machine.frames })
  | overflow {below arguments defaults : List (Value ν)} {func : Func}
      (presents : machine.Presents count below (.function func) arguments)
      (accepted : arguments.map Value.tag = func.params)
      (depth : machine.frames.length < callLimit) (locals : Defaults func defaults)
      (full : stackLimit < below.length + count + defaults.length) :
      Called machine count (.stopped (.failed ⟨machine.pc, .stackOverflow⟩) { machine with
        stack := ((below ++ arguments ++ defaults).take stackLimit).toArray })
  | proceeded {below arguments : List (Value ν)} {builtin : Builtin ν} {output : Sink}
      (presents : machine.Presents count below (.builtin builtin) arguments)
      (call : Host.call builtin.native arguments machine.output = .ok .proceed output) :
      Called machine count (.running { machine with
        pc := machine.pc + 1
        stack := below.toArray
        output })
  | halted {below arguments : List (Value ν)} {builtin : Builtin ν} {output : Sink}
      (presents : machine.Presents count below (.builtin builtin) arguments)
      (call : Host.call builtin.native arguments machine.output = .ok .halt output) :
      Called machine count (.stopped (.halted builtin.name) { machine with
        stack := below.toArray
        output })
  | failed {below arguments : List (Value ν)} {builtin : Builtin ν} {error : NativeError}
      {output : Sink} (presents : machine.Presents count below (.builtin builtin) arguments)
      (call : Host.call builtin.native arguments machine.output = .error error output) :
      Called machine count
        (.stopped (.failed ⟨machine.pc, .native builtin.name error⟩) { machine with
          stack := below.toArray
          output })

/-! ## What stands on the stack -/

section Presents

variable {machine : Machine ν} {count : Nat} {below arguments : List (Value ν)} {callee : Value ν}

theorem exists_presents (h : count < machine.stack.size) :
    ∃ below callee arguments, machine.Presents count below callee arguments := by
  let place := machine.stack.toList.length - (count + 1)
  have hplace : place < machine.stack.toList.length := by
    rw [← Array.length_toList] at h
    omega
  refine ⟨machine.stack.toList.take place, machine.stack.toList[place],
    machine.stack.toList.drop (place + 1), ?_, ?_⟩
  · rw [List.cons_getElem_drop_succ, List.take_append_drop]
  · rw [List.length_drop]
    rw [← Array.length_toList] at h
    omega

namespace Presents

variable (h : machine.Presents count below callee arguments)
include h

theorem size : machine.stack.size = below.length + (count + 1) := by
  rw [← Array.length_toList, h.stack, List.length_append, List.length_cons, h.count]

theorem place : machine.stack.size - (count + 1) = below.length := by
  rw [h.size, Nat.add_sub_cancel]

theorem callee? : machine.callee? count = some callee := by
  unfold Machine.callee?
  rw [if_pos (by have := h.size; omega), h.place, ← Array.getElem?_toList, h.stack]
  simp

theorem above : machine.above below.length = arguments := by
  unfold Machine.above
  rw [h.stack]
  simp

theorem take : machine.stack.take below.length = below.toArray := by
  rw [← Array.toList_inj, Array.take_eq_extract, Array.toList_extract, h.stack]
  simp

end Presents

end Presents

/-! ## Arguments and locals -/

/-- The mismatch that is found is the first one. -/
theorem firstMismatch?_eq_some {start found : Nat} {types : List TypeTag}
    {values : List (Value ν)} {expected tag : TypeTag} :
    firstMismatch? start types values = some (found, expected, tag) ↔
      ∃ index value, found = start + index ∧ types[index]? = some expected ∧
        values[index]? = some value ∧ value.tag = tag ∧ tag ≠ expected ∧
        ∀ earlier < index, values[earlier]?.map Value.tag = types[earlier]? := by
  induction types generalizing start values with
  | nil => simp [firstMismatch?]
  | cons type types ih =>
      cases values with
      | nil => simp [firstMismatch?]
      | cons value values =>
          rw [firstMismatch?]
          split
          next hsame =>
            rw [ih]
            constructor
            · rintro ⟨index, other, rfl, htype, hvalue, htag, hmismatch, hleast⟩
              refine ⟨index + 1, other, by omega, htype, hvalue, htag, hmismatch, ?_⟩
              rintro (_ | earlier) hearlier
              · simp [hsame]
              · exact hleast earlier (by omega)
            · rintro ⟨_ | index, other, rfl, htype, hvalue, htag, hmismatch, hleast⟩
              · simp_all
              · refine ⟨index, other, by omega, htype, hvalue, htag, hmismatch, ?_⟩
                exact fun earlier hearlier => hleast (earlier + 1) (by omega)
          next hdiffers =>
            constructor
            · intro h
              cases h
              exact ⟨0, value, rfl, rfl, rfl, rfl, hdiffers, by simp⟩
            · rintro ⟨_ | index, other, rfl, htype, hvalue, rfl, -, hleast⟩
              · simp_all
              · have hfirst := hleast 0 (Nat.succ_pos index)
                simp_all

theorem firstMismatch?_of_tags (start : Nat) (values : List (Value ν)) :
    firstMismatch? start (values.map Value.tag) values = none := by
  induction values generalizing start with
  | nil => rfl
  | cons value values ih =>
      rw [List.map_cons, firstMismatch?, if_pos rfl]
      exact ih (start + 1)

theorem checkArguments_of_tags {func : Func} {arguments : List (Value ν)}
    (h : arguments.map Value.tag = func.params) : checkArguments func arguments = .ok () := by
  have hlength : arguments.length = func.arity := by
    rw [Func.arity, ← h, List.length_map]
  rw [checkArguments, if_pos hlength, ← h, firstMismatch?_of_tags]

theorem defaults_extraLocals (func : Func) :
    Defaults func (func.extraLocals : List (Value ν)) := by
  intro index
  rw [Func.extraLocals, List.getElem?_map, List.getElem?_drop]

theorem Defaults.eq_extraLocals {func : Func} {values : List (Value ν)}
    (h : Defaults func values) : values = func.extraLocals :=
  List.ext_getElem? fun index => (h index).trans (defaults_extraLocals func index).symm

theorem pushAll_of_room {machine : Machine ν} {values : List (Value ν)}
    (h : machine.stack.size + values.length ≤ stackLimit) :
    pushAll values machine =
      .ok () { machine with stack := machine.stack ++ values.toArray } := by
  induction values generalizing machine with
  | nil => simp [pushAll, pure, EStateM.pure]
  | cons first rest ih =>
      have hpush : push first machine =
          .ok () { machine with stack := machine.stack.push first } := by
        rw [push, if_pos (by simp at h; omega)]
      rw [pushAll, bind_of_ok hpush, ih (by simpa [Nat.add_assoc, Nat.add_comm 1] using h)]
      simp

/-- The values that there is room for are on the stack when pushing fails. -/
theorem pushAll_of_full {machine : Machine ν} {values : List (Value ν)}
    (hfits : machine.stack.size ≤ stackLimit)
    (h : stackLimit < machine.stack.size + values.length) :
    pushAll values machine = .error .stackOverflow
      { machine with
        stack := machine.stack ++ (values.take (stackLimit - machine.stack.size)).toArray } := by
  induction values generalizing machine with
  | nil =>
      simp at h
      omega
  | cons first rest ih =>
      by_cases hroom : machine.stack.size < stackLimit
      · have hpush : push first machine =
            .ok () { machine with stack := machine.stack.push first } := by
          rw [push, if_pos hroom]
        have hsize : stackLimit - machine.stack.size =
            stackLimit - (machine.stack.size + 1) + 1 := by omega
        have hnext : (machine.stack.push first).size ≤ stackLimit := by
          rw [Array.size_push]
          exact hroom
        rw [List.length_cons] at h
        rw [pushAll, bind_of_ok hpush, ih hnext (by simp; omega), hsize]
        simp
      · have hpush : push first machine = .error .stackOverflow machine := by
          rw [push, if_neg hroom]
        have hsize : stackLimit - machine.stack.size = 0 := by omega
        rw [pushAll, hsize]
        exact bind_eq_error.2 (.inl (by simpa using hpush))

/-! ## Callees -/

section Callee

variable {machine : Machine ν} {count : Nat} {below arguments : List (Value ν)} {func : Func}

theorem callFunction_of_rejected {fault : Fault}
    (h : machine.Presents count below (.function func) arguments)
    (hrejected : checkArguments func arguments = .error fault) :
    callFunction func below.length machine = .error fault machine := by
  simp only [callFunction, get_bind, h.above, hrejected]
  rfl

/-- When all checks are passed, the arguments move down before the other locals are pushed. -/
theorem callFunction_of_accepted (h : machine.Presents count below (.function func) arguments)
    (haccepted : arguments.map Value.tag = func.params)
    (hdepth : machine.frames.length < callLimit) :
    callFunction func below.length machine = (do
      pushAll func.extraLocals
      modify fun machine =>
        { machine with frames := ⟨machine.pc + 1, below.length⟩ :: machine.frames }
      return .jump func.entry : Action ν Signal)
        { machine with stack := (below ++ arguments).toArray } := by
  simp only [callFunction, get_bind, h.above, h.take, checkArguments_of_tags haccepted]
  rw [if_neg (Nat.not_le.2 hdepth), List.append_toArray]
  rfl

variable [Host ν]

theorem invoke_function (h : machine.Presents count below (.function func) arguments) :
    invoke count machine = callFunction func below.length machine := by
  rw [invoke, get_bind, h.callee?, h.place]

theorem invoke_builtin {builtin : Builtin ν}
    (h : machine.Presents count below (.builtin builtin) arguments) :
    invoke count machine = callBuiltin builtin below.length machine := by
  rw [invoke, get_bind, h.callee?, h.place]

end Callee

/-! ## Refused calls -/

section Refused

variable [Host ν] {program : Program ν} {machine : Machine ν} {count : Nat}

/-- A call that is refused changes nothing. -/
theorem Refused.invoke {fault : Fault} (h : machine.Refused count fault) :
    invoke count machine = .error fault machine := by
  cases h with
  | underflow few =>
      have hmissing : machine.callee? count = none := if_neg (by omega)
      rw [Machine.invoke, get_bind, hmissing]
      rfl
  | @notInvocable below arguments callee presents builtin function =>
      rw [Machine.invoke, get_bind, presents.callee?]
      cases callee with
      | int | str => rfl
      | builtin => exact absurd rfl builtin
      | function => exact absurd rfl function
  | arity presents differs =>
      rw [invoke_function presents]
      apply callFunction_of_rejected presents
      rw [checkArguments, presents.count, if_neg differs]
  | @argument below arguments func index expected argument presents arity declared given mismatch
      least =>
      have hfirst : firstMismatch? 0 func.params arguments =
          some (index, expected, argument.tag) :=
        firstMismatch?_eq_some.2
          ⟨index, argument, (Nat.zero_add index).symm, declared, given, rfl, mismatch, least⟩
      rw [invoke_function presents]
      apply callFunction_of_rejected presents
      rw [checkArguments, presents.count, if_pos arity, hfirst]
  | @tooDeep below arguments func presents accepted deep =>
      rw [invoke_function presents]
      simp only [callFunction, get_bind, presents.above, checkArguments_of_tags accepted]
      rw [if_pos (Nat.le_of_eq deep.symm)]
      rfl

/-- Runs the machine again and again, each time from where the last run left it and for at least
one step. -/
def executions (program : Program ν) : (fuels : List Nat) → Machine ν → List (Progress ν)
  | [], _ => []
  | fuel :: fuels, machine =>
      let progress := machine.run program (fuel + 1)
      progress :: executions program fuels progress.machine

/-- Whenever the machine is run it fails with the fault and is as it was. -/
def FailsForever (program : Program ν) (machine : Machine ν) (fault : Fault) : Prop :=
  ∀ fuels, ∀ progress ∈ machine.executions program fuels,
    progress = .stopped (.failed ⟨machine.pc, fault⟩) machine

theorem failsForever_of_step {fault : Fault}
    (h : machine.step program = .stopped (.failed ⟨machine.pc, fault⟩) machine) :
    FailsForever program machine fault := by
  have hrun (fuel : Nat) : machine.run program (fuel + 1) =
      .stopped (.failed ⟨machine.pc, fault⟩) machine := by
    rw [run, h]
  intro fuels
  induction fuels with
  | nil => simp [executions]
  | cons fuel fuels ih =>
      intro progress hmem
      rw [executions, hrun] at hmem
      rcases List.mem_cons.1 hmem with rfl | hmem
      · rfl
      · exact ih progress hmem

end Refused

/-! ## Calls that are not refused -/

section Called

variable [Host ν] {program : Program ν} {machine : Machine ν} {count : Nat}

theorem Called.advance {progress : Progress ν} (h : machine.Called count progress)
    (hfits : machine.stack.size ≤ stackLimit) :
    machine.advance program (.invoke count) = progress := by
  cases h with
  | @entered below arguments defaults func presents accepted depth locals room =>
      have hroom : (below ++ arguments).toArray.size + defaults.length ≤ stackLimit := by
        simpa [presents.count] using room
      have hinvoke : invoke count machine = .ok (.jump func.entry) { machine with
          stack := (below ++ arguments ++ defaults).toArray
          frames := ⟨machine.pc + 1, below.length⟩ :: machine.frames } := by
        rw [invoke_function presents, callFunction_of_accepted presents accepted depth,
          ← locals.eq_extraLocals, bind_of_ok (pushAll_of_room hroom), List.append_toArray]
        rfl
      simp only [Machine.advance, perform, hinvoke]
  | @overflow below arguments defaults func presents accepted depth locals full =>
      have hsize : (below ++ arguments).toArray.size = below.length + count := by
        simp [presents.count]
      have hmoved : below.length + count ≤ stackLimit := by
        have := presents.size
        omega
      have hcut : (below ++ arguments ++ defaults).take stackLimit =
          below ++ arguments ++ defaults.take (stackLimit - (below ++ arguments).toArray.size) := by
        rw [List.take_append, List.take_of_length_le (hsize.trans_le hmoved), List.size_toArray]
      have hinvoke : invoke count machine = .error .stackOverflow { machine with
          stack := ((below ++ arguments ++ defaults).take stackLimit).toArray } := by
        rw [invoke_function presents, callFunction_of_accepted presents accepted depth,
          ← locals.eq_extraLocals]
        refine bind_eq_error.2 (.inl ?_)
        rw [pushAll_of_full (by dsimp only; omega) (by dsimp only; omega), hcut,
          List.append_toArray]
      simp only [Machine.advance, perform, hinvoke]
  | proceeded presents call | halted presents call | failed presents call =>
      simp only [Machine.advance, perform, invoke_builtin presents, callBuiltin, presents.above,
        presents.take, call]

/-- Every call is refused or answered. -/
theorem refused_or_called (hfits : machine.frames.length ≤ callLimit) :
    (∃ fault, machine.Refused count fault) ∨ ∃ progress, machine.Called count progress := by
  by_cases hfew : machine.stack.size < count + 1
  · exact .inl ⟨_, .underflow hfew⟩
  obtain ⟨below, callee, arguments, presents⟩ := exists_presents (Nat.not_lt.1 hfew)
  cases callee with
  | int value => exact .inl ⟨_, .notInvocable presents (by simp [Value.tag]) (by simp [Value.tag])⟩
  | str text => exact .inl ⟨_, .notInvocable presents (by simp [Value.tag]) (by simp [Value.tag])⟩
  | builtin builtin =>
      right
      cases hcall : Host.call builtin.native arguments machine.output with
      | error error output => exact ⟨_, .failed presents hcall⟩
      | ok verdict output =>
          cases verdict with
          | proceed => exact ⟨_, .proceeded presents hcall⟩
          | halt => exact ⟨_, .halted presents hcall⟩
  | function func =>
      by_cases harity : count = func.arity
      swap
      · exact .inl ⟨_, .arity presents harity⟩
      cases hmismatch : firstMismatch? 0 func.params arguments with
      | some mismatch =>
          obtain ⟨found, expected, tag⟩ := mismatch
          obtain ⟨index, argument, -, hdeclared, hgiven, rfl, hdiffers, hleast⟩ :=
            firstMismatch?_eq_some.1 hmismatch
          exact .inl ⟨_, .argument presents harity hdeclared hgiven hdiffers hleast⟩
      | none =>
          have haccepted := tags_of_firstMismatch? hmismatch (presents.count.trans harity)
          have hlocals := defaults_extraLocals (ν := ν) func
          rcases Nat.lt_or_eq_of_le hfits with hdepth | hdeep
          · right
            by_cases hroom : below.length + count + (func.extraLocals : List (Value ν)).length ≤
                stackLimit
            · exact ⟨_, .entered presents haccepted hdepth hlocals hroom⟩
            · exact ⟨_, .overflow presents haccepted hdepth hlocals (Nat.not_le.1 hroom)⟩
          · exact .inl ⟨_, .tooDeep presents haccepted hdeep⟩

/-- What calling the value below `count` arguments comes to, in any state that runs of any program
lead to. If the call is refused the machine is as it was, so it fails in the same way however often
it is run again. If not, the call does what `Called` says. One of the two is always the case. -/
theorem invoke_protocol {output : Sink} {calls : List Func}
    (hreaches : Reaches program output machine calls)
    (hcode : program.code[machine.pc]? = some (.invoke count)) :
    (∀ fault, machine.Refused count fault → machine.FailsForever program fault) ∧
    (∀ progress, machine.Called count progress → machine.step program = progress) ∧
    ((∃ fault, machine.Refused count fault) ∨ ∃ progress, machine.Called count progress) := by
  have hstep : machine.step program = machine.advance program (.invoke count) := by
    rw [step, hcode]
  refine ⟨fun fault hrefused => ?_, fun progress hcalled => ?_, ?_⟩
  · apply failsForever_of_step
    rw [hstep, advance, perform, hrefused.invoke]
  · rw [hstep, hcalled.advance hreaches.fits.stack]
  · exact refused_or_called hreaches.fits.frames

end Called

/-- A function with a parameter and one more local, called with a value of the wrong type and with
one of the right type. -/
theorem invoke_protocol_two_calls :
    let func : Func := ⟨"f", [.int], none, 0, ⟨[⟨"n", .int⟩, ⟨"s", .string⟩]⟩⟩
    let program (argument : Literal) : Program Native :=
      { code := #[.loadGlobal "f", .push argument, .invoke 1]
        globals := ⟨[⟨"f", .function⟩]⟩
        memory := #[.function func] }
    let machine (argument : Literal) : Machine Native :=
      { pc := 2
        stack := #[.function func, .ofLiteral argument]
        memory := #[.function func] }
    (∀ argument, Reaches (program argument) {} (machine argument) []) ∧
    FailsForever (program (.str "a")) (machine (.str "a"))
      (.argumentTypeMismatch "f" 0 .int .string) ∧
    (machine (.int 7)).step (program (.int 7)) = .running
      { pc := 0
        stack := #[.int 7, .str ""]
        frames := [⟨3, 0⟩]
        memory := #[.function func] } := by
  intro func program machine
  have hreaches (argument : Literal) : Reaches (program argument) {} (machine argument) [] :=
    .step (.step .start)
  have hpresents (argument : Literal) :
      (machine argument).Presents 1 [] (.function func) [.ofLiteral argument] := ⟨rfl, rfl⟩
  obtain ⟨hrefused, -, -⟩ := invoke_protocol (hreaches (.str "a")) rfl
  obtain ⟨-, hcalled, -⟩ := invoke_protocol (hreaches (.int 7)) rfl
  have hmismatch : (machine (.str "a")).Refused 1 (.argumentTypeMismatch "f" 0 .int .string) := by
    have hdiffers : (Value.str "a" : Value Native).tag ≠ .int := by decide
    exact .argument (hpresents (.str "a")) rfl rfl rfl hdiffers
      fun _ h => absurd h (Nat.not_lt_zero _)
  have hentered := Called.entered (hpresents (.int 7)) rfl (by decide) (defaults_extraLocals func)
    (by decide)
  exact ⟨hreaches, hrefused _ hmismatch, hcalled _ hentered⟩

end Machine

end StackScript
