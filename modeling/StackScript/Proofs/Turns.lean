import Mathlib.Data.Nat.Init
import StackScript.CommandLine
import StackScript.Proofs.LimitedOutput

/-!
# Jobs in turns

A job is carried out in turns: what it has written is passed on, and it starts the next turn with
empty streams. All in all it writes what one run without turns writes, and it ends with the same
exit code. Neither the machine nor what is noted about a step depends on what was passed on.
-/

namespace StackScript

/-! ## Output in front -/

/-- The machine with more output in front of what it has written. -/
def Machine.prepend {ν : Type} (front : ByteArray) (machine : Machine ν) : Machine ν :=
  machine.withOutput ⟨front ++ machine.output.bytes, machine.output.capacity⟩

/-- The progress with more output in front of what was written. -/
def Progress.prepend {ν : Type} (front : ByteArray) : Progress ν → Progress ν
  | .running machine => .running (machine.prepend front)
  | .stopped outcome machine => .stopped outcome (machine.prepend front)

/-- What a watcher sees if there is more output in front. -/
def Sight.prepend {ν : Type} (front : ByteArray) (sight : Sight ν) : Sight ν :=
  ⟨sight.before.prepend front, sight.instruction, sight.after.prepend front⟩

/-- Events do not show output. -/
theorem Sight.events_prepend {ν : Type} (front : ByteArray) (sight : Sight ν) :
    (sight.prepend front).events = sight.events := by
  obtain ⟨before, instruction, after⟩ := sight
  have hcallee : ∀ arguments, (before.prepend front).callee? arguments =
      before.callee? arguments := fun _ => rfl
  cases instruction with
  | invoke arguments =>
      simp only [Sight.events, Sight.prepend, hcallee]
      cases before.callee? arguments with
      | none => cases after <;> rfl
      | some value =>
          cases after with
          | running machine => cases value <;> rfl
          | stopped outcome machine => cases value <;> cases outcome <;> rfl
  | ret => cases after <;> rfl
  | _ => rfl

namespace Machine

/-- Without a capacity, a step does not depend on what was written before. -/
theorem step_prepend (program : Program Native) {machine : Machine Native}
    (h : machine.output.capacity = none) (front : ByteArray) :
    (machine.prepend front).step program = (machine.step program).prepend front := by
  obtain ⟨data, after, hwrites, hstep⟩ := exists_step_eq program h
  have hfront : machine.prepend front =
      machine.withOutput ⟨front ++ machine.output.bytes, none⟩ := by
    rw [prepend, h]
  rw [hfront, hwrites.unlimited, hstep, ByteArray.append_assoc]
  cases after <;> rfl

/-- A watched run can be interrupted and resumed. -/
theorem watch_add {ν σ : Type} [Host ν] (program : Program ν) (note : σ → Sight ν → σ)
    (first second : Nat) (notes : σ) (machine : Machine ν) :
    machine.watch program note (first + second) notes =
      match machine.watch program note first notes with
      | (notes, .running machine) => machine.watch program note second notes
      | (notes, .stopped outcome machine) => (notes, .stopped outcome machine) := by
  induction first generalizing notes machine with
  | zero => simp [watch]
  | succ first ih =>
      rw [Nat.succ_add, watch, watch]
      cases program.code[machine.pc]? with
      | none => rfl
      | some instruction =>
          dsimp only
          cases machine.advance program instruction with
          | running next => exact ih _ next
          | stopped outcome next => rfl

end Machine

namespace CommandLine

/-- What is noted about a step does not depend on what was written or noted before. -/
theorem Request.stepNotes_prepend (request : Request) (front : ByteArray)
    (noted notes : String) (sight : Sight Native) :
    request.stepNotes (noted ++ notes) (sight.prepend front) =
      noted ++ request.stepNotes notes sight := by
  have hdump : stackDump (sight.prepend front) = stackDump sight := rfl
  unfold Request.stepNotes
  rw [hdump, Sight.events_prepend]
  split
  · rfl
  · simp only [String.append_assoc]

theorem watch_prepend {request : Request} {program : Program Native} (front : ByteArray)
    (noted : String) (fuel : Nat) {notes : String} {machine : Machine Native}
    (h : machine.output.capacity = none) :
    (machine.prepend front).watch program request.stepNotes fuel (noted ++ notes) =
      (noted ++ (machine.watch program request.stepNotes fuel notes).1,
        (machine.watch program request.stepNotes fuel notes).2.prepend front) := by
  induction fuel generalizing notes machine with
  | zero => rfl
  | succ fuel ih =>
      have hpc : (machine.prepend front).pc = machine.pc := rfl
      unfold Machine.watch
      rw [hpc]
      cases hcode : program.code[machine.pc]? with
      | none => rfl
      | some instruction =>
          have hstep := Machine.step_prepend program h front
          have hgrows := Machine.step_grows program h
          rw [Machine.step_eq_advance hcode] at hstep hgrows
          rw [Machine.step_eq_advance (hpc ▸ hcode)] at hstep
          have hsight : (⟨machine.prepend front, instruction,
              (machine.advance program instruction).prepend front⟩ : Sight Native) =
              Sight.prepend front ⟨machine, instruction, machine.advance program instruction⟩ :=
            rfl
          dsimp only
          rw [hstep, hsight, Request.stepNotes_prepend]
          cases hnext : machine.advance program instruction with
          | running next =>
              rw [hnext] at hgrows
              exact ih (hgrows.capacity.trans h)
          | stopped outcome next => rfl

/-! ## Sessions -/

/-- A reply after something was written already. -/
def Reply.after (before reply : Reply) : Reply :=
  ⟨reply.code, before.stdout ++ reply.stdout, before.stderr ++ reply.stderr⟩

/-- A job that goes on after something was written already. -/
def Job.after (before : Reply) : Job → Job
  | .running session =>
      .running { session with
        machine := session.machine.prepend before.stdout
        stderr := before.stderr ++ session.stderr }
  | .finished reply => .finished (before.after reply)

/-- No sink of a running job has a capacity. -/
def Job.Unlimited : Job → Prop
  | .running session => session.machine.output.capacity = none
  | .finished _ => True

namespace Session

variable {session : Session}

/-- The job that a session is after a part of its run, with the notes about it. -/
def came (session : Session) : String × Progress Native → Job
  | (stderr, .running machine) => .running { session with machine, stderr }
  | (stderr, .stopped outcome machine) =>
      .finished ⟨exitCode outcome, machine.output.bytes, stderr ++ epilogue outcome⟩

/-- The run of a session with notes about it. -/
abbrev watched (session : Session) (fuel : Nat) : String × Progress Native :=
  session.machine.watch session.program session.request.stepNotes fuel session.stderr

theorem resume_eq (session : Session) (fuel : Nat) :
    session.resume fuel = session.came (session.watched fuel) := by
  unfold resume watched
  rcases session.machine.watch session.program session.request.stepNotes fuel session.stderr with
    ⟨notes, machine | ⟨outcome, machine⟩⟩
  · rfl
  · rfl

theorem resume_add (session : Session) (first second : Nat) :
    session.resume (first + second) = (session.resume first).resume second := by
  rw [resume_eq, resume_eq, watched, watched, Machine.watch_add]
  rcases session.machine.watch session.program session.request.stepNotes first session.stderr with
    ⟨notes, machine | ⟨outcome, machine⟩⟩
  · exact (resume_eq { session with machine, stderr := notes } second).symm
  · rfl

/-- Before its output was passed on, a session is the flushed one with that output in front. -/
theorem watched_eq (h : session.machine.output.capacity = none) (fuel : Nat) :
    session.watched fuel = (session.stderr ++ (session.flushed.watched fuel).1,
      (session.flushed.watched fuel).2.prepend session.machine.output.bytes) := by
  have hbytes : session.machine.output.bytes ++ ByteArray.empty = session.machine.output.bytes :=
    ByteArray.append_empty
  have hmachine : session.flushed.machine.prepend session.machine.output.bytes =
      session.machine := by
    change session.machine.withOutput
      ⟨session.machine.output.bytes ++ ByteArray.empty, none⟩ = session.machine
    rw [hbytes, Machine.withOutput_self session.machine h]
  have hcapacity : session.flushed.machine.output.capacity = none := rfl
  have hnotes : session.stderr ++ session.flushed.stderr = session.stderr := String.append_empty
  rw [watched, ← watch_prepend session.machine.output.bytes session.stderr fuel hcapacity, hmachine,
    hnotes]
  rfl

/-- A run is the same after its output was passed on, but for what was passed on. -/
theorem resume_eq_after (h : session.machine.output.capacity = none) (fuel : Nat) :
    session.resume fuel = (session.flushed.resume fuel).after session.written := by
  rw [resume_eq, resume_eq, watched_eq h]
  rcases session.flushed.watched fuel with ⟨notes, machine | ⟨outcome, machine⟩⟩
  · rfl
  · simp only [came, Progress.prepend, Job.after, Reply.after, String.append_assoc]
    rfl

theorem resume_unlimited (h : session.machine.output.capacity = none) (fuel : Nat) :
    (session.resume fuel).Unlimited := by
  have hgrows := Machine.run_grows session.program fuel h
  rw [← Machine.watch_snd session.program session.request.stepNotes fuel session.stderr] at hgrows
  rw [resume_eq]
  change session.machine.output.Grows (session.watched fuel).2.machine.output at hgrows
  generalize session.watched fuel = result at hgrows
  rcases result with ⟨notes, machine | ⟨outcome, machine⟩⟩
  · exact hgrows.capacity.trans h
  · trivial

end Session

/-! ## Jobs -/

/-- A job has written a reply in the end: it is finished, or it passes on what it has written so far
and goes on with the next turn. -/
inductive Job.Completes : Job → Reply → Prop
  | finished (reply : Reply) : Completes (.finished reply) reply
  | turn {session : Session} {reply : Reply} (h : Completes session.turn reply) :
      Completes (.running session) (session.written.after reply)

/-- A job has one reply at most. -/
theorem Job.Completes.unique {job : Job} {reply reply' : Reply} (h : job.Completes reply)
    (h' : job.Completes reply') : reply = reply' := by
  induction h generalizing reply' with
  | finished reply =>
      cases h'
      rfl
  | turn _ ih =>
      cases h' with
      | turn h' => rw [ih h']

theorem Job.resume_add (job : Job) (first second : Nat) :
    job.resume (first + second) = (job.resume first).resume second := by
  cases job with
  | running session => exact session.resume_add first second
  | finished reply => rfl

/-- A job that is finished stays as it is. -/
theorem Job.resume_of_le {job : Job} {reply : Reply} {fuel fuel' : Nat}
    (h : job.resume fuel = .finished reply) (hle : fuel ≤ fuel') :
    job.resume fuel' = .finished reply := by
  obtain ⟨more, rfl⟩ := Nat.exists_eq_add_of_le hle
  rw [Job.resume_add, h]
  rfl

theorem Job.Completes.exists_resume {job : Job} {reply : Reply} (h : job.Completes reply)
    (hunlimited : job.Unlimited) : ∃ fuel, job.resume fuel = .finished reply := by
  induction h with
  | finished reply => exact ⟨0, rfl⟩
  | @turn session reply _ ih =>
      have hflushed : session.flushed.machine.output.capacity = none := rfl
      obtain ⟨fuel, hfuel⟩ := ih (Session.resume_unlimited hflushed Session.turnLength)
      refine ⟨Session.turnLength + fuel, ?_⟩
      change session.resume (Session.turnLength + fuel) = _
      rw [Session.resume_eq_after hunlimited, Session.resume_add]
      exact congrArg (Job.after session.written) hfuel

theorem Job.completes_of_resume {job : Job} {reply : Reply} {fuel : Nat}
    (hunlimited : job.Unlimited) (h : job.resume fuel = .finished reply) : job.Completes reply := by
  -- each turn takes at least one step off the rest of the run
  induction fuel using Nat.strong_induction_on generalizing job reply with
  | _ fuel ih =>
      match job with
      | .finished reply' =>
          cases h
          exact .finished reply
      | .running session =>
          have hflushed : session.flushed.machine.output.capacity = none := rfl
          change session.resume fuel = _ at h
          rw [Session.resume_eq_after hunlimited] at h
          cases hrest : session.flushed.resume fuel with
          | running later =>
              rw [hrest] at h
              cases h
          | finished last =>
              rw [hrest] at h
              cases h
              apply Job.Completes.turn
              by_cases hle : fuel ≤ Session.turnLength
              · have hlast : (Job.running session.flushed).resume fuel = .finished last := hrest
                have hturn : session.turn = .finished last := Job.resume_of_le hlast hle
                rw [hturn]
                exact .finished last
              · have hrest' : session.turn.resume (fuel - Session.turnLength) = .finished last := by
                  rw [← hrest, Session.turn, ← Session.resume_add,
                    Nat.add_sub_cancel' (Nat.le_of_not_le hle)]
                apply ih (fuel - Session.turnLength) _ _ hrest'
                · have hpos : 0 < Session.turnLength := by decide
                  omega
                · exact Session.resume_unlimited hflushed Session.turnLength

/-- Carried out in turns or in one run, a job writes the same and ends with the same code. -/
theorem Job.completes_iff {job : Job} {reply : Reply} (hunlimited : job.Unlimited) :
    job.Completes reply ↔ ∃ fuel, job.resume fuel = .finished reply := by
  constructor
  · intro h
    exact h.exists_resume hunlimited
  · rintro ⟨fuel, h⟩
    exact completes_of_resume hunlimited h

end CommandLine

end StackScript
