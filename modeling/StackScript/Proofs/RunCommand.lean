import StackScript.Proofs.Turns

/-!
# Running a script from the command line

The exit code and the standard output of `run` follow from the arguments that are no options, the
file that they name, the compiler and the machine. The two options have a part in what is written to
the standard error stream only.
-/

namespace StackScript.CommandLine

/-! ## Arguments -/

/-- The arguments that are no options. -/
def inputs (arguments : List String) : List String :=
  arguments.filter fun argument => ¬ argument.startsWith "--"

/-- The argument is one of the two options. -/
def IsOption (argument : String) : Prop :=
  argument = quietOption ∨ argument = verboseOption

instance (argument : String) : Decidable (IsOption argument) :=
  inferInstanceAs (Decidable (_ ∨ _))

/-- The arguments name one file and have no unknown option. -/
structure Names (arguments : List String) (path : String) : Prop where
  input : inputs arguments = [path]
  options : ∀ argument ∈ arguments, argument.startsWith "--" → IsOption argument

theorem IsOption.startsWith {argument : String} (h : IsOption argument) :
    argument.startsWith "--" = true := by
  rcases h with rfl | rfl
  · simp [quietOption]
  · simp [verboseOption]

theorem inputPath_cons (command : Command) (found : Option String) (argument : String)
    (rest : List String) :
    inputPath command found (argument :: rest) =
      if IsOption argument then inputPath command found rest
      else if argument.startsWith "--" then .error (.unknownOption argument)
      else
        match found with
        | none => inputPath command (some argument) rest
        | some _ => .error (.unexpectedArgument argument) := by
  cases found <;> rfl

theorem inputPath_eq_ok {command : Command} {found : Option String} {arguments : List String}
    {path : String} :
    inputPath command found arguments = .ok path ↔
      found.toList ++ inputs arguments = [path] ∧
        ∀ argument ∈ arguments, argument.startsWith "--" → IsOption argument := by
  induction arguments generalizing found with
  | nil =>
      cases found with
      | none => simp [inputPath, inputs]
      | some first => simp [inputPath, inputs]
  | cons argument rest ih =>
      have hinputs : inputs (argument :: rest) =
          if argument.startsWith "--" then inputs rest else argument :: inputs rest := by
        by_cases hdashes : argument.startsWith "--"
        · simp only [inputs, List.filter_cons, hdashes, not_true, decide_false, Bool.false_eq_true,
            ↓reduceIte]
        · simp only [inputs, List.filter_cons, hdashes, not_false_eq_true, decide_true, ↓reduceIte,
            Bool.false_eq_true]
      rw [hinputs, List.forall_mem_cons]
      rw [inputPath_cons]
      by_cases hoption : IsOption argument
      · rw [if_pos hoption, if_pos hoption.startsWith, ih]
        simp [hoption]
      · rw [if_neg hoption]
        by_cases hdashes : argument.startsWith "--"
        · rw [if_pos hdashes]
          simp [hdashes, hoption]
        · rw [if_neg hdashes, if_neg hdashes]
          cases found with
          | none =>
              rw [ih]
              simp [hdashes]
          | some first => simp

theorem inputPath_none_eq_ok {command : Command} {arguments : List String} {path : String} :
    inputPath command none arguments = .ok path ↔ Names arguments path := by
  rw [inputPath_eq_ok]
  exact ⟨fun h => ⟨h.1, h.2⟩, fun h => ⟨h.input, h.options⟩⟩

/-- Arguments that name no file are a mistake. -/
theorem code_of_inputPath {command : Command} {found : Option String} {arguments : List String}
    {refusal : Refusal} (h : inputPath command found arguments = .error refusal) :
    refusal.code = 1 := by
  induction arguments generalizing found with
  | nil =>
      cases found with
      | none =>
          cases h
          rfl
      | some path => cases h
  | cons argument rest ih =>
      rw [inputPath_cons] at h
      split at h
      · exact ih h
      · split at h
        · cases h
          rfl
        · cases found with
          | none => exact ih h
          | some path =>
              cases h
              rfl

/-- The arguments without the two options. -/
def withoutOptions (arguments : List String) : List String :=
  arguments.filter fun argument => ¬ IsOption argument

theorem withoutOptions_eq_inputs {arguments : List String}
    (h : ∀ argument ∈ arguments, argument.startsWith "--" → IsOption argument) :
    withoutOptions arguments = inputs arguments := by
  apply List.filter_congr
  intro argument hmem
  have hoption : IsOption argument ↔ argument.startsWith "--" = true :=
    ⟨IsOption.startsWith, h argument hmem⟩
  simp only [hoption]

/-- Which file is named does not depend on the two options. -/
theorem names_iff {arguments : List String} {path : String} :
    Names arguments path ↔
      withoutOptions arguments = [path] ∧ ¬ path.startsWith "--" = true := by
  constructor
  · intro h
    have hpath : path ∈ inputs arguments := h.input ▸ List.mem_singleton_self path
    exact ⟨(withoutOptions_eq_inputs h.options).trans h.input,
      of_decide_eq_true (List.mem_filter.1 hpath).2⟩
  · rintro ⟨hinput, hpath⟩
    have hoptions : ∀ argument ∈ arguments, argument.startsWith "--" → IsOption argument := by
      intro argument hmem hdashes
      by_contra hoption
      have hkept : argument ∈ withoutOptions arguments :=
        List.mem_filter.2 ⟨hmem, decide_eq_true hoption⟩
      rw [hinput, List.mem_singleton] at hkept
      exact hpath (hkept ▸ hdashes)
    exact ⟨(withoutOptions_eq_inputs hoptions).symm.trans hinput, hoptions⟩

/-! ## Files -/

theorem decode_eq_ok {contents : ByteArray} {source : String} :
    decode contents = .ok source ↔ contents = source.toUTF8 := by
  unfold decode String.fromUTF8?
  by_cases hvalid : contents.IsValidUTF8
  · rw [dif_pos hvalid]
    constructor
    · intro h
      cases h
      rfl
    · rintro rfl
      rfl
  · rw [dif_neg hvalid]
    constructor
    · intro h
      cases h
    · rintro rfl
      exact absurd source.isValidUTF8 hvalid

/-- A file is read as a text if its contents are that text in UTF-8. -/
theorem read_eq_ok {contents : Except ReadError ByteArray} {source : String} :
    contents.bind decode = .ok source ↔ contents = .ok source.toUTF8 := by
  cases contents with
  | error error => simp [Except.bind]
  | ok bytes => simp [Except.bind, decode_eq_ok]

/-! ## Outcomes -/

/-- The job of running a script, given the files there are. -/
def runJob (files : String → Except ReadError ByteArray) (arguments : List String) : Job :=
  Id.run (Job.start (fun path => pure (files path)) ("run" :: arguments))

/-- Running a script writes the given bytes to the standard output and ends with the given code. -/
def Exits (files : String → Except ReadError ByteArray) (arguments : List String) (code : UInt32)
    (stdout : ByteArray) : Prop :=
  ∃ stderr, (runJob files arguments).Completes ⟨code, stdout, stderr⟩

/-- The exit code and the output that running a script should have: 1 and nothing without a script
that can be read and compiled; 3 and the output so far after a runtime error; 0 and the output if
the run completes or is halted. -/
inductive RunOutcome (files : String → Except ReadError ByteArray) (arguments : List String) :
    UInt32 → ByteArray → Prop
  | refused (h : ∀ path, ¬ Names arguments path) : RunOutcome files arguments 1 .empty
  | unreadable {path : String} (h : Names arguments path)
      (hread : ∀ source : String, files path ≠ .ok source.toUTF8) :
      RunOutcome files arguments 1 .empty
  | rejected {path source : String} {error : CompileError} {events : Array Event}
      (h : Names arguments path) (hread : files path = .ok source.toUTF8)
      (hcompile : Script.compile Native.builtins source #[] = .error error events) :
      RunOutcome files arguments 1 .empty
  | failed {path source : String} {program : Program Native} {events : Array Event} {fuel : Nat}
      {error : RuntimeError} {machine : Machine Native}
      (h : Names arguments path) (hread : files path = .ok source.toUTF8)
      (hcompile : Script.compile Native.builtins source #[] = .ok program events)
      (hrun : (Machine.start program {}).run program fuel = .stopped (.failed error) machine) :
      RunOutcome files arguments 3 machine.output.bytes
  | succeeded {path source : String} {program : Program Native} {events : Array Event} {fuel : Nat}
      {outcome : Outcome} {machine : Machine Native}
      (h : Names arguments path) (hread : files path = .ok source.toUTF8)
      (hcompile : Script.compile Native.builtins source #[] = .ok program events)
      (hrun : (Machine.start program {}).run program fuel = .stopped outcome machine)
      (hgood : ∀ error, outcome ≠ .failed error) :
      RunOutcome files arguments 0 machine.output.bytes

variable {files : String → Except ReadError ByteArray} {arguments : List String}

/-- The request to run a script, with the options there are. -/
def runRequest (arguments : List String) (path : String) : Request :=
  { command := .run, path
    quiet := arguments.contains quietOption
    verbose := arguments.contains verboseOption }

theorem runJob_of_refused (h : ∀ path, ¬ Names arguments path) :
    ∃ text, runJob files arguments = .finished (.report 1 text) := by
  cases hpath : inputPath .run none arguments with
  | ok path => exact absurd (inputPath_none_eq_ok.1 hpath) (h path)
  | error refusal =>
      have hrequest : Request.ofArguments ("run" :: arguments) = .error refusal := by
        change (inputPath .run none arguments >>= _) = _
        rw [hpath]
        rfl
      refine ⟨refusal.message, ?_⟩
      unfold runJob Job.start
      rw [hrequest, ← code_of_inputPath hpath]
      rfl

theorem runJob_of_names {path : String} (h : Names arguments path) :
    runJob files arguments = (runRequest arguments path).start ((files path).bind decode) := by
  have hrequest : Request.ofArguments ("run" :: arguments) = .ok (runRequest arguments path) := by
    change (inputPath .run none arguments >>= _) = _
    rw [inputPath_none_eq_ok.2 h]
    rfl
  unfold runJob Job.start
  rw [hrequest]
  rfl

/-- The session that runs a compiled script. -/
def runSession (request : Request) (program : Program Native) (events : Array Event) : Session :=
  { request, program, machine := Machine.start program {}
    stderr := request.logLines events.toList }

section Jobs

variable {path source : String} {program : Program Native} {events : Array Event}
  (h : Names arguments path)
include h

theorem runJob_of_unreadable (hread : ∀ source : String, files path ≠ .ok source.toUTF8) :
    ∃ text, runJob files arguments = .finished (.report 1 text) := by
  rw [runJob_of_names h]
  cases hsource : (files path).bind decode with
  | ok source => exact absurd (read_eq_ok.1 hsource) (hread source)
  | error error => exact ⟨_, rfl⟩

theorem runJob_of_rejected {error : CompileError} (hread : files path = .ok source.toUTF8)
    (hcompile : Script.compile Native.builtins source #[] = .error error events) :
    ∃ text, runJob files arguments = .finished (.report 1 text) := by
  rw [runJob_of_names h, read_eq_ok.2 hread]
  unfold Request.start
  simp only [runRequest, hcompile]
  exact ⟨_, rfl⟩

theorem runJob_of_compiled (hread : files path = .ok source.toUTF8)
    (hcompile : Script.compile Native.builtins source #[] = .ok program events) :
    runJob files arguments =
      .running (runSession (runRequest arguments path) program events) := by
  rw [runJob_of_names h, read_eq_ok.2 hread]
  unfold Request.start
  simp only [runRequest, hcompile]
  rfl

end Jobs

/-- What there is to run, if there is. -/
theorem runJob_cases (files : String → Except ReadError ByteArray) (arguments : List String) :
    (RunOutcome files arguments 1 .empty ∧
      ∃ text, runJob files arguments = .finished (.report 1 text)) ∨
    ∃ path source program events, Names arguments path ∧ files path = .ok source.toUTF8 ∧
      Script.compile Native.builtins source #[] = .ok program events ∧
      runJob files arguments =
        .running (runSession (runRequest arguments path) program events) := by
  by_cases hnames : ∃ path, Names arguments path
  · obtain ⟨path, hnames⟩ := hnames
    by_cases hread : ∃ source : String, files path = .ok source.toUTF8
    · obtain ⟨source, hread⟩ := hread
      cases hcompile : Script.compile Native.builtins source #[] with
      | error error events =>
          exact .inl ⟨.rejected hnames hread hcompile, runJob_of_rejected hnames hread hcompile⟩
      | ok program events =>
          exact .inr ⟨path, source, program, events, hnames, hread, hcompile,
            runJob_of_compiled hnames hread hcompile⟩
    · have hread' := not_exists.1 hread
      exact .inl ⟨.unreadable hnames hread', runJob_of_unreadable hnames hread'⟩
  · have hnames' := not_exists.1 hnames
    exact .inl ⟨.refused hnames', runJob_of_refused hnames'⟩

theorem completes_finished_iff {reply reply' : Reply} :
    (Job.finished reply).Completes reply' ↔ reply = reply' := by
  constructor
  · intro h
    cases h
    rfl
  · rintro rfl
    exact .finished reply

/-- A session completes if its machine stops. -/
theorem completes_running_iff {session : Session} (h : session.machine.output.capacity = none)
    {reply : Reply} :
    (Job.running session).Completes reply ↔
      ∃ fuel outcome machine,
        session.machine.run session.program fuel = .stopped outcome machine ∧
        reply = ⟨Session.exitCode outcome, machine.output.bytes,
          (session.watched fuel).1 ++ Session.epilogue outcome⟩ := by
  have hresume : ∀ fuel, session.resume fuel = .finished reply ↔
      ∃ outcome machine,
        session.machine.run session.program fuel = .stopped outcome machine ∧
        reply = ⟨Session.exitCode outcome, machine.output.bytes,
          (session.watched fuel).1 ++ Session.epilogue outcome⟩ := by
    intro fuel
    rw [Session.resume_eq, ← Machine.watch_snd session.program session.request.stepNotes fuel
      session.stderr]
    change _ ↔ ∃ outcome machine, (session.watched fuel).2 = .stopped outcome machine ∧ _
    rcases session.watched fuel with ⟨notes, machine | ⟨outcome, machine⟩⟩
    · simp [Session.came]
    · simp only [Session.came, Job.finished.injEq, Progress.stopped.injEq]
      constructor
      · rintro rfl
        exact ⟨outcome, machine, ⟨rfl, rfl⟩, rfl⟩
      · rintro ⟨_, _, ⟨rfl, rfl⟩, rfl⟩
        rfl
  have hunlimited : (Job.running session).Unlimited := h
  rw [Job.completes_iff hunlimited]
  exact exists_congr hresume

theorem exits_iff {code : UInt32} {stdout : ByteArray} :
    Exits files arguments code stdout ↔ RunOutcome files arguments code stdout := by
  constructor
  · rintro ⟨stderr, hcompletes⟩
    rcases runJob_cases files arguments with ⟨houtcome, text, hjob⟩ |
      ⟨path, source, program, events, hnames, hread, hcompile, hjob⟩
    · rw [hjob, completes_finished_iff] at hcompletes
      cases hcompletes
      exact houtcome
    · rw [hjob, completes_running_iff rfl] at hcompletes
      obtain ⟨fuel, outcome, machine, hrun, hreply⟩ := hcompletes
      cases hreply
      cases outcome with
      | failed error => exact .failed hnames hread hcompile hrun
      | completed => exact .succeeded hnames hread hcompile hrun (by simp)
      | halted name => exact .succeeded hnames hread hcompile hrun (by simp)
  · -- a job that is finished at once has written nothing, and one that runs what its machine has
    have hnothing : (∃ text, runJob files arguments = .finished (.report 1 text)) →
        Exits files arguments 1 .empty := by
      rintro ⟨text, hjob⟩
      exact ⟨text, hjob ▸ .finished _⟩
    have hran : ∀ {path source program events fuel outcome machine}, Names arguments path →
        files path = .ok source.toUTF8 →
        Script.compile Native.builtins source #[] = .ok program events →
        (Machine.start program {}).run program fuel = .stopped outcome machine →
        Exits files arguments (Session.exitCode outcome) machine.output.bytes := by
      intro path source program events fuel outcome machine hnames hread hcompile hrun
      let session := runSession (runRequest arguments path) program events
      refine ⟨(session.watched fuel).1 ++ Session.epilogue outcome, ?_⟩
      rw [runJob_of_compiled hnames hread hcompile, completes_running_iff rfl]
      exact ⟨fuel, outcome, machine, hrun, rfl⟩
    intro houtcome
    cases houtcome with
    | refused h => exact hnothing (runJob_of_refused h)
    | unreadable h hread => exact hnothing (runJob_of_unreadable h hread)
    | rejected h hread hcompile => exact hnothing (runJob_of_rejected h hread hcompile)
    | failed h hread hcompile hrun => exact hran h hread hcompile hrun
    | @succeeded _ _ _ _ _ outcome _ h hread hcompile hrun hgood =>
        cases outcome with
        | failed error => exact absurd rfl (hgood error)
        | completed => exact hran h hread hcompile hrun
        | halted name => exact hran h hread hcompile hrun

/-- Outcomes depend on the arguments through the file that they name. -/
theorem RunOutcome.congr {arguments' : List String}
    (hnames : ∀ path, Names arguments path → Names arguments' path)
    (hnames' : ∀ path, Names arguments' path → Names arguments path)
    {code : UInt32} {stdout : ByteArray} (h : RunOutcome files arguments code stdout) :
    RunOutcome files arguments' code stdout := by
  cases h with
  | refused h => exact .refused fun path hpath => h path (hnames' path hpath)
  | unreadable h hread => exact .unreadable (hnames _ h) hread
  | rejected h hread hcompile => exact .rejected (hnames _ h) hread hcompile
  | failed h hread hcompile hrun => exact .failed (hnames _ h) hread hcompile hrun
  | succeeded h hread hcompile hrun hgood =>
      exact .succeeded (hnames _ h) hread hcompile hrun hgood

/-! ## The standard error stream -/

/-- A quiet request notes nothing about steps. -/
theorem watch_fst_of_quiet {request : Request} (h : request.quiet = true)
    (program : Program Native) (fuel : Nat) (notes : String) (machine : Machine Native) :
    (machine.watch program request.stepNotes fuel notes).1 = notes := by
  have hquiet : ∀ sight, request.stepNotes notes sight = notes := fun sight => if_pos h
  induction fuel generalizing machine with
  | zero => rfl
  | succ fuel ih =>
      unfold Machine.watch
      cases program.code[machine.pc]? with
      | none => rfl
      | some instruction =>
          dsimp only
          rw [hquiet]
          cases machine.advance program instruction with
          | running next => exact ih next
          | stopped outcome next => rfl

theorem logLines_of_quiet {request : Request} (h : request.quiet = true) (events : List Event) :
    request.logLines events = "" :=
  if_neg fun hloud => hloud.2 h

theorem stderr_of_quiet (hquiet : quietOption ∈ arguments) {reply : Reply}
    (h : (runJob files arguments).Completes reply) (hcode : reply.code = 0) :
    reply.stderr = "" := by
  rcases runJob_cases files arguments with ⟨-, text, hjob⟩ |
    ⟨path, source, program, events, -, -, -, hjob⟩
  · rw [hjob, completes_finished_iff] at h
    subst h
    have hone : (1 : UInt32) ≠ 0 := by decide
    exact absurd hcode hone
  · rw [hjob, completes_running_iff rfl] at h
    obtain ⟨fuel, outcome, machine, -, rfl⟩ := h
    have hrequest : (runRequest arguments path).quiet = true := List.contains_iff_mem.2 hquiet
    have hnotes : ((runSession (runRequest arguments path) program events).watched fuel).1 = "" :=
      (watch_fst_of_quiet hrequest program fuel _ _).trans (logLines_of_quiet hrequest _)
    change _ ++ Session.epilogue outcome = ""
    rw [hnotes]
    cases outcome with
    | failed error =>
        have hthree : (3 : UInt32) ≠ 0 := by decide
        exact absurd hcode hthree
    | completed => rfl
    | halted name => rfl

/-- Running a script from the command line. There is one reply at most, and its exit code and
standard output are those that the arguments, the file they name, the compiler and the machine lead
to. They do not change if the two options are inserted, removed, repeated or moved. If the quiet
option is there and the exit code is zero, nothing is written to the standard error stream. -/
theorem run_command_outcome (files : String → Except ReadError ByteArray)
    (arguments : List String) :
    (∀ reply reply', (runJob files arguments).Completes reply →
      (runJob files arguments).Completes reply' → reply = reply') ∧
    (∀ code stdout, Exits files arguments code stdout ↔ RunOutcome files arguments code stdout) ∧
    (∀ arguments', withoutOptions arguments' = withoutOptions arguments → ∀ code stdout,
      Exits files arguments' code stdout ↔ Exits files arguments code stdout) ∧
    (quietOption ∈ arguments → ∀ reply, (runJob files arguments).Completes reply →
      reply.code = 0 → reply.stderr = "") := by
  refine ⟨fun reply reply' h => h.unique, fun code stdout => exits_iff, ?_,
    fun hquiet reply => stderr_of_quiet hquiet⟩
  intro arguments' hsame code stdout
  have hnames : ∀ path, Names arguments' path ↔ Names arguments path := by
    intro path
    rw [names_iff, names_iff, hsame]
  rw [exits_iff, exits_iff]
  constructor
  · exact RunOutcome.congr (fun path => (hnames path).1) fun path => (hnames path).2
  · exact RunOutcome.congr (fun path => (hnames path).2) fun path => (hnames path).1

/-- A script that says so and ends, run with both options and with none. -/
theorem run_command_outcome_done :
    let files := fun _ : String => (.ok "done()".toUTF8 : Except ReadError ByteArray)
    Exits files ["--verbose", "script", "--logging-off"] 0 "done the program\n".toUTF8 ∧
      Exits files ["script"] 0 "done the program\n".toUTF8 := by
  intro files
  let program : Program Native :=
    { code := #[.loadGlobal "done", .invoke 0]
      globals := ⟨[⟨"print_one", .builtin⟩, ⟨"print_all", .builtin⟩, ⟨"print_sum", .builtin⟩,
        ⟨"done", .builtin⟩]⟩
      memory := #[.builtin Native.printOne.builtin, .builtin Native.printAll.builtin,
        .builtin Native.printSum.builtin, .builtin Native.done.builtin] }
  let after : Machine Native :=
    { pc := 1, memory := program.memory, output := { bytes := "done the program\n".toUTF8 } }
  have hnames : Names ["--verbose", "script", "--logging-off"] "script" :=
    names_iff.2 ⟨by decide, by simp⟩
  have hcompile : Script.compile Native.builtins "done()" #[] =
      .ok program #[.mainCompiled 0 2] := by cbv
  have hrun : (Machine.start program {}).run program 2 = .stopped (.halted "done") after := by
    rfl
  have hloud := run_command_outcome files ["--verbose", "script", "--logging-off"]
  have hexits := (hloud.2.1 0 after.output.bytes).2
    (.succeeded hnames rfl hcompile hrun fun error h => by cases h)
  exact ⟨hexits, (hloud.2.2.1 ["script"] (by decide) 0 after.output.bytes).2 hexits⟩

end StackScript.CommandLine
