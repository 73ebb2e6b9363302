import StackScript.Machine.Watch
import StackScript.Native
import StackScript.Program.Listing
import StackScript.Script

/-!
# The command line

What the arguments ask for, and what carrying it out writes to the standard streams. Running a
script may take any number of steps, so a request starts a job that is resumed until it is
finished.
-/

namespace StackScript.CommandLine

/-- What can be done with a script. -/
inductive Command where
  | run
  | tokens
  | disassemble
deriving DecidableEq

/-- The word for a command. -/
def Command.name : Command → String
  | .run => "run"
  | .tokens => "tokens"
  | .disassemble => "disassemble"

/-- The command that a word names. -/
def Command.ofName? (word : String) : Option Command :=
  if word = "run" then some .run
  else if word = "tokens" then some .tokens
  else if word = "disassemble" then some .disassemble
  else none

/-- The option that turns the stack dump and all logging off. -/
def quietOption : String := "--logging-off"

/-- The option that logs what is compiled and called. -/
def verboseOption : String := "--verbose"

/-- A command on a script. -/
structure Request where
  command : Command
  path : String
  quiet : Bool
  verbose : Bool
deriving DecidableEq

/-- Why the arguments are not a request. -/
inductive Refusal where
  | noCommand
  | help
  | unknownCommand (name : String)
  | unknownOption (option : String)
  | unexpectedArgument (argument : String)
  | missingInput (command : Command)
deriving DecidableEq

/-- How to use the command line. -/
def usage : String :=
  "\n".intercalate
    ["Usage: noast <command> [args]",
     "",
     "Commands:",
     "  run <script> [--logging-off] [--verbose]   Compile and execute a script",
     "  tokens <script>                            List the script's tokens",
     "  disassemble <script>                       Compile and list instructions",
     "",
     "Options:",
     "  --logging-off   Disable the stack dump and all log output",
     "  --verbose       Log compiled functions, calls and returns",
     ""]

namespace Refusal

/-- The text that explains a refusal. -/
def message : Refusal → String
  | .noCommand | .help => usage
  | .unknownCommand name => s!"error: unknown command '{name}'\n\n" ++ usage
  | .unknownOption option => s!"error: unknown option '{option}'\n"
  | .unexpectedArgument argument => s!"error: unexpected argument '{argument}'\n"
  | .missingInput command =>
      s!"error: {command.name} requires an input file\nUsage: noast {command.name} <script>\n"

/-- The exit code of a refusal. Asking for help is no mistake. -/
def code : Refusal → UInt32
  | .help => 0
  | _ => 1

end Refusal

/-- The only argument that is no option. -/
def inputPath (command : Command) : (found : Option String) → List String → Except Refusal String
  | none, [] => .error (.missingInput command)
  | some path, [] => .ok path
  | found, argument :: rest =>
      if argument = quietOption ∨ argument = verboseOption then inputPath command found rest
      else if argument.startsWith "--" then .error (.unknownOption argument)
      else
        match found with
        | none => inputPath command (some argument) rest
        | some _ => .error (.unexpectedArgument argument)

/-- What the arguments ask for. -/
def Request.ofArguments : List String → Except Refusal Request
  | [] => .error .noCommand
  | word :: arguments =>
      match Command.ofName? word with
      | some command => do
          let path ← inputPath command none arguments
          return { command, path
                   quiet := arguments.contains quietOption
                   verbose := arguments.contains verboseOption }
      | none =>
          if word ∈ ["--help", "-h", "help"] then .error .help
          else .error (.unknownCommand word)

/-- Why the script cannot be read. -/
inductive ReadError where
  | notFound
  | notText
  | other (reason : String)
deriving DecidableEq

/-- The text that reports an unreadable script. -/
def ReadError.message : ReadError → String
  | .notFound => "No such file or directory (os error 2)"
  | .notText => "stream did not contain valid UTF-8"
  | .other reason => reason

/-- The text that the contents of a file are. -/
def decode (contents : ByteArray) : Except ReadError String :=
  match String.fromUTF8? contents with
  | some text => .ok text
  | none => .error .notText

/-- What a finished job has written, and its exit code. -/
structure Reply where
  code : UInt32
  stdout : ByteArray
  stderr : String

/-- A script that is running, and what was written to the standard error stream so far. -/
structure Session where
  request : Request
  program : Program Native
  machine : Machine Native
  stderr : String

/-- A request that is carried out. -/
inductive Job where
  | running (session : Session)
  | finished (reply : Reply)

/-- A reply that only reports something. -/
def Reply.report (code : UInt32) (text : String) : Reply :=
  ⟨code, .empty, text⟩

/-- The log line of an event. -/
def logLine (event : Event) : String :=
  s!"[{event.level.name}] {event.source}: {event.message}\n"

/-- The log lines that a request asks for: none, or those of the debug level. -/
def Request.logLines (request : Request) (events : List Event) : String :=
  if request.verbose ∧ ¬ request.quiet then
    String.join ((events.filter (·.level = .debug)).map logLine)
  else ""

/-- The machine before an instruction: position, stack and instruction. -/
def stackDump (sight : Sight Native) : String :=
  s!"--- {Text.position sight.before.pc} ---\n" ++
    (Text.Outline.list (sight.before.stack.toList.map Value.outline)).render ++ "\n" ++
    sight.instruction.outline.render ++ "\n"

/-- What a request writes about one instruction. -/
def Request.stepNotes (request : Request) (notes : String) (sight : Sight Native) : String :=
  if request.quiet then notes
  else notes ++ stackDump sight ++ request.logLines sight.events

namespace Session

/-- The exit code of a run. -/
def exitCode : Outcome → UInt32
  | .completed | .halted _ => 0
  | .failed _ => 3

/-- What is written about the end of a run. -/
def epilogue : Outcome → String
  | .completed | .halted _ => ""
  | .failed error => s!"runtime error: {error.message}\n"

/-- Performs at most the given number of instructions. -/
def resume (session : Session) (fuel : Nat) : Job :=
  let (stderr, progress) :=
    session.machine.watch session.program session.request.stepNotes fuel session.stderr
  match progress with
  | .running machine => .running { session with machine, stderr }
  | .stopped outcome machine =>
      .finished ⟨exitCode outcome, machine.output.bytes, stderr ++ epilogue outcome⟩

/-- What a session has written so far. -/
def written (session : Session) : Reply :=
  ⟨0, session.machine.output.bytes, session.stderr⟩

/-- The session after what it has written was passed on. -/
def flushed (session : Session) : Session :=
  { session with machine := { session.machine with output := {} }, stderr := "" }

/-- How many instructions are performed before output is passed on again. -/
def turnLength : Nat := 1000

/-- Performs instructions after output was passed on. -/
def turn (session : Session) : Job :=
  session.flushed.resume turnLength

end Session

/-- The line for a token in a list of tokens. -/
def tokenLine (token : Token) : String :=
  Text.lineColumn token.line ++ " " ++ token.describe ++ "\n"

/-- The list of a text's tokens, without the end. -/
def tokenList (tokens : List Token) : String :=
  String.join ((tokens.filter (·.kind ≠ .eof)).map tokenLine)

/-- Starts to carry out a request on the text of its script. -/
def Request.start (request : Request) (source : Except ReadError String) : Job :=
  match source with
  | .error error =>
      .finished (.report 1 s!"error: cannot read '{request.path}': {error.message}\n")
  | .ok source =>
      match request.command with
      | .tokens =>
          match Token.tokenize source with
          | .error error => .finished (.report 1 s!"error: {error.message}\n")
          | .ok tokens => .finished ⟨0, (tokenList tokens).toUTF8, ""⟩
      | .run =>
          match Script.compile Native.builtins source #[] with
          | .error error events =>
              .finished (.report 1 (request.logLines events.toList ++ s!"error: {error.message}\n"))
          | .ok program events =>
              .running
                { request, program
                  machine := Machine.start program {}
                  stderr := request.logLines events.toList }
      | .disassemble =>
          match Script.compile Native.builtins source #[] with
          | .error error events =>
              .finished (.report 1 (request.logLines events.toList ++ s!"error: {error.message}\n"))
          | .ok program events =>
              .finished ⟨0, program.listing.toUTF8, request.logLines events.toList⟩

/-- Starts the job that arguments ask for, with a way to read files. -/
def Job.start {m : Type → Type} [Monad m] (read : String → m (Except ReadError ByteArray))
    (arguments : List String) : m Job :=
  match Request.ofArguments arguments with
  | .error refusal => return .finished (.report refusal.code refusal.message)
  | .ok request => do
      let contents ← read request.path
      return request.start (contents.bind decode)

/-- Goes on with a job. -/
def Job.resume (fuel : Nat) : Job → Job
  | .running session => session.resume fuel
  | .finished reply => .finished reply

end StackScript.CommandLine
