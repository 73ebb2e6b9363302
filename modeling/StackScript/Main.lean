import StackScript.CommandLine

/-!
# The program

Reads the script that the arguments name, runs the job and writes its streams.
-/

namespace StackScript.CommandLine

/-- The contents of a file. -/
def readFile (path : String) : IO (Except ReadError ByteArray) := do
  try
    return .ok (← IO.FS.readBinFile path)
  catch error =>
    match error with
    | .noFileOrDirectory .. => return .error .notFound
    | other => return .error (.other (toString other))

/-- Writes what a job has to say. -/
def Reply.emit (reply : Reply) : IO UInt32 := do
  (← IO.getStdout).write reply.stdout
  (← IO.getStderr).putStr reply.stderr
  return reply.code

/-- Takes turns with a job until it is finished, and writes what each turn says. -/
partial def Job.complete : Job → IO UInt32
  | .finished reply => reply.emit
  | .running session => do
      let _ ← session.written.emit
      session.turn.complete

end StackScript.CommandLine

open StackScript.CommandLine in
def main (arguments : List String) : IO UInt32 := do
  (← Job.start readFile arguments).complete
