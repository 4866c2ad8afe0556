import EchoScript.Command.Report

/-!
# EchoScript.Main

The command: arguments and files in, outputs and exit status out.
-/

namespace EchoScript
namespace Command

def readScript (path : String) : IO (Except ReadFault String) := do
  try
    let bytes ← IO.FS.readBinFile path
    return decode bytes
  catch
    | .noFileOrDirectory .. => return .error .notFound
    | .inappropriateType _ code _ =>
      -- The system counts its codes upwards or downwards, by the call that failed.
      return .error (if code = 21 ∨ code = 0 - 21 then .isFolder else .notFolder)
    | e => return .error (.other e.toString)

/-- Writes out a report and gives its exit status. -/
def deliver (r : Report) : IO UInt32 := do
  let stdout ← IO.getStdout
  let stderr ← IO.getStderr
  if r.warned then stderr.putStr "WARN the script file does not have the .fab extension\n"
  stderr.putStr r.stderr
  stdout.write r.stdout
  stdout.flush
  return r.exit.toUInt32

end Command
end EchoScript

open EchoScript Command in
def main (arguments : List String) : IO UInt32 := do
  match Invocation.ofArguments arguments with
  | .error e =>
    (← IO.getStderr).putStr ("error: " ++ e.message ++ "\n")
    return 2
  | .ok (.tell notice) => deliver (.ofNotice notice)
  | .ok (.run request) =>
    match request.file with
    | none => deliver (request.perform Script.demo)
    | some path => deliver (request.performFile path (← readScript path))
