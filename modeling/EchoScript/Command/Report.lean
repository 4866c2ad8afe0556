import EchoScript.Command.Arguments
import EchoScript.Command.Folder
import EchoScript.Script
import EchoScript.Token.Dump
import EchoScript.Tree.Dump

/-!
# EchoScript.Command.Report

What the command does: the exit status, both outputs, and whether it warned that a file does not have
the extension of scripts.
-/

namespace EchoScript
namespace Command

structure Report where
  exit : UInt8
  stdout : ByteArray
  stderr : String
  warned : Bool

def errorLine (message : String) : String := "Error: " ++ message ++ "\n"

def Notice.text : Notice → String
  | .version => "fab 0.1.0\n"
  | .help =>
    "fab is a tiny scripting language with ordered maps, dotted paths and echo.\n\n" ++
    "Usage: fab [OPTIONS] [FILE]\n\n" ++
    "Arguments:\n" ++
    "  [FILE]  Script to run. When omitted, a built-in demo script runs instead\n\n" ++
    "Options:\n" ++
    "      --dump-tokens  Print the token stream to stderr before running\n" ++
    "      --dump-ast     Print the parsed statements to stderr before running\n" ++
    "  -h, --help         Print help\n" ++
    "  -V, --version      Print version\n"

def Report.ofNotice (n : Notice) : Report := ⟨0, n.text.toUTF8, "", false⟩

namespace Request

/-- Runs the text of a script, writing out lexemes and trees as requested when they are known. -/
def perform (r : Request) (source : String) : Report :=
  match Token.ofSource source with
  | .error e => ⟨1, .empty, errorLine e.message, false⟩
  | .ok lexemes =>
    let tokens := if r.dumpTokens then Lexeme.dumpAll lexemes else ""
    match Statement.listOfTokens lexemes with
    | .error e => ⟨1, .empty, tokens ++ errorLine e.message, false⟩
    | .ok ss =>
      let trees := if r.dumpTree then Statement.dumpAll ss else ""
      let ending := Statement.executeAll ⟨.empty, .unlimited⟩ ss
      match ending.error with
      | some e => ⟨1, ending.state.sink.written, tokens ++ trees ++ errorLine e.message, false⟩
      | none => ⟨0, ending.state.sink.written, tokens ++ trees, false⟩

/-- Whether the request's file lacks the extension of scripts. -/
def warns (r : Request) : Bool := r.file.any fun path => !Path.isScript path

/-- The report on a file, by what reading it gave. -/
def performFile (r : Request) (path : String) : Except ReadFault String → Report
  | .error fault =>
    ⟨1, .empty, errorLine ("failed to read '" ++ path ++ "': " ++ fault.words), r.warns⟩
  | .ok source => { r.perform source with warned := r.warns }

def report (r : Request) (folder : Folder) : Report :=
  match r.file with
  | none => r.perform Script.demo
  | some path => r.performFile path (folder.read path)

end Request

def report (arguments : List String) (folder : Folder) : Except UsageError Report :=
  match Invocation.ofArguments arguments with
  | .error e => .error e
  | .ok (.tell notice) => .ok (.ofNotice notice)
  | .ok (.run request) => .ok (request.report folder)

end Command
end EchoScript
