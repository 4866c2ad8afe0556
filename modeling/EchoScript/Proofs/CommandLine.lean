import EchoScript.Command.Report
import EchoScript.Proofs.Arguments
import EchoScript.Proofs.Outlines
import EchoScript.Proofs.Truncation

/-!
# EchoScript.Proofs.CommandLine

The command runs scripts as `Script.output` does.

The command goes through the stages of a script by itself, to write out lexemes and trees between
them. `Request.perform_eq` says that nothing else comes of it: its report is made from the script's
output or error and from what was written out (`Request.dumps`).
-/

namespace EchoScript

/-- What statements write is text. -/
theorem Statement.exists_text (env : Environment) (ss : List Statement) :
    ∃ text : String, (effect env ss).2 = text.toUTF8 := by
  induction ss generalizing env with
  | nil => exact ⟨"", rfl⟩
  | cons s rest ih =>
    cases s with
    | echo value line =>
      obtain ⟨text, htext⟩ := ih env
      refine ⟨(value.eval env).print ++ "\n" ++ text, ?_⟩
      rw [effect, htext, Value.line]
      exact String.toByteArray_append.symm
    | assign name value line => exact ih (env.set name (value.eval env))

namespace Script

variable {source : String}

theorem output_of_statements {ss : List Statement} (h : statements source = .ok ss) :
    output source = .ok (Statement.effect .empty ss).2 := by
  simp only [output, run, h, Sink.unlimited, Statement.executeAll_unlimited, Option.map_none,
    ByteArray.empty_append]

theorem output_of_error {e : ScriptError} (h : statements source = .error e) :
    output source = .error e := by
  simp only [output, run, h]

theorem output_eq_ok {bytes : ByteArray} (h : output source = .ok bytes) :
    ∃ text : String, bytes = text.toUTF8 := by
  cases hss : statements source with
  | error e =>
    rw [output_of_error hss] at h
    cases h
  | ok ss =>
    rw [output_of_statements hss] at h
    obtain ⟨text, htext⟩ := Statement.exists_text .empty ss
    exact ⟨text, (Except.ok.inj h).symm.trans htext⟩

theorem output_eq_error {e : ScriptError} :
    output source = .error e ↔ (run ⟨.empty, .unlimited⟩ source).error = some e := by
  simp only [output]
  cases herror : (run ⟨.empty, .unlimited⟩ source).error <;> simp

end Script

namespace Command

/-- The report on a script, from its output or error and from what was written out on the way. -/
def Report.ofResult (dumps : String) (warned : Bool) : Except ScriptError ByteArray → Report
  | .ok bytes => ⟨0, bytes, dumps, warned⟩
  | .error e => ⟨1, .empty, dumps ++ errorLine e.message, warned⟩

namespace Request

/-- What is written out for a request: the lexemes, if asked for and if there are any, each on a line,
and then the statements, likewise, each on the lines of its outline. -/
def dumps (r : Request) (source : String) : String :=
  (match Token.ofSource source with
    | .ok lexemes =>
      if r.dumpTokens then Text.ofLines (lexemes.map fun l => String.ofList l.line) else ""
    | .error _ => "") ++
  (match Script.statements source with
    | .ok ss => if r.dumpTree then Text.ofLines (ss.flatMap fun s => s.outline.lines) else ""
    | .error _ => "")

theorem perform_eq (r : Request) (source : String) :
    r.perform source = .ofResult (r.dumps source) false (Script.output source) := by
  -- One case for each stage that a script can fail in; the last one cannot fail here.
  cases hlexemes : Token.ofSource source with
  | error e =>
    have hss : Script.statements source = .error (.lexical e) := by
      simp only [Script.statements, hlexemes]
    simp only [perform, dumps, hlexemes, hss, Script.output_of_error hss, Report.ofResult,
      String.empty_append]
    rfl
  | ok lexemes =>
    cases htrees : Statement.listOfTokens lexemes with
    | error e =>
      have hss : Script.statements source = .error (.syntactic e) := by
        simp only [Script.statements, hlexemes, htrees]
      simp only [perform, dumps, hlexemes, htrees, hss, Script.output_of_error hss, Report.ofResult,
        Lexeme.dumpAll_eq, String.append_empty]
      rfl
    | ok ss =>
      have hss : Script.statements source = .ok ss := by
        simp only [Script.statements, hlexemes, htrees]
      simp only [perform, dumps, hlexemes, htrees, hss, Script.output_of_statements hss,
        Lexeme.dumpAll_eq, Statement.dumpAll_eq, Report.ofResult, Sink.unlimited,
        Statement.executeAll_unlimited, ByteArray.empty_append]

/-- The text of the script that the request runs: the built-in one, or what its file holds. -/
def Runs (r : Request) (folder : Folder) (source : String) : Prop :=
  match r.file with
  | none => source = Script.demo
  | some path => folder.read path = .ok source

theorem report_eq {r : Request} {folder : Folder} {source : String} (h : r.Runs folder source) :
    r.report folder = .ofResult (r.dumps source) r.warns (Script.output source) := by
  unfold Runs at h
  cases hfile : r.file with
  | none =>
    simp only [hfile] at h
    simp only [report, warns, hfile, perform_eq, h, Option.any_none]
  | some path =>
    simp only [hfile] at h
    simp only [report, hfile, h, performFile, perform_eq]
    cases Script.output source <;> rfl

end Request

theorem report_of_leadsTo {arguments : List String} {request : Request} {folder : Folder}
    {source : String} (harguments : Request.start.LeadsTo arguments request)
    (hsource : request.Runs folder source) : report arguments folder =
      .ok (.ofResult (request.dumps source) request.warns (Script.output source)) := by
  have hrun : Invocation.ofArguments arguments = .ok (.run request) :=
    Request.complete_eq_run.2 harguments
  simp only [report, hrun, Request.report_eq hsource]

/-- Wherever the flags stand among the arguments, the command succeeds exactly if the script has an
output. It writes out this output, which is text, and nothing if the script fails; to its error
output it writes what the flags ask for, and then the script's error if there is one. So the flags
change neither the exit status nor the output. -/
theorem report_as_output {arguments : List String} {request : Request} {folder : Folder}
    {source : String} (harguments : Request.start.LeadsTo arguments request)
    (hsource : request.Runs folder source) :
    ∃ r, report arguments folder = .ok r ∧
      (r.exit = 0 ↔ ∃ bytes, Script.output source = .ok bytes) ∧
      (r.exit ≠ 0 → r.exit = 1) ∧
      (∀ bytes, Script.output source = .ok bytes →
        (∃ text : String, bytes = text.toUTF8) ∧
        r.stdout = bytes ∧ r.stderr = request.dumps source) ∧
      (∀ e, (Script.run ⟨.empty, .unlimited⟩ source).error = some e →
        r.stdout = .empty ∧ r.stderr = request.dumps source ++ errorLine e.message) ∧
      ∀ others otherRequest, Request.start.LeadsTo others otherRequest →
        otherRequest.file = request.file →
        ∃ r', report others folder = .ok r' ∧ r'.exit = r.exit ∧ r'.stdout = r.stdout := by
  refine ⟨_, report_of_leadsTo harguments hsource, ?_, ?_, ?_, ?_, ?_⟩
  · cases Script.output source <;> simp [Report.ofResult]
  · cases Script.output source <;> simp [Report.ofResult]
  · intro bytes hbytes
    rw [hbytes]
    exact ⟨Script.output_eq_ok hbytes, rfl, rfl⟩
  · intro e he
    rw [Script.output_eq_error.2 he]
    exact ⟨rfl, rfl⟩
  · intro others otherRequest hothers hfile
    have hruns : otherRequest.Runs folder source := by
      rw [Request.Runs, hfile]
      exact hsource
    refine ⟨_, report_of_leadsTo hothers hruns, ?_⟩
    cases Script.output source <;> exact ⟨rfl, rfl⟩

/-- A script that breaks off in a variable, in a file whose name looks like an option, and a script
with an output, of which all is written out. -/
theorem report_as_output_unfinished_and_finished :
    let folder : Folder :=
      ⟨[(["-a"], .file "echo $".toUTF8), (["b.fab"], .file "echo [$k = \"v\"].$k".toUTF8)]⟩
    let request : Request := ⟨some "-a", true, false⟩
    let both : Request := ⟨some "b.fab", true, true⟩
    (Request.start.LeadsTo ["--dump-tokens", "--", "-a"] request ∧ request.Runs folder "echo $" ∧
      ∃ r, report ["--dump-tokens", "--", "-a"] folder = .ok r ∧ r.exit = 1 ∧ r.stdout = .empty ∧
        r.stderr = "1:1\t'echo'\t\"echo\"\n1:6\t'$'\t\"$\"\n1:7\tend of input\t\"\"\n" ++
          "Error: Syntax error at line 1, column 7: expected variable name after $, " ++
          "found end of input.\n") ∧
    Request.start.LeadsTo ["--dump-ast", "b.fab", "--dump-tokens"] both ∧
      both.Runs folder "echo [$k = \"v\"].$k" ∧
      ∃ r, report ["--dump-ast", "b.fab", "--dump-tokens"] folder = .ok r ∧
        r.exit = 0 ∧ r.stdout = "v\n".toUTF8 ∧
        r.stderr = Text.ofLines [
            "1:1\t'echo'\t\"echo\"",
            "1:6\t'['\t\"[\"",
            "1:7\t'$'\t\"$\"",
            "1:8\tidentifier 'k'\t\"k\"",
            "1:10\t'='\t\"=\"",
            "1:12\tstring \"v\"\t\"\\\"v\\\"\"",
            "1:15\t']'\t\"]\"",
            "1:16\t'.'\t\".\"",
            "1:17\t'$'\t\"$\"",
            "1:18\tidentifier 'k'\t\"k\"",
            "1:19\tend of input\t\"\""] ++
          Text.ofLines [
            "Echo \x7b",
            "    expr: PathAccess \x7b",
            "        base: MapLiteral \x7b",
            "            entries: [",
            "                (",
            "                    \"k\",",
            "                    StringLiteral \x7b",
            "                        value: \"v\",",
            "                        line: 1,",
            "                    \x7d,",
            "                ),",
            "            ],",
            "            line: 1,",
            "        \x7d,",
            "        key: \"k\",",
            "        line: 1,",
            "    \x7d,",
            "    line: 1,",
            "\x7d"] := by
  intro folder request both
  refine ⟨?unfinished, ?finished⟩
  case unfinished =>
    have harguments : Request.start.LeadsTo ["--dump-tokens", "--", "-a"] request :=
      ⟨by simp [options, isFlag_iff], by decide, by simp only [Flag.forall_iff]; decide, by decide⟩
    have hsource : request.Runs folder "echo $" := by
      simp only [Request.Runs, request]
      rfl
    have hts : Token.ofSource "echo $" = .ok [⟨.echo, "echo", ⟨1, 1⟩⟩, ⟨.dollar, "$", ⟨1, 6⟩⟩,
        ⟨.endOfInput, "", ⟨1, 7⟩⟩] := by
      with_unfolding_all rfl
    have hss : Script.statements "echo $" =
        .error (.syntactic ⟨.variableName, .endOfInput, ⟨1, 7⟩⟩) := by
      simp [Script.statements, hts, Statement.listOfTokens, readStatement, readExpr, readName,
        Reading.map, Reading.widen, Failure.consuming, SyntaxError.unmet]
    obtain ⟨r, hreport, hexit, hone, -, hfailed, -⟩ := report_as_output harguments hsource
    have herror := Script.output_of_error hss
    obtain ⟨hstdout, hstderr⟩ := hfailed _ (Script.output_eq_error.1 herror)
    refine ⟨harguments, hsource, r, hreport, hone ?_, hstdout, ?_⟩
    · rw [ne_eq, hexit, herror]
      simp
    · rw [hstderr]
      simp only [Request.dumps, hts, hss]
      rfl
  case finished =>
    have harguments : Request.start.LeadsTo ["--dump-ast", "b.fab", "--dump-tokens"] both :=
      ⟨by simp [options, isFlag_iff, IsFileName], by decide, by simp only [Flag.forall_iff]; decide,
        by decide⟩
    have hsource : both.Runs folder "echo [$k = \"v\"].$k" := by
      simp only [Request.Runs, both]
      rfl
    have hts : Token.ofSource "echo [$k = \"v\"].$k" = .ok [⟨.echo, "echo", ⟨1, 1⟩⟩,
        ⟨.openBracket, "[", ⟨1, 6⟩⟩, ⟨.dollar, "$", ⟨1, 7⟩⟩, ⟨.identifier "k", "k", ⟨1, 8⟩⟩,
        ⟨.equals, "=", ⟨1, 10⟩⟩, ⟨.string "v", "\"v\"", ⟨1, 12⟩⟩, ⟨.closeBracket, "]", ⟨1, 15⟩⟩,
        ⟨.dot, ".", ⟨1, 16⟩⟩, ⟨.dollar, "$", ⟨1, 17⟩⟩, ⟨.identifier "k", "k", ⟨1, 18⟩⟩,
        ⟨.endOfInput, "", ⟨1, 19⟩⟩] := by
      with_unfolding_all rfl
    have hss : Script.statements "echo [$k = \"v\"].$k" =
        .ok [.echo (.path (.map [("k", .string "v" 1)] 1) "k" 1) 1] := by
      simp [Script.statements, hts, Statement.listOfTokens, readStatement, readExpr, readMap,
        readEntries, readPath, readBinder, readToken, readName, Reading.map, Reading.widen]
    have houtput := Script.output_of_statements hss
    obtain ⟨r, hreport, hexit, -, hdone, -⟩ := report_as_output harguments hsource
    obtain ⟨-, hstdout, hstderr⟩ := hdone _ houtput
    refine ⟨harguments, hsource, r, hreport, hexit.2 ⟨_, houtput⟩, hstdout, ?_⟩
    rw [hstderr]
    simp only [Request.dumps, hts, hss, both, if_true]
    refine congrArg₂ (· ++ ·) (congrArg Text.ofLines ?_) (congrArg Text.ofLines ?_)
    · rfl
    · rfl

end Command
end EchoScript
