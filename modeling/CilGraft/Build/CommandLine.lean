import CilGraft.Build.Request
import CilGraft.Disk.Access
import CilGraft.Text.Blank
import CilGraft.Text.Digits
import CilGraft.Text.Lines

/-!
# Compilers on the command line

A compiler on the command line is given a source in an empty folder and writes the binary beside
it.

* `Tool` — the compilers that are known, and `Tool.detect`: the first that starts.
* `Invocation` — the program, its arguments, and the disk on which it starts.
* `diagnosticsOf` — what a run that gave no binary says: its lines with the word `error`, or all of
  its lines, or how it ended.
* `compile` — a request answered by a run.
-/

set_option autoImplicit false

namespace CilGraft

/-- A compiler on the command line. -/
inductive Tool where
  | csc
  | mcs
  deriving DecidableEq, Repr

namespace Tool

/-- The compilers in the order in which they are looked for. -/
def all : List Tool := [.csc, .mcs]

/-- The name of the program. -/
def program : Tool → String
  | .csc => "csc"
  | .mcs => "mcs"

/-- The first compiler that starts. -/
def detect (starts : Tool → Bool) : Option Tool := all.find? starts

end Tool

namespace CommandLine

/-- How a program ended. -/
inductive ExitStatus where
  | code (n : Nat)
  /-- ended by a signal with this name -/
  | signal (n : Nat) (name : String)
  deriving DecidableEq, Repr

/-- The wording of an end. -/
def ExitStatus.text : ExitStatus → String
  | .code n => "exit status: " ++ String.ofList (Text.decimal n)
  | .signal n name => "signal: " ++ String.ofList (Text.decimal n) ++ " (" ++ name ++ ")"

/-- A program that ran. -/
structure Run where
  stdout : Bytes
  stderr : Bytes
  status : ExitStatus
  deriving DecidableEq, Repr

/-- What running a program with arguments does to a disk; an error means that it did not start. -/
abbrev Launcher := Disk → Path → List String → Except DiskError (Run × Disk)

/-- A program that is about to run. -/
structure Invocation where
  program : Path
  arguments : List String
  /-- the file from which the program reads the source -/
  source : Path
  /-- the file to which the program writes the binary -/
  output : Path
  disk : Disk

/-- The arguments of a compiler. -/
def argumentsOf (tool : Tool) (references : List Path) (source output : Path) : List String :=
  ["-target:library", "-optimize+"] ++ (if tool = .csc then ["-nologo"] else []) ++
    ["-out:" ++ output.text] ++ references.map (fun r => "-reference:" ++ r.text) ++ [source.text]

/-- The invocation for a request, with the source written to an empty folder. -/
def invocation (tool : Tool) (program scratch : Path) (d : Disk) (r : Request) :
    Except Error Invocation :=
  let source := scratch.child (r.assemblyName ++ ".cs")
  let output := scratch.child (r.assemblyName ++ ".dll")
  match d.writeFile source (Text.Utf8.encode r.source.toList) with
  | .error e => .error (.onDisk source e)
  | .ok disk =>
    .ok { program, arguments := argumentsOf tool r.references source output, source, output, disk }

/-- The lines of an output that are not blank. -/
def outputLines (bytes : Bytes) : List (List Char) :=
  ((Text.lines (Text.Utf8.decodeLossy bytes)).map Text.trim).filter (!·.isEmpty)

/-- What a run that gave no binary says. -/
def diagnosticsOf (run : Run) : List String :=
  let lines := outputLines run.stdout ++ outputLines run.stderr
  let errors := lines.filter (Text.hasPiece "error".toList)
  if !errors.isEmpty then errors.map String.ofList
  else if !lines.isEmpty then lines.map String.ofList
  else ["Compiler exited with " ++ run.status.text]

/-- What a run gives: the binary when the program succeeded and wrote one. -/
def outcome (i : Invocation) : Except DiskError (Run × Disk) → Except Error Output
  | .error e => .error (.cannotExecute i.program e)
  | .ok (run, d) =>
    if run.status = .code 0 ∧ d.isFile i.output then
      match d.readFile i.output with
      | .error e => .error (.onDisk i.output e)
      | .ok content => .ok (.binary content)
    else .ok (.diagnostics (diagnosticsOf run))

/-- A request answered by a run of a program. -/
def compile (launch : Launcher) (tool : Tool) (program scratch : Path) (d : Disk) (r : Request) :
    Except Error Output :=
  match invocation tool program scratch d r with
  | .error e => .error e
  | .ok i => outcome i (launch i.disk i.program i.arguments)

end CommandLine

end CilGraft
