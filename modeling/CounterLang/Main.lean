/-
The command: looks at the file, writes the report, ends with its exit code.
-/
import CounterLang.CommandLine.Report

namespace CounterLang
namespace CommandLine

/-- What a path names.  A path that can be opened but not read is taken for a directory. -/
def lookUp (path : String) : IO Entry := do
  match ← (IO.FS.Handle.mk path .read).toBaseIO with
  | .error _ => return .missing
  | .ok handle =>
    match ← handle.readBinToEnd.toBaseIO with
    | .error _ => return .directory
    | .ok bytes => return .file bytes.toList

def channelOf (stream : IO.FS.Stream) : IO Channel := do
  return if ← stream.isTty then .terminal else .file

end CommandLine
end CounterLang

open CounterLang in
def main (arguments : List String) : IO UInt32 := do
  let env : Environment :=
    ⟨← IO.getEnv "COUNTER_MACHINES_FILENAME", ← IO.getEnv "COUNTER_MACHINES_TRACE"⟩
  let report ← match CommandLine.plan arguments with
    | .done r => pure r
    | .look flags path extra => do
      let entry ← CommandLine.lookUp path
      pure (CommandLine.conclude Grammar.nestingLimit env flags path extra entry)
  IO.eprint (report.err (← CommandLine.channelOf (← IO.getStderr)))
  IO.print (report.out (← CommandLine.channelOf (← IO.getStdout)))
  return report.exit.number.toUInt32
