import Seidel.Command.Report

/-!
The program: reads its arguments, a file or standard input, and prints what the command prints.
-/

namespace Seidel

/-- What a file holds. -/
def readFile (name : String) : IO (Except FileFault ByteArray) := do
  try
    return .ok (← IO.FS.readBinFile name)
  catch
    | .noFileOrDirectory .. => return .error .notFound
    | .inappropriateType .. => return .error .isDirectory
    | _ => return .error .other

/-- Standard input, up to a blank line or its end. -/
partial def readInput (input : IO.FS.Stream) (bytes : ByteArray) : IO ByteArray := do
  let chunk ← input.read 4096
  let bytes := bytes ++ chunk
  if chunk.isEmpty || Lines.isComplete bytes then return bytes else readInput input bytes

/-- What is said about a failure. -/
def Failure.message : Failure → String
  | .usage => "usage: solve [-f FILE] [-n COUNT] [--format text|json], or check [-f FILE]"
  | .problem cause => cause.message
  | .system cause => cause.message
  | .solver cause => cause.message
  | .input fault => "I/O error: " ++ fault.message

end Seidel

open Seidel in
def main (arguments : List String) : IO UInt32 := do
  let outcome ← match Command.ofArguments? arguments with
    | none => pure ⟨"", some .usage⟩
    | some c => do
      IO.print c.preamble
      (← IO.getStdout).flush
      let content ← match c.file? with
        | some file => readFile file
        | none => .ok <$> readInput (← IO.getStdin) ByteArray.empty
      pure (c.continuation content)
  IO.print outcome.output
  if let some failure := outcome.failure then
    IO.eprintln ("Error: " ++ failure.message)
  return outcome.status.toUInt32
