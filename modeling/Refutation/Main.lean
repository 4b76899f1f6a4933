import Refutation.Command.Response

/-!
The command line: reads the files, runs the searches against the clock of the machine, and writes
what the response says.
-/

namespace Refutation.Main

/-- Starts the clock of a query. -/
def startClock (limit : TimeLimit) : IO (Nat → IO Bool) := do
  let deadline := (← IO.monoNanosNow) + limit.nanoseconds
  return fun _ => return deadline < (← IO.monoNanosNow)

def fileError : IO.Error → FileError
  | .noFileOrDirectory _ _ _ => .notFound
  | .inappropriateType _ 21 _ => .isDirectory
  | error => .other (toString error)

/-- Everything that is left in a stream. -/
partial def readAll (stream : IO.FS.Stream) (bytes : ByteArray) : IO ByteArray := do
  let more ← stream.read 65536
  if more.isEmpty then return bytes else readAll stream (bytes ++ more)

def readInput (options : Options) : IO (Except FileError String) := do
  try
    let bytes ←
      if options.readsStandardInput then readAll (← IO.getStdin) .empty
      else IO.FS.readBinFile options.path
    match String.fromUTF8? bytes with
    | some text => return .ok text
    | none => return .error .notText
  catch error => return .error (fileError error)

def writeAnswers (options : Options) (text : String) : IO (Option FileError) := do
  try
    match options.output with
    | some path => IO.FS.writeFile path text
    | none =>
        let out ← IO.getStdout
        out.putStr text
        out.flush
    return none
  catch error => return some (fileError error)

def run (options : Options) : IO UInt32 := do
  let response ← options.respondM (startClock options.timeLimit) (← readInput options)
  let response ← match response.answers with
    | none => pure response
    | some text =>
        match ← writeAnswers options text with
        | none => pure response
        | some error => pure (response.unwritten error)
  for m in response.log do
    IO.eprintln m.line
  return response.status.toUInt32

end Refutation.Main

open Refutation in
def main (args : List String) : IO UInt32 :=
  match Request.ofArgs args with
  | .ok .help => do IO.print helpText; return 0
  | .ok .version => do IO.print versionText; return 0
  | .ok (.run options) => Main.run options
  | .error error => do IO.eprintln s!"error: {error.message}"; return error.status.toUInt32
