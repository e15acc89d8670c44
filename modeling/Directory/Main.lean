import Directory.CommandLine.Run

/-!
# The program

Reads what the command asks for, runs it and writes what it has to say. Errors also go to the error
stream; arguments that make no sense end the program with code 2.
-/

namespace Directory

/-- The text in a file or stream, or the reason why there is none. -/
def readText (read : IO ByteArray) : IO (Except String String) := do
  try
    let bytes ← read
    match String.fromUTF8? bytes with
    | some s => return .ok s
    | none => return .error "stream did not contain valid UTF-8"
  catch e => return .error (toString e)

/-- All bytes that are left in a stream. -/
partial def readAll (h : IO.FS.Stream) (acc : ByteArray) : IO ByteArray := do
  let chunk ← h.read 65536
  if chunk.isEmpty then return acc else readAll h (acc ++ chunk)

/-- Run a command for real. -/
def CommandLine.perform (c : CommandLine) : IO UInt32 := do
  let input ← if c.readsInput then readText do readAll (← IO.getStdin) .empty else pure (.ok "")
  let content ←
    match c.fixture? with
    | some path => readText (IO.FS.readBinFile path)
    | none => pure (.ok "")
  let o := c.run content input
  let out ← IO.getStdout
  out.putStr o.output
  match o.failure with
  | none => return 0
  | some err =>
    out.putStr (CommandLine.line err.toJson)
    (← IO.getStderr).putStrLn err.display
    return UInt32.ofNat o.exitCode

end Directory

open Directory in
/-- The entry point. -/
def main (args : List String) : IO UInt32 := do
  match CommandLine.ofArguments? args with
  | some c => c.perform
  | none =>
    (← IO.getStderr).putStr HelpTopic.program.text
    return 2
