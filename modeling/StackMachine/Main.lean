import StackMachine.CommandLine

/-!
# The program

Reads the configuration file that the arguments name, carries out the command and ends with its
code.
-/

open StackMachine CommandLine

/-- The text of a file, or why it cannot be read. -/
def readConfig (path : String) : IO (Except String String) := do
  try return .ok (← IO.FS.readFile path)
  catch
    | .noFileOrDirectory .. => return .error ConfigError.missingFile
    | e => return .error e.toString

def main (args : List String) : IO UInt32 := do
  let outcome ← do
    match Invocation.parse args with
    | none => pure usageError
    | some invocation =>
      let config ←
        match invocation.config with
        | some path => readConfig path
        | none => pure (.ok "")
      let clock := Word.ofNat (← IO.monoMsNow)
      let seed := UInt64.ofNat (← IO.monoNanosNow)
      pure (invocation.execute config { clock, seed })
  (← IO.getStdout).putStr outcome.out
  (← IO.getStderr).putStr outcome.err
  return outcome.code.toUInt32
