import Arithmetization.Command.Run

/-! # The program

Gathers what the command line may read, runs it and writes the outcome. The number of columns of the
terminal is not asked for, so text reports have the width that they have without a terminal.
-/

namespace Arithmetization.Command

/-- The content of a file, or the message of the system if it cannot be read. -/
def readFile (name : String) : IO (Except String ByteArray) := do
  try return .ok (← IO.FS.readBinFile name)
  catch error => return .error (toString error)

/-- Everything that is left of a stream. -/
partial def readStream (stream : IO.FS.Stream) (content : ByteArray) : IO ByteArray := do
  let bytes ← stream.read 65536
  if bytes.isEmpty then return content else readStream stream (content ++ bytes)

/-- The standard input, or the message of the system if it cannot be read. -/
def readStdin : IO (Except String ByteArray) := do
  try return .ok (← readStream (← IO.getStdin) .empty)
  catch error => return .error (toString error)

/-- Whether the terminal shows colors, as far as the environment says. -/
def showsColors : IO Bool := do
  let terminal ← IO.getEnv "TERM"
  let refusal ← IO.getEnv "NO_COLOR"
  return terminal.any (· != "dumb") && refusal.isNone

/-- The texts that the program shows without wording them itself. -/
def wording : Wording where
  usage _ := "usage: hygodel [OPTIONS]\n"
  help := "usage: hygodel [OPTIONS]\n"
  settingsFault _ := "not a document of settings"

/-- What a command line can see of the system. -/
def gather (arguments : List String) : IO Surroundings := do
  let files ← (filesRead arguments).mapM fun name => return (name, ← readFile name)
  let stdin ← if readsStdin arguments then readStdin else pure (.ok .empty)
  return {
    stdin
    file := fun name => (files.lookup name).getD (.error "not read")
    color := ← showsColors
    columns := none
    wording }

end Arithmetization.Command

def main (arguments : List String) : IO UInt32 := do
  let outcome := Arithmetization.Command.run (← Arithmetization.Command.gather arguments) arguments
  (← IO.getStderr).putStr outcome.stderr
  (← IO.getStdout).putStr outcome.stdout
  return outcome.status.toUInt32
