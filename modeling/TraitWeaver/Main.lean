import TraitWeaver.CommandLine.Run

/-!
# The program

The command line on the file system of the machine.
-/

namespace TraitWeaver

/-- Runs an action on files, with a failure as a fault. -/
def attemptFile {α : Type} (action : IO α) : IO (Except FileFault α) := do
  match ← action.toBaseIO with
  | .ok a => return .ok a
  | .error (.noFileOrDirectory ..) => return .error .missing
  | .error e => return .error (.refused (toString e))

def machineFiles : FileSystem IO where
  read p := attemptFile (IO.FS.readFile p.text)
  isPresent p := do
    match ← attemptFile (IO.FS.Handle.mk p.text .read) with
    | .ok _ => return .ok true
    | .error .missing => return .ok false
    | .error fault => return .error fault
  makeDirectory p := do
    match ← attemptFile (IO.FS.createDir p.text) with
    | .error (.refused reason) =>
      if ← (System.mkFilePath [p.text]).isDir then return .ok ()
      else return .error (.refused reason)
    | result => return result
  Handle := IO.FS.Handle
  create p := attemptFile (IO.FS.Handle.mk p.text .write)
  write handle text := attemptFile do
    handle.putStr text
    handle.flush

end TraitWeaver

open TraitWeaver in
def main (args : List String) : IO UInt32 := do
  let outcome ← CommandLine.run machineFiles args
  IO.print outcome.output
  for line in outcome.reports do
    IO.eprintln line
  return UInt32.ofNat outcome.exitCode
