import Phrasebook.CommandLine

/-!
# The command line

Runs the programs on the real system. `--validate` as the first argument checks the datasets of a
manifest; without it, strings are shown. There is no network: addresses never answer.
-/

namespace Phrasebook.CommandLine

/-- What an action gives, or why the system refused it. -/
def guarded {ε α : Type} (fault : IO.Error → ε) (action : IO α) : IO (Except ε α) := do
  match ← action.toBaseIO with
  | .ok value => return .ok value
  | .error refusal => return .error (fault refusal)

def readFault : IO.Error → ReadFault
  | .noFileOrDirectory name code detail =>
    .missing (toString (IO.Error.noFileOrDirectory name code detail))
  | refusal => .refused (toString refusal)

def systemHost : Host IO where
  readText path := guarded readFault (IO.FS.readFile path)
  createFolders path := if path.isEmpty then return .ok () else
    guarded toString (IO.FS.createDirAll path)
  writeText path text := guarded toString (IO.FS.writeFile path text)
  request _ := return .error "there is no network"
  wait duration := IO.sleep duration.millis.toUInt32

def variableNames : List String :=
  ["STRINGS_MANIFEST", "STRINGS_MODE", "STRINGS_LOCALE", "STRINGS_PREFERENCE_DIR",
    "STRINGS_FADE_MS"] ++ localeVariables

def environment : IO Environment :=
  variableNames.filterMapM fun name => return (← IO.getEnv name).map fun value => (name, value)

/-- Prints what a program printed, and its complaint if it has one. -/
def report (exit : Exit) : IO UInt32 := do
  for line in exit.lines do
    IO.println line
  match exit.complaint with
  | [] => pure ()
  | headline :: causes => do
    IO.eprintln ("Error: " ++ headline)
    for cause in causes do
      IO.eprintln ("  because: " ++ cause)
  return exit.code.toUInt32

def run (arguments : List String) : IO UInt32 := do
  let env ← environment
  match arguments with
  | "--validate" :: rest => report (← checkDatasets systemHost env rest)
  | _ => report (← showStrings systemHost env arguments)

end Phrasebook.CommandLine

def main (arguments : List String) : IO UInt32 := Phrasebook.CommandLine.run arguments
