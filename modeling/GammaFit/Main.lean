import GammaFit.Command.Run

/-!
# The command line

Reads the files the command line names, runs the command on them, and writes what it
produces. Everything the command decides is in `runCommand`; this layer only moves bytes.
-/

namespace GammaFit.Cli

/-- What a path holds on disk: its bytes, a directory, or nothing readable. -/
def readEntry (path : String) : IO (Option Entry) := do
  try
    return some (.file (← IO.FS.readBinFile path))
  catch e =>
    match e with
    | .inappropriateType .. => return some .directory
    | _ => return none

/-- The files a run may read: the spectrum and the settings file. -/
def readInputs (o : Options) : IO (List (String × Entry)) := do
  let paths := o.spectrum :: o.config.toList
  let mut found := []
  for p in paths do
    if let some e ← readEntry p then found := found ++ [(p, e)]
  return found

/-- Write one produced file, making its directory first. -/
def writeOut (w : Written) : IO Unit := do
  match w.directory with
  | some dir =>
    IO.FS.createDirAll dir
    IO.FS.writeFile (dir ++ "/" ++ w.name) w.content.render
  | none => IO.FS.writeFile w.name w.content.render

end GammaFit.Cli

open GammaFit GammaFit.Cli in
/-- Run the command on the process's arguments and exit with its status. -/
def main (args : List String) : IO UInt32 := do
  let inputs ← match parseOptions args with
    | .run o => readInputs o
    | .exit _ => pure []
  let look (p : String) : Option Entry := (inputs.find? (·.1 == p)).map (·.2)
  let (result, _) := (runCommand args look).run.run 1
  match result with
  | .ok r =>
    for w in r.written do writeOut w
    return r.status.toUInt32
  | .error e =>
    IO.eprintln (e.kindName ++ ": " ++ e.message)
    return 1
