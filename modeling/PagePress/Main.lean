import PagePress.Command
import Std.Time.DateTime.Timestamp

/-!
The command line. It reads what the paths of a command lead to, the environment and the clock,
runs the command, and then writes the entries that the run has changed.
-/

namespace PagePress

/-- The name of a place for the operating system. -/
def nameOnDisk (place : Place) : String := .ofList (Path.text ⟨.top, place⟩)

/-- The code of the operating system for a folder where a file was wanted. -/
def folderCode : UInt32 := 21

/-- What stands at a place on the disk. -/
def entryOnDisk? (place : Place) : IO (Option FileEntry) := do
  try
    return some (.file (← IO.FS.readFile (nameOnDisk place)).toList)
  catch
    | .noFileOrDirectory .. => return none
    | .inappropriateType _ code _ => return if code = folderCode then some .folder else none
    | e => throw e

/-- Adds what stands on the disk along the parts of a path. -/
def readAlong (t : FileTree) (place : Place) : List (List Char) → IO FileTree
  | [] => return t
  | part :: rest => do
    match FileTree.step place part with
    | .error _ => return t
    | .ok next =>
      let t ← match ← entryOnDisk? next with
        | some entry => pure (t.put next entry)
        | none => pure t
      readAlong t next rest

/-- What stands on the disk along some paths. -/
def treeOnDisk (home : Place) (paths : List Path) : IO FileTree :=
  let empty : FileTree := { home }
  paths.foldlM (fun t p => readAlong t (t.start p) p.parts) empty

/-- Writes the entries of a tree that are new or changed, the earlier ones first. -/
def writeChanges (before after : FileTree) : IO Unit := do
  for (place, entry) in after.entries.reverse do
    if before.entryAt? place != some entry then
      match entry with
      | .folder => IO.FS.createDirAll (nameOnDisk place)
      | .file text => IO.FS.writeFile (nameOnDisk place) (.ofList text)

/-- What the clock of the machine shows, in UTC. -/
def clockNow : IO ClockReading := do
  let now ← Std.Time.Timestamp.now
  return .ofMicroseconds (now.toNanosecondsSinceUnixEpoch.val / 1000)

/-- The values of the variables that are set. -/
def readEnvironment (names : List String) : IO Environment :=
  names.filterMapM fun name => do return (← IO.getEnv name).map (name, ·)

/-- The settings file of the user. -/
def userConfig : IO Path := do
  let base ← IO.getEnv "HOME"
  return .ofText ((base.getD "") ++ "/.config/landing-pages/config.toml").toList

/-- Reports an error, which ends the program. -/
def report (message : String) : IO UInt32 := do
  IO.eprintln ("error: " ++ message)
  return 1

end PagePress

open PagePress in
def main (words : List String) : IO UInt32 := do
  let env ← readEnvironment Command.envNames
  match Command.read (← userConfig) env words with
  | .error e => report e.message
  | .ok command =>
    let home := (Path.ofText (← IO.currentDir).toString.toList).parts
    let tree ← treeOnDisk home command.paths
    let outcome := command.run tree env (← clockNow)
    writeChanges tree outcome.files
    for line in outcome.printed do IO.println line
    match outcome.failure with
    | some e => report e.message
    | none => return 0
