import StackLang.CommandLine.Command

/-!
# The command

Looks up the files the arguments name, carries out the command, and writes what it changed. No
other program is started, so nothing is built with the tools of the system.
-/

namespace StackLang.CommandLine

def probe (path : String) : IO (Option FileNode) := do
  try
    return some (.bytes (← IO.FS.readBinFile path).toList)
  catch
    | .noFileOrDirectory _ _ _ => return none
    | _ => return some .directory

/-- Adds what stands at a path, and at the directories on the way, to the files known. -/
def gather (files : FileTree) (path : Path) : IO FileTree := do
  let mut files := files
  for n in List.range path.parts.length do
    let name := FileTree.key (path.root != "") (path.parts.take (n + 1))
    match ← probe name with
    | some node => files := files.put name node
    | none => return files
  return files

def namedPaths (arguments : List String) : List Path :=
  match ({} : Reading).readAll arguments with
  | .ok r => [r.value? .file, r.value? .output].filterMap fun v => v.map Path.ofString
  | .error _ => []

end StackLang.CommandLine

open StackLang CommandLine in
def main (arguments : List String) : IO UInt32 := do
  let files ← (namedPaths arguments).foldlM gather {}
  let outcome := perform .absent files arguments
  for (name, content) in files.changes outcome.files do
    IO.FS.writeFile name content
  (← IO.getStdout).putStr outcome.stdout
  (← IO.getStderr).putStr outcome.stderr
  return UInt32.ofNat outcome.exitCode
