import BuildSync.Command.Run

/-!
The program: it reads the files that a command names, runs the command on them, and writes the
target back.
-/

namespace BuildSync

def Command.paths : Command → List String
  | rpms workspace manifest _ => [workspace, manifest]
  | rpmtree buildfile _ manifest _ _ => [buildfile, manifest]

def readEntry (path : String) : IO (Option Entry) := do
  try
    return some (.file (← IO.FS.readBinFile path).toList)
  catch
    | .inappropriateType .. => return some .directory
    | _ => return none

def readAlong (tree : FileTree) (above : Option String) (place : Place) : List String → IO FileTree
  | [] => return tree
  | name :: rest => do
    let path := above.elim name (· ++ "/" ++ name)
    let place := FileTree.step place name
    if place = [] then readAlong tree (some path) place rest
    else
      match ← readEntry path with
      | none => return tree
      | some entry => readAlong (tree.insert place entry) (some path) place rest

def readPaths (paths : List String) : IO FileTree :=
  paths.foldlM (fun tree path => readAlong tree none [] (Path.names path).reverse) FileTree.empty

def writeBack (env : Environment) (tree : FileTree) (path : String) : IO Unit := do
  if let .ok bytes := tree.read path then
    let scratch := Path.scratch path env.process.number
    IO.FS.writeBinFile scratch (ByteArray.mk bytes.toArray)
    try
      IO.FS.rename scratch path
    catch e =>
      IO.FS.removeFile scratch
      throw e

def wantsColor : IO Bool := do
  let force ← IO.getEnv "CLICOLOR_FORCE"
  let plain ← IO.getEnv "NO_COLOR"
  let colors ← IO.getEnv "CLICOLOR"
  if force.any (· ≠ "0") then return true
  else if plain.isSome then return false
  else if colors = some "0" then return false
  else return ← (← IO.getStdout).isTty

def runMain (arguments : List String) : IO UInt32 := do
  let env : Environment := ⟨.free (← IO.monoNanosNow), ← wantsColor, ← IO.getEnv "BAZELDNF_MANIFEST"⟩
  let command :=
    match Request.ofArguments arguments env.manifest with
    | .run command => some command
    | _ => none
  let tree ← readPaths (command.elim [] Command.paths)
  let (after, ending) := runProgram env tree arguments
  if let some command := command then
    if ending.exit = 0 && command.output == .write then
      writeBack env after (command.paths.headD "")
  IO.print ending.output
  match ending.error with
  | some e => IO.eprintln e
  | none => if ending.exit = 2 then IO.eprint usage
  return ending.exit.toUInt32

end BuildSync

def main (arguments : List String) : IO UInt32 := BuildSync.runMain arguments
