import BuildSync.Command.Arguments
import BuildSync.Command.Style
import BuildSync.Document.File
import BuildSync.Manifest.Load
import BuildSync.Sync.Bundle
import BuildSync.Sync.Rpms

namespace BuildSync

/-- Why a command fails. A rule of another shape than its kind has is no failure of the command but
of the file's author; it ends the program without a message of its own. -/
inductive CommandError where
  | manifest (error : ManifestError)
  | noPackages (manifest : String)
  | blankName
  | load (error : LoadError)
  | file (error : FileError)
  | shape (error : ShapeError)
  deriving DecidableEq, Repr

namespace CommandError

def message? : CommandError → Option String
  | manifest e => some e.message
  | noPackages path => some ("Manifest " ++ path ++ " lists no packages")
  | blankName => some "rpmtree name must not be empty"
  | load e => some e.message
  | file e => some e.message
  | shape _ => none

def exit : CommandError → Nat
  | shape _ => 101
  | _ => 1

end CommandError

structure Environment where
  process : Process
  colored : Bool
  manifest : Option String

structure Ending where
  exit : Nat
  output : String
  error : Option String
  deriving DecidableEq, Repr

def shownLines (text : List Char) (line : List Char) : List (List Char) :=
  match text with
  | [] => if line = [] then [] else [line.reverse]
  | '\r' :: '\n' :: rest => line.reverse :: shownLines rest []
  | '\n' :: rest => line.reverse :: shownLines rest []
  | c :: rest => shownLines rest (c :: line)

def diffStyle (line : String) : Option Style :=
  if line.startsWith "+++" ∨ line.startsWith "---" then some .bold
  else if line.startsWith "+" then some .green
  else if line.startsWith "-" then some .red
  else if line.startsWith "@@" then some .cyan
  else none

def paintedLine (colored : Bool) (line : String) : String :=
  (diffStyle line).elim line fun style => style.paint colored line

def paintedDiff (colored : Bool) (diff : String) : String :=
  (shownLines diff.toList []).foldr
    (fun line rest => paintedLine colored (String.ofList line) ++ "\n" ++ rest) ""

namespace Command

def summary (colored : Bool) (report : Report) (kind path : String) : String :=
  Style.boldGreen.paint colored "OK" ++ " " ++ toString report.total ++ " " ++ kind ++ " rules in " ++
    Style.cyan.paint colored path ++ " (" ++ toString report.created ++ " new, " ++
    toString report.updated ++ " updated)\n"

def finish (env : Environment) (tree : FileTree) (output : Output) (doc : Document) (report : Report)
    (kind path : String) : FileTree × Except CommandError String :=
  match output with
  | .write =>
    match doc.save tree env.process path with
    | (tree, .error e) => (tree, .error (.file e))
    | (tree, .ok _) => (tree, .ok (summary env.colored report kind path))
  | .dryRun => (tree, .ok doc.text)
  | .diff =>
    match doc.preview tree path with
    | .error e => (tree, .error (.file e))
    | .ok diff =>
      (tree, .ok (if diff = "" then
        Style.boldGreen.paint env.colored "OK" ++ " " ++ path ++ " is up to date\n"
        else paintedDiff env.colored diff))

def syncRpms (tree : FileTree) (workspace manifest : String) :
    Except CommandError (Report × Document) := do
  let m ← (Manifest.load tree manifest).mapError .manifest
  if m.packages.isEmpty then throw (.noPackages manifest)
  let doc ← (Document.load tree workspace .workspace).mapError .load
  (doc.addRpms m.packages).mapError .shape

def syncBundle (tree : FileTree) (buildfile name manifest : String) (files : List String) :
    Except CommandError (Report × Document) := do
  if name.toList.all isBlank then throw .blankName
  let m ← (Manifest.load tree manifest).mapError .manifest
  let doc ← (Document.load tree buildfile .build).mapError .load
  return doc.addBundle name m.packages (if files.isEmpty then m.files else files)

def run (env : Environment) (tree : FileTree) : Command → FileTree × Except CommandError String
  | rpms workspace manifest output =>
    match syncRpms tree workspace manifest with
    | .error e => (tree, .error e)
    | .ok (report, doc) => finish env tree output doc report rpmKind workspace
  | rpmtree buildfile name manifest files output =>
    match syncBundle tree buildfile name manifest files with
    | .error e => (tree, .error e)
    | .ok (report, doc) => finish env tree output doc report bundleKind buildfile

end Command

def usage : String :=
  "Usage: bazeldnf [-v] <COMMAND>\n\n" ++
  "Commands:\n" ++
  "  rpms     Write one rpm rule per package of a manifest into a WORKSPACE file\n" ++
  "  rpmtree  Write a bundle of the packages of a manifest into a BUILD file\n\n" ++
  "Options of both commands:\n" ++
  "  -m, --manifest <FILE>   Package manifest (.toml, .json, .yaml)\n" ++
  "      --dry-run           Print the updated file instead of writing it\n" ++
  "      --diff              Print a unified diff instead of writing the file\n\n" ++
  "Options of rpms:\n" ++
  "  -w, --workspace <FILE>  File to update [default: WORKSPACE]\n\n" ++
  "Options of rpmtree:\n" ++
  "  -b, --buildfile <FILE>  File to update [default: BUILD.bazel]\n" ++
  "  -n, --name <NAME>       Name of the rule\n" ++
  "  -f, --file <FILE>       File to show; may be repeated\n"

def runProgram (env : Environment) (tree : FileTree) (arguments : List String) : FileTree × Ending :=
  match Request.ofArguments arguments env.manifest with
  | .help => (tree, ⟨0, usage, none⟩)
  | .version => (tree, ⟨0, "bazeldnf 0.1.0\n", none⟩)
  | .misuse => (tree, ⟨2, "", none⟩)
  | .run command =>
    match command.run env tree with
    | (tree, .ok output) => (tree, ⟨0, output, none⟩)
    | (tree, .error e) =>
      (tree, ⟨e.exit, "", e.message?.map fun m =>
        Style.boldRed.paint env.colored "error" ++ ": " ++ m⟩)

end BuildSync
