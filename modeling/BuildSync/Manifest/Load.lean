import BuildSync.FileTree
import BuildSync.Json.Manifest
import BuildSync.Text.Lowercase
import BuildSync.Toml.Manifest
import BuildSync.Yaml.Manifest

namespace BuildSync

inductive Format where
  | toml
  | json
  | yaml
  deriving DecidableEq, Repr

namespace Format

def name : Format → String
  | toml => "TOML"
  | json => "JSON"
  | yaml => "YAML"

def ofExtension? (extension : String) : Option Format :=
  if extension = "toml" then some toml
  else if extension = "json" then some json
  else if extension = "yaml" ∨ extension = "yml" then some yaml
  else none

def manifest? (format : Format) (text : String) : Option Manifest :=
  match format with
  | toml => Toml.manifest? text
  | json => Json.manifest? text
  | yaml => Yaml.manifest? text

end Format

inductive ManifestError where
  | file (error : FileError)
  | malformed (path : String) (format : Format)
  | unsupported (extension : String)
  deriving DecidableEq, Repr

def ManifestError.message : ManifestError → String
  | file e => e.message
  | malformed path format => "Failed to parse " ++ format.name ++ " config at " ++ path
  | unsupported extension => "Unsupported config format: " ++ extension

def Manifest.load (tree : FileTree) (path : String) : Except ManifestError Manifest :=
  let extension := lowercase ((Path.extension? path).getD "")
  match Format.ofExtension? extension with
  | none => .error (.unsupported extension)
  | some format =>
    match tree.readText path with
    | .error e => .error (.file e)
    | .ok text =>
      match format.manifest? text with
      | none => .error (.malformed path format)
      | some manifest => .ok manifest

end BuildSync
