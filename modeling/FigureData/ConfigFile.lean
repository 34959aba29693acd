/-
  Configuration files: YAML records, all of whose fields have defaults.
-/
import FigureData.Config
import FigureData.FileTree.Path
import FigureData.Yaml.Fields
import FigureData.Yaml.Reader

namespace FigureData

namespace OutputForm

def ofYaml? (document y : Yaml) : Option OutputForm := do
  let members ← document.asRecord? y
  let default : OutputForm := {}
  return {
    delimiter := ← document.member? members "delimiter" Yaml.asChar? default.delimiter
    precision := ← document.member? members "precision"
      (Yaml.asOptional? (Yaml.asCount? 64)) default.precision }

end OutputForm

namespace Fault

def unreadableConfig (path : String) : Fault :=
  let fault : Fault :=
    { family := .io, code := "config_read", message := "configuration file cannot be read" }
  fault.withContext "path" path

def malformedConfig (path : String) : Fault :=
  let fault : Fault :=
    { family := .config, code := "yaml_deserialize", message := "content is not a configuration" }
  fault.withContext "path" path

end Fault

namespace Config

def ofYaml? (document : Yaml) : Option Config := do
  let members ← document.asRecord? document
  let default : Config := {}
  return {
    root := ← document.member? members "root" Yaml.asText? default.root
    precomputedFolder :=
      ← document.member? members "precomputed_dir" Yaml.asText? default.precomputedFolder
    ratioSentinel :=
      ← document.member? members "ratio_sentinel" Yaml.asFloat? default.ratioSentinel
    output := ← document.member? members "output" OutputForm.ofYaml? default.output }

/-- Reads the content of a configuration file, which may not be usable yet. -/
def read? (content : Bytes) : Option Config := (Yaml.read? content).bind ofYaml?

/-- Loads the configuration file at a path and validates it. -/
def load (path : String) (t : FileTree) : Except Fault Config :=
  match t.readAt? path with
  | none => .error (.unreadableConfig path)
  | some content =>
    match read? content with
    | none => .error (.malformedConfig path)
    | some config => config.validate.map fun _ => config

end Config

end FigureData
