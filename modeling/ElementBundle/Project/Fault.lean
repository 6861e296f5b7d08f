import ElementBundle.Component.Error
import ElementBundle.Data.Json
import ElementBundle.Data.Yaml.Flaw
import ElementBundle.Disk.Tree

/-!
# What stops a project

The causes for which settings cannot be had or a build cannot go on. Some are reported to the user
as errors of the configuration; the others end the command that meets them.
-/

namespace ElementBundle.Project

inductive ConfigError where
  /-- The policy on errors is neither of the two. -/
  | unknownPolicy (shown : String)
  /-- The settings are no mapping. -/
  | notMapping (file : String)
  /-- The settings file cannot be read as YAML, for the cause that the reader gives. -/
  | badYaml (file cause : String)
  /-- The package file cannot be read as JSON, for the cause that the reader gives. -/
  | badJson (file cause : String)
  /-- There are no settings. -/
  | noSettings (root : String)
  /-- The directory of the components is missing. -/
  | noComponents (directory : String)
  deriving DecidableEq, Repr

def ConfigError.file? : ConfigError → Option String
  | .notMapping file | .badYaml file _ | .badJson file _ => some file
  | _ => none

def ConfigError.text : ConfigError → String
  | .unknownPolicy shown =>
    "Unknown on_error policy '" ++ shown ++ "' (expected one of abort, skip)"
  | .notMapping file => "Expected a mapping in " ++ file
  | .badYaml _ cause => "Invalid YAML: " ++ cause
  | .badJson _ cause => "Invalid JSON: " ++ cause
  | .noSettings root => "No composcript.yaml found in " ++ root ++ ", run 'composcript init' first"
  | .noComponents directory => "Components directory not found: " ++ directory

def ConfigError.message (e : ConfigError) : String :=
  Component.placed e.file? none e.text

inductive Fault where
  /-- An error of the configuration. -/
  | config (error : ConfigError)
  /-- A settings file with a value that cannot be had, or that cannot be kept. -/
  | yaml (flaw : Data.Yaml.Flaw)
  /-- A package file with a value that cannot be had. -/
  | json (flaw : Data.Json.Flaw)
  /-- A message about a value that cannot be shown. -/
  | unshown (cause : Data.Unshown)
  /-- A text that the terminal cannot show. -/
  | unprintable
  /-- A delay that is no number, as it shows. -/
  | notNumber (shown : String)
  /-- A setting of the wrong type. -/
  | wrongType
  /-- A whole number too large for a delay. -/
  | tooLarge
  /-- An extension that is no text. -/
  | extensionNotText
  /-- A file that is no UTF-8. -/
  | notUtf8
  /-- A directory into which the bundle cannot be written. -/
  | noWriteAccess (directory : String)
  /-- An operation on files that fails. -/
  | disk (refusal : Disk.Refusal)
  /-- The bundle could not be put in place. -/
  | writeFailed
  /-- An answer was asked for and the input has ended. -/
  | endOfInput
  deriving DecidableEq, Repr

def Fault.text? : Fault → Option String
  | .config e => some e.message
  | .yaml flaw => flaw.text?
  | .json (.tooManyDigits n) => some (Data.Yaml.digitLimitText (some n))
  | .unshown .tooManyDigits => some (Data.Yaml.digitLimitText none)
  | .notNumber shown => some ("could not convert string to float: " ++ shown)
  | .noWriteAccess directory => some ("No write access to " ++ directory)
  | _ => none

end ElementBundle.Project
