import Injection.Number.Binary64

/-! # Settings

What a caller may choose, with the defaults.

`TransformSettings` is `TransformConfig` and `Settings` is `Config`.
-/

namespace Injection

/-- What to do with dependencies given for parameters that are not there. -/
inductive UnknownPolicy where
  | warn
  | ignore
  | error
deriving DecidableEq, Repr

namespace UnknownPolicy

def name : UnknownPolicy → String
  | .warn => "warn"
  | .ignore => "ignore"
  | .error => "error"

def ofName? : String → Option UnknownPolicy
  | "warn" => some .warn
  | "ignore" => some .ignore
  | "error" => some .error
  | _ => none

end UnknownPolicy

/-- Settings of the transform. -/
structure TransformSettings where
  /-- Languages in order of preference, each with its file extensions. -/
  languages : List (String × List String)
  unknownDependency : UnknownPolicy
  /-- The base of names made for anonymous default exports. -/
  uidBase : String
  /-- The largest file that is read, in megabytes. -/
  maxFileSize : Binary64
  encoding : String
  /-- What a directory run passes over. -/
  ignorePatterns : List String
deriving DecidableEq, Repr

def TransformSettings.default : TransformSettings where
  languages :=
    [("javascript", [".js", ".jsx", ".mjs", ".cjs"]), ("typescript", [".ts", ".mts", ".cts"]),
      ("tsx", [".tsx"])]
  unknownDependency := .warn
  uidBase := "uid"
  maxFileSize := .ofDecimal false 5 0
  encoding := "utf-8"
  ignorePatterns := ["node_modules", ".git", "dist", "build", "*.min.js"]

/-- All settings. -/
structure Settings where
  transform : TransformSettings
  logLevel : String
  serverName : String
deriving DecidableEq, Repr

def Settings.default : Settings := ⟨.default, "INFO", "injectable-codemod"⟩

end Injection
