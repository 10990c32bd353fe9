import DefectScan.Config.Load
import DefectScan.Text.Shown

/-!
# What is said of settings that cannot be loaded

A setting of a wrong type is named with what was found, what was expected, and where it comes from.
The path of a file is given from the current directory, if it is shorter so.
-/

namespace DefectScan.Config

/-! ## Paths -/

/-- A path as seen from a directory, if both are absolute. -/
def relative? (path directory : String) : Option (List String) :=
  if Path.isAbsolute path && Path.isAbsolute directory then
    let ps := (Path.parts path).filter (!Path.isVoid ·)
    let ds := (Path.parts directory).filter (!Path.isVoid ·)
    let shared := ((ps.zip ds).takeWhile fun (a, b) => a = b).length
    some (List.replicate (ds.length - shared) ".." ++ ps.drop shared)
  else none

def pathText (directory path : String) : String :=
  match relative? path directory with
  | some parts =>
    if parts.length < (Path.components path).length then Path.ofParts parts else path
  | none => path

/-! ## Messages -/

/-- What was found; whole numbers in the environment have no sign unless they are negative. -/
def foundText (source : Source) : ConfigValue → String
  | .bool b => "bool " ++ (if b then "true" else "false")
  | .int n =>
    if source = .environment && 0 ≤ n then "unsigned int `" ++ toString n ++ "`"
    else "signed int `" ++ toString n ++ "`"
  | .real x => "float `" ++ Decimal.plain x ++ "`"
  | .str s => "string " ++ Text.shown s
  | .list _ => "sequence"
  | .table _ => "map"

def upperAscii (s : String) : String := s.map Char.toUpper

def keyText (source : Source) (path : List String) : String :=
  match source with
  | .file _ => ".".intercalate ("default" :: path)
  | .environment => ".".intercalate (path.map upperAscii)

def sourceText (directory : String) : Source → String
  | .file path => pathText directory path ++ " TOML file"
  | .environment => "`CSCOUT_` environment variable(s)"

def settingText (directory : String) (e : ConfigError) (source : Source) : String :=
  let what := match e.fault with
    | .invalidType => "invalid type: found "
    | .invalidValue => "invalid value "
  what ++ foundText source e.found ++ ", expected " ++ e.expected
    ++ (if e.path.isEmpty then "" else " for key " ++ Text.shown (keyText source e.path))
    ++ " in " ++ sourceText directory source

def LoadError.message (directory : String) : LoadError → String
  | .notToml path => "TOML parse error in " ++ sourceText directory (.file path)
  | .setting e source => settingText directory e source

end DefectScan.Config
