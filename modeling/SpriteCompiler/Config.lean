import SpriteCompiler.Options
import SpriteCompiler.Toml.Reader

namespace SpriteCompiler.Config

-- How the table was given so far: by its header, by keys with dots, or as one value.
inductive Given where
  | no
  | header
  | dotted
  | value
  deriving DecidableEq

structure Draft where
  given : Given := .no
  -- the options given so far
  names : List String := []
  options : Options := {}

-- Gives one option, once.
def Draft.add? (d : Draft) (name : String) (value : Toml.Value) : Option Draft :=
  if d.names.contains name then none
  else (value.setting?.bind (d.options.setField? name)).map fun options =>
    { d with names := name :: d.names, options }

-- Gives the whole table as one value: an inline table, or an array of the options in order. Items
-- beyond them mean nothing.
def Draft.addAll? (d : Draft) : Toml.Value → Option Draft
  | .table fields _ =>
    fields.foldlM (fun d (name, value) => d.add? name value) { d with given := .value }
  | .array items =>
    (Options.fieldNames.zip items).foldlM (fun d (name, value) => d.add? name value)
      { d with given := .value }
  | _ => none

-- Takes in one line. Entries after the header belong to the table.
def Draft.line? (d : Draft) : Toml.Line → Option Draft
  | .header ["lowering"] => if d.given = .no then some { d with given := .header } else none
  | .header _ => none
  | .entry path value =>
    match d.given, path with
    | .header, [name] => d.add? name value
    | .no, ["lowering"] => d.addAll? value
    | .no, ["lowering", name] => { d with given := .dotted }.add? name value
    | .dotted, ["lowering", name] => d.add? name value
    | _, _ => none

-- The options of a configuration.
def parse? (document : String) : Option Options := do
  let lines ← Toml.lines? document
  (lines.foldlM Draft.line? {}).map (·.options)

def toJson (options : Options) : Json :=
  .obj [("lowering", options.toJson)]

-- Why a configuration file was not accepted.
inductive FileError where
  -- there is no such file, or it is not text
  | unreadable (path : String)
  | malformed (path : String)
  deriving DecidableEq

def FileError.message : FileError → String
  | .unreadable path => "Failed to read config file: " ++ path
  | .malformed path => "Failed to parse config file: " ++ path

-- The options in a file, given its contents if it exists.
def ofFile (path : String) (contents : Option ByteArray) : Except FileError Options :=
  match contents.bind String.fromUTF8? with
  | none => .error (.unreadable path)
  | some document => (parse? document).elim (.error (.malformed path)) .ok

end SpriteCompiler.Config
