import SpriteCompiler.Source.Location
import SpriteCompiler.Operator

namespace SpriteCompiler

inductive DiagnosticKind where
  -- a name stands for nothing
  | notDefined
  -- an assignment to a parameter or a constant
  | valueIsReadonly
  -- a name stands for something that cannot be used in its place
  | improperUsage
  | typeMismatch
  -- an argument had to be known at compile time
  | invalidArgument
  -- a name is declared twice in the same scope
  | duplicateDeclaration
  deriving DecidableEq

namespace DiagnosticKind

def all : List DiagnosticKind :=
  [.notDefined, .valueIsReadonly, .improperUsage, .typeMismatch, .invalidArgument,
    .duplicateDeclaration]

def code : DiagnosticKind → String
  | .notDefined => "not-defined"
  | .valueIsReadonly => "value-is-readonly"
  | .improperUsage => "improper-usage"
  | .typeMismatch => "type-mismatch"
  | .invalidArgument => "invalid-argument"
  | .duplicateDeclaration => "duplicate-declaration"

def ofCode? (code : String) : Option DiagnosticKind :=
  all.find? (·.code == code)

end DiagnosticKind

structure Diagnostic where
  kind : DiagnosticKind
  message : String
  loc : Location
  -- names that could have been meant
  suggestions : List String := []
  -- the earlier declaration that this one is in conflict with
  previous : Option Location := none
  deriving DecidableEq

namespace Diagnostic

def notDefined (name : String) (loc : Location) (suggestions : List String) : Diagnostic :=
  { kind := .notDefined, message := "'" ++ name ++ "' is not defined", loc, suggestions }

def readonly (name : String) (loc : Location) : Diagnostic :=
  { kind := .valueIsReadonly, message := "Value '" ++ name ++ "' is read-only", loc }

def notAVariable (name : String) (loc : Location) : Diagnostic :=
  { kind := .improperUsage, message := "'" ++ name ++ "' is not a variable", loc }

def notAnArray (name : String) (loc : Location) : Diagnostic :=
  { kind := .improperUsage, message := "'" ++ name ++ "' is not an array", loc }

def notAValue (name : String) (loc : Location) : Diagnostic :=
  { kind := .improperUsage, message := "'" ++ name ++ "' cannot be used as a value", loc }

-- An operator that its target does not support, both given by what they are called.
def operatorMismatch (operator found : String) (loc : Location) : Diagnostic :=
  { kind := .typeMismatch
    message := "Cannot use operator '" ++ operator ++ "' on a value of type '" ++ found ++ "'"
    loc }

def typeMismatch (expected found : String) (loc : Location) : Diagnostic :=
  { kind := .typeMismatch
    message := "Expected value of type '" ++ expected ++ "' but instead found value of type '" ++
      found ++ "'"
    loc }

def invalidArgument (message : String) (loc : Location) : Diagnostic :=
  { kind := .invalidArgument, message, loc }

def duplicateDeclaration (name : String) (loc : Location) (previous : Option Location := none) :
    Diagnostic :=
  { kind := .duplicateDeclaration
    message := "'" ++ name ++ "' is already declared in this scope"
    loc, previous }

def noReturnValue (method : String) (loc : Location) : Diagnostic :=
  { kind := .improperUsage, message := "Method '" ++ method ++ "' does not return a value", loc }

-- The report of a type that does not fit, or nothing if it fits.
def ofTypes (expected found : ValueType) (loc : Location) : List Diagnostic :=
  if expected.accepts found then [] else [typeMismatch expected.keyword found.keyword loc]

end Diagnostic

end SpriteCompiler
