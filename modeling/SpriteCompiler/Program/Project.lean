import SpriteCompiler.Program.Stmt

namespace SpriteCompiler

structure Method where
  name : String
  returnType : Option ValueType
  params : List Parameter
  body : List Stmt
  inline : Bool
  atomic : Bool
  isUnsafe : Bool
  loc : Location

structure Sprite where
  name : String
  declarations : List Global
  methods : List Method
  loc : Location

structure Project where
  name : String
  declarations : List Global
  sprites : List Sprite

-- What a name can stand for.
inductive Binding where
  | constant (decl : Constant)
  | globalVariable (decl : GlobalVariable)
  | globalList (decl : GlobalList)
  | parameter (decl : Parameter)
  | localVariable (decl : LocalVariable)
  | localArray (decl : LocalArray)
  | method (decl : Method)

namespace Binding

def name : Binding → String
  | .constant d => d.name
  | .globalVariable d => d.name
  | .globalList d => d.name
  | .parameter d => d.name
  | .localVariable d => d.name
  | .localArray d => d.name
  | .method d => d.name

-- The type of a method is that of what it returns.
def type : Binding → ValueType
  | .constant d => d.type
  | .globalVariable d => d.type
  | .globalList d => d.type
  | .parameter d => d.type
  | .localVariable d => d.type
  | .localArray d => d.type
  | .method d => d.returnType.getD .object

def location : Binding → Location
  | .constant d => d.loc
  | .globalVariable d => d.loc
  | .globalList d => d.loc
  | .parameter d => d.loc
  | .localVariable d => d.loc
  | .localArray d => d.loc
  | .method d => d.loc

-- No assignment to it is ever accepted.
def isReadonly : Binding → Bool
  | .constant _ | .parameter _ => true
  | _ => false

end Binding

def Global.binding : Global → Binding
  | .constant d => .constant d
  | .variable d => .globalVariable d
  | .list d => .globalList d

def Local.binding : Local → Binding
  | .variable d => .localVariable d
  | .array d => .localArray d

namespace Method

def param? (m : Method) (name : String) : Option Parameter :=
  m.params.find? (·.name == name)

-- The method's name followed by one input mark for each parameter.
def spec (m : Method) : String :=
  m.params.foldl (fun spec p => spec ++ mark p.type) m.name
where
  mark : ValueType → String
    | .number => " %n"
    | .boolean => " %b"
    | .text => " %s"
    | .object => " %s"

end Method

namespace Sprite

-- A declaration of the sprite, or else a method of it.
def find? (s : Sprite) (name : String) : Option Binding :=
  ((s.declarations.find? (·.name == name)).map Global.binding).or
    ((s.methods.find? (·.name == name)).map .method)

def names (s : Sprite) : List String :=
  s.declarations.map (·.name) ++ s.methods.map (·.name)

end Sprite

namespace Project

def find? (p : Project) (name : String) : Option Binding :=
  (p.declarations.find? (·.name == name)).map Global.binding

def names (p : Project) : List String :=
  p.declarations.map (·.name)

end Project

end SpriteCompiler
