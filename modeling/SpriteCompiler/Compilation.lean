import SpriteCompiler.Lowering.Method

namespace SpriteCompiler

-- The variables and lists of a sprite or the stage. A name is stored once.
structure UnitStorage where
  -- all names taken so far, those of constants included
  names : List String := []
  cells : List StoredVariable := []
  lists : List StoredList := []

namespace UnitStorage

def addList (u : UnitStorage) (l : StoredList) : UnitStorage :=
  { u with names := u.names ++ [l.name], lists := u.lists ++ [l] }

-- Declares a global. The first declaration of a name counts, and a later one is only reported.
def declare (u : UnitStorage) (g : Global) : UnitStorage × List Diagnostic :=
  if u.names.contains g.name then (u, [.duplicateDeclaration g.name g.location])
  else
    match g.storage? with
    | none => ({ u with names := u.names ++ [g.name] }, g.problems)
    | some (.variable v) =>
      ({ u with names := u.names ++ [g.name], cells := u.cells ++ [v] }, g.problems)
    | some (.list l) => (u.addList l, g.problems)

-- Adds a variable that no declaration asked for, unless its name is taken.
def addVariable (u : UnitStorage) (v : StoredVariable) (loc : Location) : UnitStorage × List Diagnostic :=
  if u.names.contains v.name then (u, [.duplicateDeclaration v.name loc])
  else ({ u with names := u.names ++ [v.name], cells := u.cells ++ [v] }, [])

def declareAll (u : UnitStorage) : List Global → UnitStorage × List Diagnostic
  | [] => (u, [])
  | g :: rest =>
    let (u, first) := u.declare g
    let (u, others) := u.declareAll rest
    (u, first ++ others)

-- Adds the variables for the results of methods.
def addReturns (u : UnitStorage) (options : Options) : List Method → UnitStorage × List Diagnostic
  | [] => (u, [])
  | m :: rest =>
    let (u, first) := match m.returnType with
      | none => (u, [])
      | some type => u.addVariable ⟨options.returnVariable m.name, type.default⟩ m.loc
    let (u, others) := u.addReturns options rest
    (u, first ++ others)

def output (u : UnitStorage) (name : String) (procedures : List Procedure) : SpriteOutput :=
  { name, cells := u.cells, lists := u.lists, procedures }

end UnitStorage

-- Some sprite has a method, so that a stack is needed.
def Project.hasMethods (p : Project) : Bool :=
  p.sprites.any fun s => !s.methods.isEmpty

-- The stage: the globals of the project, and the stack if it is needed and its name is free.
def compileStage (options : Options) (p : Project) : SpriteOutput × List Diagnostic :=
  let (u, problems) := ({} : UnitStorage).declareAll p.declarations
  if p.hasMethods then
    match p.find? options.stackList with
    | some taken =>
      (u.output p.name [], problems ++ [.duplicateDeclaration options.stackList taken.location])
    | none => ((u.addList ⟨options.stackList, []⟩).output p.name [], problems)
  else (u.output p.name [], problems)

-- What a sprite stores: its globals, and the results of its methods.
def Sprite.storage (options : Options) (s : Sprite) : UnitStorage × List Diagnostic :=
  let (u, first) := ({} : UnitStorage).declareAll s.declarations
  let (u, others) := u.addReturns options s.methods
  (u, first ++ others)

def compileSprite (options : Options) (ctx : Context) (s : Sprite) : Reporting SpriteOutput := do
  Reporting.debug ("lowering sprite `" ++ s.name ++ "`")
  let (u, problems) := s.storage options
  problems.forM Reporting.report
  let procedures ← s.methods.mapM (lowerMethod options (ctx.withSprite s))
  return u.output s.name procedures

-- Compiles a sprite with a report of its own and adds that to the one of the project.
def compileApart (options : Options) (p : Project) (s : Sprite) : Reporting SpriteOutput :=
  fun r =>
    let (result, own) := compileSprite options { project := p } s {}
    let own := own.addLog .debug
      ("sprite `" ++ s.name ++ "` lowered with " ++ Number.natText own.diagnostics.length ++ " errors")
    (result, r.append own)

structure Compilation where
  stage : SpriteOutput
  sprites : List SpriteOutput

namespace Compilation

-- The output of the first sprite of this name.
def sprite? (c : Compilation) (name : String) : Option SpriteOutput :=
  c.sprites.find? (·.name == name)

end Compilation

def compile (options : Options) (p : Project) : Reporting Compilation := do
  Reporting.debug ("compiling project `" ++ p.name ++ "` with " ++ Number.natText p.sprites.length ++
    " sprites")
  let (stage, problems) := compileStage options p
  problems.forM Reporting.report
  let sprites ← p.sprites.mapM (compileApart options p)
  Reporting.debug ("project `" ++ p.name ++ "` finished with " ++
    Number.natText (← get).diagnostics.length ++ " errors")
  return { stage, sprites }

end SpriteCompiler
