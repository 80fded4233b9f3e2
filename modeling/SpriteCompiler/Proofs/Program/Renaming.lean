import SpriteCompiler.Program.Project
import SpriteCompiler.Diagnostic.Basic
import SpriteCompiler.Diagnostic.Suggestion
import Mathlib.Tactic

namespace SpriteCompiler

variable (ρ : String → String)

def Expr.rename : Expr → Expr
  | .literal value loc => .literal value loc
  | .lookup x loc => .lookup (ρ x) loc
  | .item x index loc => .item (ρ x) index.rename loc
  | .unary op operand loc => .unary op operand.rename loc
  | .binary op left right loc => .binary op left.rename right.rename loc

def LocalVariable.rename (v : LocalVariable) : LocalVariable :=
  { v with name := ρ v.name, value := v.value.map (Expr.rename ρ) }

def LocalArray.rename (a : LocalArray) : LocalArray :=
  { a with name := ρ a.name, items := a.items.map (Expr.rename ρ) }

def Local.rename : Local → Local
  | .variable v => .variable (v.rename ρ)
  | .array a => .array (a.rename ρ)

-- Only locals have other names.
def Binding.rename : Binding → Binding
  | .localVariable v => .localVariable (v.rename ρ)
  | .localArray a => .localArray (a.rename ρ)
  | b => b

def Assignment.rename : Assignment → Assignment
  | .set e => .set (e.rename ρ)
  | .add e => .add (e.rename ρ)
  | .subtract e => .subtract (e.rename ρ)
  | .join e => .join (e.rename ρ)
  | .increment => .increment
  | .decrement => .decrement

mutual

def Stmt.rename : Stmt → Stmt
  | .declare l => .declare (l.rename ρ)
  | .assign x a loc => .assign (ρ x) (a.rename ρ) loc
  | .repeatLoop inline count body loc =>
    .repeatLoop inline (count.rename ρ) (Stmt.renameAll body) loc
  | .whileLoop condition body loc => .whileLoop (condition.rename ρ) (Stmt.renameAll body) loc
  | .forever body loc => .forever (Stmt.renameAll body) loc
  | .branch condition thenBody elseBody loc =>
    .branch (condition.rename ρ) (Stmt.renameAll thenBody) (Stmt.renameAll elseBody) loc
  | .switch subject cases loc => .switch (subject.rename ρ) (Stmt.renameCases cases) loc
  | .ret value loc => .ret (value.map (Expr.rename ρ)) loc
  | .scope body loc => .scope (Stmt.renameAll body) loc

def Stmt.renameAll : List Stmt → List Stmt
  | [] => []
  | s :: rest => s.rename :: Stmt.renameAll rest

def Stmt.renameCases : List Case → List Case
  | [] => []
  | .mk conditions body isDefault loc :: rest =>
    .mk (conditions.map (Expr.rename ρ)) (Stmt.renameAll body) isDefault loc ::
      Stmt.renameCases rest

end

def Method.rename (m : Method) : Method :=
  { m with body := Stmt.renameAll ρ m.body }

-- A problem of the one body and the problem of the other that corresponds to it. What is said is the
-- same but for the name it is said about, and names are suggested from the renamed ones.
inductive Diagnostic.Renamed : Diagnostic → Diagnostic → Prop where
  | same (d : Diagnostic) : Renamed d d
  | notDefined (x : String) (loc : Location) (names : List String) :
      Renamed (.notDefined x loc (suggest x names))
        (.notDefined (ρ x) loc (suggest (ρ x) (names.map ρ)))
  | readonly (x : String) (loc : Location) : Renamed (.readonly x loc) (.readonly (ρ x) loc)
  | notAVariable (x : String) (loc : Location) :
      Renamed (.notAVariable x loc) (.notAVariable (ρ x) loc)
  | notAnArray (x : String) (loc : Location) : Renamed (.notAnArray x loc) (.notAnArray (ρ x) loc)
  | notAValue (x : String) (loc : Location) : Renamed (.notAValue x loc) (.notAValue (ρ x) loc)
  | duplicateDeclaration (x : String) (loc : Location) (previous : Option Location) :
      Renamed (.duplicateDeclaration x loc previous) (.duplicateDeclaration (ρ x) loc previous)

variable {ρ}

theorem Diagnostic.Renamed.keeps {d d' : Diagnostic} (h : d.Renamed ρ d') :
    d'.kind = d.kind ∧ d'.loc = d.loc ∧ d'.previous = d.previous := by
  cases h <;> exact ⟨rfl, rfl, rfl⟩

-- Lists of problems that correspond one by one.
def Diagnostic.AllRenamed (ρ : String → String) (ds ds' : List Diagnostic) : Prop :=
  List.Forall₂ (Diagnostic.Renamed ρ) ds ds'

namespace Diagnostic.AllRenamed

theorem same (ds : List Diagnostic) : AllRenamed ρ ds ds :=
  List.forall₂_same.mpr fun d _ => .same d

theorem one {d d' : Diagnostic} (h : d.Renamed ρ d') : AllRenamed ρ [d] [d'] :=
  .cons h .nil

theorem append {ds ds' es es' : List Diagnostic} (h : AllRenamed ρ ds ds')
    (h' : AllRenamed ρ es es') : AllRenamed ρ (ds ++ es) (ds' ++ es') :=
  List.rel_append h h'

theorem flatMap {α β : Type} {f : α → List Diagnostic} {g : β → List Diagnostic} {r : α → β}
    (h : ∀ a, AllRenamed ρ (f a) (g (r a))) (xs : List α) :
    AllRenamed ρ (xs.flatMap f) ((xs.map r).flatMap g) := by
  induction xs with
  | nil => exact .nil
  | cons a xs ih =>
      rw [List.map_cons, List.flatMap_cons, List.flatMap_cons]
      exact (h a).append ih

-- Without other names the problems are the same.
theorem eq_of_id {ds ds' : List Diagnostic} (h : AllRenamed id ds ds') : ds = ds' := by
  induction h with
  | nil => rfl
  | cons h _ ih =>
      rw [ih]
      cases h with
      | notDefined x loc names => rw [List.map_id]; rfl
      | _ => rfl

end Diagnostic.AllRenamed

theorem beq_rename (hρ : Function.Injective ρ) (a b : String) : (ρ a == ρ b) = (a == b) := by
  rw [Bool.eq_iff_iff, beq_iff_eq, beq_iff_eq, hρ.eq_iff]

@[simp]
theorem Expr.location_rename (e : Expr) : (e.rename ρ).location = e.location := by
  cases e <;> rfl

@[simp]
theorem Expr.literal?_rename (e : Expr) : (e.rename ρ).literal? = e.literal? := by
  cases e <;> rfl

@[simp]
theorem Local.name_rename (l : Local) : (l.rename ρ).name = ρ l.name := by
  cases l <;> rfl

@[simp]
theorem Local.location_rename (l : Local) : (l.rename ρ).location = l.location := by
  cases l <;> rfl

@[simp]
theorem Local.slots_rename : ∀ l : Local, (l.rename ρ).slots = l.slots
  | .variable _ => rfl
  | .array _ => List.length_map ..

@[simp]
theorem Local.binding_rename (l : Local) : (l.rename ρ).binding = l.binding.rename ρ := by
  cases l <;> rfl

@[simp]
theorem Binding.type_rename (b : Binding) : (b.rename ρ).type = b.type := by
  cases b <;> rfl

theorem Binding.rename_eq_self {b : Binding} (h : ∀ l : Local, b ≠ l.binding) : b.rename ρ = b := by
  cases b with
  | localVariable v => exact absurd rfl (h (.variable v))
  | localArray a => exact absurd rfl (h (.array a))
  | _ => rfl

@[simp]
theorem Assignment.op_rename (a : Assignment) : (a.rename ρ).op = a.op := by
  cases a <;> rfl

theorem Assignment.operand?_rename (a : Assignment) :
    (a.rename ρ).operand? = a.operand?.map (Expr.rename ρ) := by
  cases a <;> rfl

@[simp]
theorem Stmt.isEmpty_renameAll (body : List Stmt) :
    (Stmt.renameAll ρ body).isEmpty = body.isEmpty := by
  cases body <;> rfl

@[simp]
theorem Stmt.isEmpty_renameCases (cases : List Case) :
    (Stmt.renameCases ρ cases).isEmpty = cases.isEmpty := by
  cases cases with
  | nil => rfl
  | cons case rest =>
      obtain ⟨_, _, _, _⟩ := case
      rfl

-- Giving every name its own name changes nothing.

@[simp]
theorem Expr.rename_id : Expr.rename id = id := by
  funext e
  induction e with
  | literal value loc => rfl
  | lookup x loc => rfl
  | item x index loc ih => rw [Expr.rename, ih]; rfl
  | unary op operand loc ih => rw [Expr.rename, ih]; rfl
  | binary op left right loc ihl ihr => rw [Expr.rename, ihl, ihr]; rfl

@[simp]
theorem Local.rename_id : Local.rename id = id := by
  funext l
  cases l <;> simp [Local.rename, LocalVariable.rename, LocalArray.rename]

theorem Assignment.rename_id (a : Assignment) : a.rename id = a := by
  cases a <;> simp [Assignment.rename]

mutual

theorem Stmt.rename_id : ∀ s : Stmt, s.rename id = s
  | .declare l => by simp [Stmt.rename]
  | .assign x a loc => by simp [Stmt.rename, Assignment.rename_id]
  | .repeatLoop inline count body loc => by simp [Stmt.rename, Stmt.renameAll_id body]
  | .whileLoop condition body loc => by simp [Stmt.rename, Stmt.renameAll_id body]
  | .forever body loc => by simp [Stmt.rename, Stmt.renameAll_id body]
  | .branch condition thenBody elseBody loc => by
      simp [Stmt.rename, Stmt.renameAll_id thenBody, Stmt.renameAll_id elseBody]
  | .switch subject cases loc => by simp [Stmt.rename, Stmt.renameCases_id cases]
  | .ret value loc => by simp [Stmt.rename]
  | .scope body loc => by simp [Stmt.rename, Stmt.renameAll_id body]

theorem Stmt.renameAll_id : ∀ body : List Stmt, Stmt.renameAll id body = body
  | [] => rfl
  | s :: rest => by rw [Stmt.renameAll, Stmt.rename_id s, Stmt.renameAll_id rest]

theorem Stmt.renameCases_id : ∀ cases : List Case, Stmt.renameCases id cases = cases
  | [] => rfl
  | .mk conditions body isDefault loc :: rest => by
      simp [Stmt.renameCases, Stmt.renameAll_id body, Stmt.renameCases_id rest]

end

end SpriteCompiler
