import SpriteCompiler.Proofs.Code.Growth

namespace SpriteCompiler

namespace Local

-- The locals in scope after a declaration. A name that is taken in the innermost scope is not
-- declared again.
def declareIn (l : Local) : List (List Local) → List (List Local)
  | [] => []
  | f :: outer => if f.any (·.name == l.name) then f :: outer else (f ++ [l]) :: outer

def initializers : Local → List Expr
  | .variable v => v.value.toList
  | .array a => a.items

end Local

-- What is asked of every place, given the locals in scope there.
structure Demand where
  declaration : List (List Local) → Local → Prop := fun _ _ => True
  expression : List (List Local) → Expr → Prop := fun _ _ => True

namespace Stmt

-- The locals in scope after a statement.
def declares (s : Stmt) (F : List (List Local)) : List (List Local) :=
  match s with
  | .declare l => l.declareIn F
  | _ => F

theorem declares_of_ne {s : Stmt} (h : ∀ l, s ≠ .declare l) (F : List (List Local)) :
    s.declares F = F := by
  cases s with
  | declare l => exact absurd rfl (h l)
  | _ => rfl

mutual

def Everywhere (P : Demand) (F : List (List Local)) : Stmt → Prop
  | .declare l => P.declaration F l ∧ ∀ e ∈ l.initializers, P.expression F e
  | .assign _ a _ => ∀ e ∈ a.operand?, P.expression F e
  | .repeatLoop _ count body _ => P.expression F count ∧ EverywhereIn P ([] :: F) body
  | .whileLoop condition body _ => P.expression F condition ∧ EverywhereIn P ([] :: F) body
  | .forever body _ => EverywhereIn P ([] :: F) body
  | .branch condition thenBody elseBody _ =>
    P.expression F condition ∧ EverywhereIn P ([] :: F) thenBody ∧ EverywhereIn P ([] :: F) elseBody
  | .switch _ cases _ => EverywhereInCases P F cases
  | .ret value _ => ∀ e ∈ value, P.expression F e
  | .scope body _ => EverywhereIn P ([] :: F) body

def EverywhereIn (P : Demand) (F : List (List Local)) : List Stmt → Prop
  | [] => True
  | s :: rest => s.Everywhere P F ∧ EverywhereIn P (s.declares F) rest

def EverywhereInCases (P : Demand) (F : List (List Local)) : List Case → Prop
  | [] => True
  | .mk conditions body _ _ :: rest =>
    (∀ e ∈ conditions, P.expression F e) ∧ EverywhereIn P ([] :: F) body ∧
      EverywhereInCases P F rest

end

end Stmt

-- Every place in a method.
def Method.Everywhere (P : Demand) (m : Method) : Prop :=
  Stmt.EverywhereIn P [[]] m.body

def Demand.and (P Q : Demand) : Demand where
  declaration F l := P.declaration F l ∧ Q.declaration F l
  expression F e := P.expression F e ∧ Q.expression F e

namespace Stmt

variable {P Q : Demand}

mutual

theorem Everywhere.and : ∀ {F : List (List Local)} {s : Stmt},
    s.Everywhere P F → s.Everywhere Q F → s.Everywhere (P.and Q) F
  | _, .declare _, h, h' => ⟨⟨h.1, h'.1⟩, fun e he => ⟨h.2 e he, h'.2 e he⟩⟩
  | _, .assign _ _ _, h, h' => fun e he => ⟨h e he, h' e he⟩
  | _, .repeatLoop _ _ _ _, h, h' => ⟨⟨h.1, h'.1⟩, EverywhereIn.and h.2 h'.2⟩
  | _, .whileLoop _ _ _, h, h' => ⟨⟨h.1, h'.1⟩, EverywhereIn.and h.2 h'.2⟩
  | _, .forever _ _, h, h' => EverywhereIn.and h h'
  | _, .branch _ _ _ _, h, h' =>
    ⟨⟨h.1, h'.1⟩, EverywhereIn.and h.2.1 h'.2.1, EverywhereIn.and h.2.2 h'.2.2⟩
  | _, .switch _ _ _, h, h' => EverywhereInCases.and h h'
  | _, .ret _ _, h, h' => fun e he => ⟨h e he, h' e he⟩
  | _, .scope _ _, h, h' => EverywhereIn.and h h'

theorem EverywhereIn.and : ∀ {F : List (List Local)} {body : List Stmt},
    EverywhereIn P F body → EverywhereIn Q F body → EverywhereIn (P.and Q) F body
  | _, [], _, _ => trivial
  | _, _ :: _, h, h' => ⟨h.1.and h'.1, EverywhereIn.and h.2 h'.2⟩

theorem EverywhereInCases.and : ∀ {F : List (List Local)} {cases : List Case},
    EverywhereInCases P F cases → EverywhereInCases Q F cases → EverywhereInCases (P.and Q) F cases
  | _, [], _, _ => trivial
  | _, .mk _ _ _ _ :: _, h, h' =>
    ⟨fun e he => ⟨h.1 e he, h'.1 e he⟩, EverywhereIn.and h.2.1 h'.2.1,
      EverywhereInCases.and h.2.2 h'.2.2⟩

end

end Stmt

-- The slots in scope can be counted in 32 bits wherever a declaration adds to them.
def Demand.slotsFit : Demand where
  declaration F l := Local.slotTotal (l.declareIn F) < 2 ^ 32

-- A small method with most of what can be in one: an array whose items read a local, a local of two
-- slots, a loop with a local of its own, and a return from inside it.
def Method.sample : Method :=
  let at0 : Location := ⟨0, ⟨0, 0⟩⟩
  let number (x : Float) : Expr := .literal (.number x) at0
  let name (x : String) : Expr := .lookup x at0
  { name := "sample"
    returnType := some .number
    params := [⟨"n", .number, at0⟩]
    body := [
      .declare (.variable ⟨"x", .number, some (name "n"), 1, at0⟩),
      .declare (.array ⟨"a", .number, [name "x", number 2.0], at0⟩),
      .declare (.variable ⟨"pair", .number, some (name "x"), 2, at0⟩),
      .whileLoop (.binary .less (name "x") (.item "a" (number 2.0) at0) at0) [
        .declare (.variable ⟨"y", .number, some (name "x"), 1, at0⟩),
        .assign "x" (.add (number 1.0)) at0,
        .branch (.binary .greater (name "y") (name "n") at0) [.ret (some (name "y")) at0] [] at0] at0,
      .repeatLoop true (number 2.0) [.assign "x" .increment at0] at0]
    inline := false
    atomic := true
    isUnsafe := false
    loc := at0 }

-- A project in which nothing is declared.
def Context.sample : Context where
  project := ⟨"p", [], []⟩

-- At the start of the method.
def Session.sample : Session where
  scopes := (ScopeTree.createRoot { method := some .sample }).2

theorem Session.ready_sample : (Context.sample.withScope 0).Ready Session.sample.scopes :=
  Context.sample.ready_createRoot .sample

theorem Method.slotsFit_sample : Method.sample.Everywhere .slotsFit := by
  simp [Method.Everywhere, Method.sample, Stmt.EverywhereIn, Stmt.Everywhere, Stmt.declares,
    Demand.slotsFit, Local.declareIn, Local.slotTotal, Local.slotCount, Local.slots, Local.name]

theorem Local.plan_frames {ctx : Context} {t : ScopeTree} (hr : ctx.Ready t) (l : Local) :
    (l.plan ctx t).scopes.frames ctx.here = l.declareIn (t.frames ctx.here) := by
  have hframes := ScopeTree.frames_eq hr.lt_size
  rw [Local.plan, hframes, Local.declareIn]
  obtain ⟨t', hresult⟩ | ⟨d, hresult⟩ := ScopeTree.exists_declare hr.lt_size l
  · have hdecl := ScopeTree.declared_of_declare hresult
    have hfree : ((t.locals ctx.here).any (·.name == l.name)) = false := by
      simpa using hdecl.name_free
    rw [hresult, hfree]
    exact hdecl.frames_eq
  · obtain ⟨l', hl', hname⟩ := ScopeTree.name_taken_of_declare hresult
    have htaken : (t.locals ctx.here).any (·.name == l.name) := by
      simpa using ⟨l', hl', hname⟩
    simp only [hresult, htaken, if_true, hframes]

theorem Stmt.plan_frames (o : Options) {ctx : Context} {t : ScopeTree} (hr : ctx.Ready t)
    (s : Stmt) : (s.plan o ctx t).scopes.frames ctx.here = s.declares (t.frames ctx.here) := by
  by_cases hs : ∃ l, s = .declare l
  · obtain ⟨l, rfl⟩ := hs
    exact l.plan_frames hr
  · have hs : ∀ l, s ≠ .declare l := fun l hl => hs ⟨l, hl⟩
    have hkept := Stmt.plan_untouched o hr hs
    rw [Stmt.declares_of_ne hs]
    exact hkept.frames_eq (Nat.le_refl _) hr.lt_size

end SpriteCompiler
