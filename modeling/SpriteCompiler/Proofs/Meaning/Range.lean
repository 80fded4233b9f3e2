import SpriteCompiler.Proofs.Meaning.Source

namespace SpriteCompiler

namespace Outcome

variable {σ : Type} {test : σ → Bool} {P : σ → Prop} {f g : σ → Outcome σ}

-- If there is more to run, it starts where this holds.
def Then (a : Outcome σ) (P : σ → Prop) : Prop :=
  ∀ s, a = .next s → P s

-- At the start of each round of a loop.
def EachRound (test : σ → Bool) (P : σ → Prop) (body : σ → Outcome σ) : Nat → σ → Prop
  | 0, _ => True
  | k + 1, s => P s ∧ (test s → (body s).Then (EachRound test P body k))

theorem bind_congr {a : Outcome σ} (h : a.Then fun s => f s = g s) : a.bind f = a.bind g := by
  cases a with
  | next s => exact h s rfl
  | _ => rfl

theorem times_congr (hfg : ∀ s, P s → f s = g s) {k : Nat} {s : σ}
    (h : EachRound (fun _ => true) P f k s) : times f k s = times g k s := by
  induction k generalizing s with
  | zero => rfl
  | succ k ih =>
      obtain ⟨hs, hrest⟩ := h
      rw [times, times, ← hfg s hs]
      exact bind_congr fun s' hs' => ih (hrest rfl s' hs')

theorem loop_congr {test' : σ → Bool} (htest : ∀ s, P s → test' s = test s)
    (hfg : ∀ s, P s → test s → f s = g s) {k : Nat} {s : σ} (h : EachRound test P f k s) :
    loop (fun s => some (test s)) f k s = loop (fun s => some (test' s)) g k s := by
  induction k generalizing s with
  | zero => rfl
  | succ k ih =>
      obtain ⟨hs, hrest⟩ := h
      simp only [loop, given, Option.elim_some, htest s hs]
      by_cases hholds : test s
      · simp only [hholds, if_true]
        rw [← hfg s hs hholds]
        exact bind_congr fun s' hs' => ih (hrest hholds s' hs')
      · simp only [hholds, Bool.false_eq_true, if_false]

end Outcome

namespace Store

variable {V : Type} (s : Store V)

def enter : Store V :=
  { s with frames := [] :: s.frames }

variable {s}

theorem inScope_congr {body body' : Store V → Outcome (Store V)} (h : body' s.enter = body s.enter) :
    s.inScope body' = s.inScope body :=
  congrArg (Outcome.bind · _) h

end Store

namespace Activation

variable {V : Type} (A : Activation V)

-- Where an expression is evaluated, every index into a local array designates an item of it.
def InRange (s : Store V) (begun : List V) : Expr → Prop
  | .literal _ _ | .lookup _ _ => True
  | .item x index _ => InRange s begun index ∧ ∀ a vs, s.frames.find? x = some (.array a, vs) →
      (A.interp.element? (A.value s begun index) vs).isSome
  | .unary _ operand _ => InRange s begun operand
  | .binary _ left right _ => InRange s begun left ∧ InRange s begun right

def FillInRange (s : Store V) : List V → List Expr → Prop
  | _, [] => True
  | begun, e :: rest => A.InRange s begun e ∧ FillInRange s (begun ++ [A.value s begun e]) rest

variable (n : Nat)

mutual

-- So it is wherever a run gets to.
def RunInRange : Stmt → Store V → Prop
  | .declare l, s => A.FillInRange s [] l.contents
  | .assign _ a _, s => ∀ e ∈ a.operand?, A.InRange s [] e
  | .repeatLoop inline count body _, s =>
    let rounds := if inline then count.repetitions else A.interp.count (A.value s [] count)
    (inline = false → A.InRange s [] count) ∧
      Outcome.EachRound (fun _ => true) (fun s => RunAllInRange body s.enter)
        (fun s => s.inScope fun s => A.runAll n body s) rounds s
  | .whileLoop condition body _, s =>
    Outcome.EachRound (fun s => A.holds s condition) (fun s => A.InRange s [] condition ∧
        (A.holds s condition → RunAllInRange body s.enter))
      (fun s => s.inScope fun s => A.runAll n body s) n s
  | .forever body _, s =>
    Outcome.EachRound (fun _ => true) (fun s => RunAllInRange body s.enter)
      (fun s => s.inScope fun s => A.runAll n body s) n s
  | .branch condition thenBody elseBody _, s =>
    A.InRange s [] condition ∧
      if A.holds s condition then RunAllInRange thenBody s.enter
      else RunAllInRange elseBody s.enter
  | .switch _ cases _, s => CasesInRange cases s
  | .ret value _, s => ∀ e ∈ value, A.InRange s [] e
  | .scope body _, s => RunAllInRange body s.enter

def RunAllInRange : List Stmt → Store V → Prop
  | [], _ => True
  | st :: rest, s => RunInRange st s ∧ (A.run n st s).Then (RunAllInRange rest)

def CasesInRange : List Case → Store V → Prop
  | [], _ => True
  | .mk conditions body isDefault _ :: rest, s =>
    if rest.isEmpty && isDefault then RunAllInRange body s.enter
    else (∀ e ∈ conditions, A.InRange s [] e) ∧
      if conditions.all (A.holds s) then RunAllInRange body s.enter
      else CasesInRange rest s

end

def MethodInRange (m : Method) (globals : String → V) : Prop :=
  A.RunAllInRange n m.body ⟨globals, [[]]⟩

def withStray (stray : Store V → List V → String → V → V) : Activation V :=
  { A with stray }

-- What would be read beside an array does not matter where no index leads there.

variable {A} {n} {s : Store V} {begun : List V} (stray : Store V → List V → String → V → V)

theorem value_withStray {e : Expr} (h : A.InRange s begun e) :
    (A.withStray stray).value s begun e = A.value s begun e := by
  induction e with
  | literal value _ => rfl
  | lookup x _ => rfl
  | item x index _ ih =>
      obtain ⟨hindex, hitem⟩ := h
      rw [value, value, ih hindex, item, item]
      rcases hfind : s.frames.find? x with _ | ⟨_ | a, vs⟩
      · rfl
      · rfl
      · obtain ⟨v, hv⟩ := Option.isSome_iff_exists.mp (hitem a vs hfind)
        simp only [withStray, hv, Option.getD_some]
  | unary op operand _ ih =>
      rw [value, value, ih h]
      rfl
  | binary op left right _ ihl ihr =>
      rw [value, value, ihl h.1, ihr h.2]
      rfl

theorem holds_withStray {e : Expr} (h : A.InRange s [] e) :
    (A.withStray stray).holds s e = A.holds s e := by
  rw [holds, holds, value_withStray stray h]
  rfl

theorem fill_withStray {es : List Expr} (h : A.FillInRange s begun es) :
    (A.withStray stray).fill s begun es = A.fill s begun es := by
  induction es generalizing begun with
  | nil => rfl
  | cons e rest ih =>
      obtain ⟨he, hrest⟩ := h
      rw [fill, fill, value_withStray stray he, ih hrest]

theorem assign_withStray (x : String) {a : Assignment}
    (h : ∀ e ∈ a.operand?, A.InRange s [] e) :
    (A.withStray stray).assign x a s = A.assign x a s := by
  have hassigned (current : V) : (A.withStray stray).assigned s current a = A.assigned s current a := by
    cases a with
    | set e => exact value_withStray stray (h e rfl)
    | add e | subtract e | join e =>
        rw [assigned, assigned, value_withStray stray (h e rfl)]
        rfl
    | increment | decrement => rfl
  simp only [assign, hassigned]
  rfl

theorem storeResult_withStray {result : Option Expr} (h : ∀ e ∈ result, A.InRange s [] e) :
    (A.withStray stray).storeResult result s = A.storeResult result s := by
  cases result with
  | none => rfl
  | some e =>
      rw [storeResult, storeResult, value_withStray stray (h e rfl)]
      rfl

theorem all_holds_withStray {conditions : List Expr}
    (h : ∀ e ∈ conditions, A.InRange s [] e) :
    conditions.all ((A.withStray stray).holds s) = conditions.all (A.holds s) := by
  rw [Bool.eq_iff_iff, List.all_eq_true, List.all_eq_true]
  exact forall₂_congr fun e he => by rw [holds_withStray stray (h e he)]

mutual

theorem run_withStray : ∀ (st : Stmt) {s : Store V}, A.RunInRange n st s →
    (A.withStray stray).run n st s = A.run n st s
  | .declare l, s, h => by rw [run, run, fill_withStray stray h]
  | .assign x a _, s, h => by rw [run, run, assign_withStray stray x h]
  | .repeatLoop inline count body _, s, h => by
      obtain ⟨hcount, hrounds⟩ := h
      have htimes := Outcome.times_congr
        (fun s hs => (Store.inScope_congr (runAll_withStray body hs)).symm) hrounds
      rw [run, run]
      cases inline with
      | true => exact htimes.symm
      | false =>
          rw [value_withStray stray (hcount rfl)]
          exact htimes.symm
  | .whileLoop condition body _, s, h => by
      rw [run, run]
      exact (Outcome.loop_congr (fun s hs => holds_withStray stray hs.1)
        (fun s hs hholds => (Store.inScope_congr (runAll_withStray body (hs.2 hholds))).symm) h).symm
  | .forever body _, s, h => by
      rw [run, run]
      refine (Outcome.loop_congr (fun _ _ => ?_)
        (fun s hs _ => (Store.inScope_congr (runAll_withStray body hs)).symm) h).symm
      rfl
  | .branch condition thenBody elseBody _, s, h => by
      obtain ⟨hcondition, hbody⟩ := h
      rw [run, run, holds_withStray stray hcondition]
      split
      · next hholds =>
          rw [if_pos hholds] at hbody
          exact Store.inScope_congr (runAll_withStray thenBody hbody)
      · next hholds =>
          rw [if_neg hholds] at hbody
          exact Store.inScope_congr (runAll_withStray elseBody hbody)
  | .switch _ cases _, s, h => by
      rw [run, run]
      exact runCases_withStray cases h
  | .ret value _, s, h => by rw [run, run, storeResult_withStray stray h]
  | .scope body _, s, h => by
      rw [run, run]
      exact Store.inScope_congr (runAll_withStray body h)

theorem runAll_withStray : ∀ (body : List Stmt) {s : Store V}, A.RunAllInRange n body s →
    (A.withStray stray).runAll n body s = A.runAll n body s
  | [], _, _ => rfl
  | st :: rest, s, h => by
      rw [runAll, runAll, run_withStray st h.1]
      exact Outcome.bind_congr fun s' hs' => runAll_withStray rest (h.2 s' hs')

theorem runCases_withStray : ∀ (cases : List Case) {s : Store V}, A.CasesInRange n cases s →
    (A.withStray stray).runCases n cases s = A.runCases n cases s
  | [], _, _ => rfl
  | .mk conditions body isDefault _ :: rest, s, h => by
      rw [CasesInRange] at h
      rw [runCases, runCases]
      by_cases hdefault : rest.isEmpty && isDefault
      · simp only [hdefault, if_true, Bool.true_or] at h ⊢
        exact Store.inScope_congr (runAll_withStray body h)
      · simp only [hdefault, Bool.false_eq_true, if_false, Bool.false_or] at h ⊢
        obtain ⟨hconditions, hbody⟩ := h
        rw [all_holds_withStray stray hconditions]
        split
        · next hholds =>
            rw [if_pos hholds] at hbody
            exact Store.inScope_congr (runAll_withStray body hbody)
        · next hholds =>
            rw [if_neg hholds] at hbody
            exact runCases_withStray rest hbody

end

theorem runMethod_withStray {m : Method} {globals : String → V}
    (h : A.MethodInRange n m globals) :
    (A.withStray stray).runMethod n m globals = A.runMethod n m globals :=
  Store.inScope_congr (runAll_withStray stray m.body h)

end Activation

end SpriteCompiler
