import SpriteCompiler.Proofs.Meaning.Runner
import SpriteCompiler.Proofs.Meaning.Statement

namespace SpriteCompiler

-- An inline loop has as many copies of its body as it has rounds.
theorem Expr.copies_eq {o : Options} {count : Expr} (h : count.countProblems o = []) :
    count.copies o = some count.repetitions := by
  rw [Expr.countProblems] at h
  rw [Expr.copies, Expr.repetitions]
  cases hliteral : count.literal? with
  | none => simp [hliteral] at h
  | some value =>
      cases value with
      | number x =>
          simp only [hliteral] at h ⊢
          cases hrounds : unrolling o.maxInlineRepetitions.toNat x with
          | tooMany => simp [hrounds] at h
          | times k =>
              simp only [Option.some.injEq]
              rw [unrolling] at hrounds
              rw [Number.whole]
              cases hkind : Number.kind x with
              | nan => simpa [hkind] using hrounds.symm
              | infinite negative =>
                  rw [hkind] at hrounds
                  cases negative with
                  | true => simpa using hrounds.symm
                  | false => simp at hrounds
              | finite b =>
                  simp only [hkind] at hrounds ⊢
                  split at hrounds
                  · cases hrounds
                  · exact (Unrolling.times.inj hrounds).symm
      | _ => simp [hliteral] at h

theorem Block.runAll_replicate {V : Type} (I : Interpretation V) (arguments : String → V) (n k : Nat)
    (body : List Block) (w : Memory V) :
    Block.runAll I arguments n (List.replicate k body).flatten w =
      Outcome.times (fun w => Block.runAll I arguments n body w) k w :=
  (Runner.sequential_machine I arguments n).run_replicate body k w

namespace Activation

variable {V : Type} {A : Activation V} {o : Options} {ctx : Context} {t : ScopeTree}
  {s : Store V} {w : Memory V} {n : Nat} (hI : A.interp.Lawful) (hc : A.Compiles o ctx t)
  (hw : A.Matches o.stackList (t.frames ctx.here) [] s w)

-- Wherever a body is compiled without problems, its blocks go along with it.
def FollowsIn (A : Activation V) (o : Options) (n : Nat) (body : List Stmt) : Prop :=
  ∀ ⦃ctx : Context⦄ ⦃t : ScopeTree⦄ ⦃s : Store V⦄ ⦃w : Memory V⦄, A.Compiles o ctx t →
    Stmt.EverywhereIn (A.demand o) (t.frames ctx.here) body →
    (Stmt.planAll o ctx body t).problems = [] →
    A.Matches o.stackList (t.frames ctx.here) [] s w →
    A.Follows o ((Stmt.planAll o ctx body t).scopes.frames ctx.here) (A.runAll n body s)
      (Block.runAll A.interp A.arguments n (Command.emitAll o (Stmt.planAll o ctx body t).code) w)

-- At the end of a nested scope, its own locals are the first frame, and the others are as outside.
theorem frames_nested (o : Options) (hr : ctx.Ready t) (body : List Stmt) :
    (Stmt.planAll o (ctx.withScope t.size) body (t.child ctx.here)).scopes.frames t.size =
      (Stmt.planAll o (ctx.withScope t.size) body (t.child ctx.here)).scopes.locals t.size ::
        t.frames ctx.here := by
  have hready := hr.child
  have hext := Stmt.planAll_extends o hready body
  have hsize : t.size < (t.child ctx.here).size := hready.lt_size
  have hinner := ScopeTree.frames_eq hsize
  have houter := hext.grows.outer_locals hsize
  rw [ScopeTree.frames_child hr.lt_size] at hinner
  rw [ScopeTree.frames_eq (hsize.trans_le hext.grows.size_le)]
  exact congrArg _ (houter.trans (List.cons.inj hinner).2.symm)

-- Nothing changes for what comes after a nested scope.
theorem Compiles.nested (hc : A.Compiles o ctx t) (body : List Stmt) :
    A.Compiles o ctx (Plan.nested ctx t fun inner t => Stmt.planAll o inner body t).scopes ∧
      (Plan.nested ctx t fun inner t => Stmt.planAll o inner body t).scopes.frames ctx.here =
        t.frames ctx.here := by
  have hext := Plan.nested_extends hc.ready fun hr => Stmt.planAll_extends o hr body
  have hkept := (Plan.nested_grows hc.ready fun hr => Stmt.planAll_extends o hr body).1
  exact ⟨hc.grows hext.grows hext.valid,
    hkept.frames_eq (Nat.le_refl _) hc.ready.lt_size⟩

theorem Matches.enter {F : List (List Local)} (hw : A.Matches o.stackList F [] s w) :
    A.Matches o.stackList ([] :: F) [] { s with frames := [] :: s.frames } w where
  globals := hw.globals
  others := hw.others
  stack := by simpa [Frames.stack] using hw.stack
  locals := congrArg ([] :: ·) hw.locals
  filled := by
    intro f hf
    obtain rfl | hf := List.mem_cons.mp hf
    · simp
    · exact hw.filled f hf
  fits := by simpa [Local.slotTotal, Local.slotCount] using hw.fits

include hI in
-- Releasing the locals of the innermost scope takes their slots off the stack.
theorem Matches.leave {F : List (List Local)} (t : ScopeTree) (i : Nat)
    (hw : A.Matches o.stackList (t.locals i :: F) [] s w) :
    A.Follows o F (.next { s with frames := s.frames.tail })
      (Block.runAll A.interp A.arguments n (Command.emitAll o (t.releases i)) w) := by
  obtain ⟨globals, frames⟩ := s
  cases frames with
  | nil => simpa [Frames.locals] using hw.locals
  | cons f outer =>
      have hlocals := hw.locals
      have hstack := hw.stack
      have hfits := hw.fits
      have hf : ∀ p ∈ f, p.2.length = p.1.slots := fun p hp => hw.filled f (by simp) p hp
      have hlen := Frames.length_flatMap hf
      simp only [Frames.locals, List.map_cons, List.cons.injEq] at hlocals
      simp only [Frames.stack, List.append_nil, ← List.append_assoc] at hstack
      simp only [Local.slotTotal, ← hlocals.1, List.length_nil] at hfits
      rw [t.run_releases hI A.arguments n o i hlocals.1 hf (by omega) hstack]
      refine .next ⟨hw.globals, fun l hl => ?_, ?_, hlocals.2, fun g hg => ?_, ?_⟩
      · rw [w.lists_setList_of_ne hl, hw.others l hl]
      · rw [w.lists_setList, List.append_nil, List.tail_cons]
      · exact hw.filled g (by simp only [List.tail_cons] at hg; simp [hg])
      · simp only [List.length_nil]
        omega

section Branches

variable {F : List (List Local)} {condition : Operand} {body other : List Command} {v : V} {b : Bool}
  {first second : Outcome (Store V)}
  (hv : (condition.emit o).value A.interp A.arguments w = some v) (hb : A.interp.truth v = b)
  (hfirst : A.Follows o F first
    (Block.runAll A.interp A.arguments n (Command.emitAll o body) w))

include hv hb hfirst

theorem follows_ifThen (hsecond : A.Follows o F second (.next w)) :
    A.Follows o F (if b then first else second)
      (Block.runAll A.interp A.arguments n (Command.emitAll o [.ifThen condition body]) w) := by
  simp only [Command.emitAll, Command.emit, List.append_nil, Block.runAll_singleton,
    Block.run, hv, Outcome.given, Option.elim_some, hb]
  cases b with
  | true => exact hfirst
  | false => exact hsecond

theorem follows_ifThenElse (hsecond : A.Follows o F second
      (Block.runAll A.interp A.arguments n (Command.emitAll o other) w)) :
    A.Follows o F (if b then first else second)
      (Block.runAll A.interp A.arguments n
        (Command.emitAll o [.ifThenElse condition body other]) w) := by
  simp only [Command.emitAll, Command.emit, List.append_nil, Block.runAll_singleton,
    Block.run, hv, Outcome.given, Option.elim_some, hb]
  cases b with
  | true => exact hfirst
  | false => exact hsecond

end Branches

section Parts

include hI hc hw

theorem value_conjunction (loc : Location) (conditions : List Expr)
    (hsound : ∀ e ∈ conditions, e.Sound A.interp o A.names (t.frames ctx.here))
    (hclean : ∀ e ∈ conditions, e.problems ctx t = []) :
    ∃ v, ((Operand.conjunction loc (conditions.map fun e => e.operand ctx t 0)).emit o).value
        A.interp A.arguments w = some v ∧
      A.interp.truth v = conditions.all (A.holds s) := by
  induction conditions with
  | nil => exact ⟨_, rfl, hI.truth_true⟩
  | cons e rest ih =>
      have he := value_operand hI hc hw e (hsound e (by simp)) (hclean e (by simp))
      cases rest with
      | nil => exact ⟨_, he, by simp [Activation.holds]⟩
      | cons e' rest =>
          obtain ⟨v, hv, htruth⟩ := ih (fun e he => hsound e (by simp [he]))
            (fun e he => hclean e (by simp [he]))
          refine ⟨_, BinaryOp.and.value_apply hI o loc he hv fun _ l r _ _ =>
            hI.fold_binary .and l r (by decide) (by decide), ?_⟩
          rw [hI.truth_and, htruth]
          rfl

omit hw in
-- A body in a scope of its own. Its locals are released at its end.
theorem follows_nested {body : List Stmt} (hbody : A.FollowsIn o n body)
    (h : Stmt.EverywhereIn (A.demand o) ([] :: t.frames ctx.here) body)
    (hclean : (Plan.nested ctx t fun inner t => Stmt.planAll o inner body t).problems = [])
    (s : Store V) (w : Memory V) (hw : A.Matches o.stackList (t.frames ctx.here) [] s w) :
    A.Follows o (t.frames ctx.here) (s.inScope fun s => A.runAll n body s)
      (Block.runAll A.interp A.arguments n (Command.emitAll o
        (Plan.nested ctx t fun inner t => Stmt.planAll o inner body t).code) w) := by
  have hframes := ScopeTree.frames_child hc.ready.lt_size
  have hstart := hw.enter
  rw [← hframes] at h hstart
  have hinner := hbody hc.child h hclean hstart
  have hend := frames_nested o hc.ready body
  rw [Plan.nested, Command.emitAll_append, Block.runAll_append]
  refine Outcome.Related.bind hinner fun s' w' hw' => ?_
  refine Matches.leave hI _ _ ?_
  rw [← hend]
  exact hw'

end Parts

mutual

theorem follows_plan (hI : A.interp.Lawful) (n : Nat) {ctx : Context} {t : ScopeTree} {s : Store V}
    {w : Memory V} (hc : A.Compiles o ctx t)
    (hw : A.Matches o.stackList (t.frames ctx.here) [] s w) :
    ∀ st : Stmt, st.Everywhere (A.demand o) (t.frames ctx.here) →
      (st.plan o ctx t).problems = [] →
      A.Follows o (st.declares (t.frames ctx.here)) (A.run n st s)
        (Block.runAll A.interp A.arguments n (Command.emitAll o (st.plan o ctx t).code) w)
  | .declare l, h, hclean => by
      have hfollows := follows_declare (n := n) hI hc hw h hclean
      rw [l.plan_frames hc.ready] at hfollows
      exact hfollows
  | .assign x a loc, h, hclean => follows_assign hI hc hw (fun e he => (h e he).2) loc hclean
  | .repeatLoop inline count body loc, h, hclean => by
      obtain ⟨⟨-, hcount⟩, hin⟩ := h
      obtain ⟨hc', hkept⟩ := hc.nested body
      rw [Stmt.plan] at hclean ⊢
      cases inline with
      | true =>
          simp only [if_true, List.append_eq_nil_iff] at hclean ⊢
          have hround := follows_nested hI hc (follows_planAll hI n body) hin hclean.1
          rw [Expr.copies_eq hclean.2, Command.emitAll_replicate, Block.runAll_replicate]
          exact Outcome.Related.times hround _ hw
      | false =>
          simp only [Bool.false_eq_true, if_false, List.append_eq_nil_iff] at hclean ⊢
          have hround := follows_nested hI hc (follows_planAll hI n body) hin hclean.1
          -- The count is compiled after the body, whose scope leaves the frames here as they are.
          have hw' := hw
          rw [← hkept] at hcount hw'
          have hv := value_operand hI hc' hw' count hcount hclean.2
          rw [List.length_nil] at hv
          simp only [Command.emitAll, Command.emit, List.append_nil, Block.runAll_singleton,
            Block.run, hv, Outcome.given, Option.elim_some]
          exact Outcome.Related.times hround _ hw
  | .whileLoop condition body loc, h, hclean => by
      obtain ⟨⟨-, hcondition⟩, hin⟩ := h
      simp only [Stmt.plan, List.append_eq_nil_iff] at hclean ⊢
      have hround := follows_nested hI hc (follows_planAll hI n body) hin hclean.2
      simp only [Command.emitAll, Command.emit, List.append_nil, Block.runAll_singleton,
        Block.run]
      refine Outcome.Related.loop (fun s w hw => ?_) hround (fun s w hw => hw.underway) n hw
      -- The blocks repeat until their condition holds, so the test is negated.
      have hv := value_operand hI hc hw condition hcondition hclean.1
      have hnot := UnaryOp.not.value_apply hI o condition.location hv
      rw [List.length_nil] at hnot
      rw [Operand.emit, hnot, Option.map_some, hI.truth_not, Bool.not_not]
      rfl
  | .forever body _, h, hclean => by
      have hround := follows_nested hI hc (follows_planAll hI n body) h hclean
      simp only [Stmt.plan, Command.emitAll, Command.emit, List.append_nil, Block.runAll_singleton,
        Block.run]
      exact Outcome.Related.loop (fun _ _ _ => rfl) hround (fun s w hw => hw.underway) n hw
  | .branch condition thenBody elseBody _, h, hclean => by
      obtain ⟨⟨-, hcondition⟩, hthen, helse⟩ := h
      obtain ⟨hc', hkept⟩ := hc.nested thenBody
      rw [Stmt.plan] at hclean ⊢
      rw [Activation.run]
      by_cases hempty : elseBody.isEmpty
      · simp only [hempty, if_true, List.append_eq_nil_iff] at hclean ⊢
        obtain rfl := List.isEmpty_iff.mp hempty
        have hv := value_operand hI hc hw condition hcondition hclean.1
        have hfirst := follows_nested hI hc (follows_planAll hI n thenBody) hthen hclean.2 s w hw
        exact follows_ifThen hv rfl hfirst (.next hw)
      · simp only [hempty, Bool.false_eq_true, if_false, List.append_eq_nil_iff] at hclean ⊢
        have hv := value_operand hI hc hw condition hcondition hclean.1
        have hfirst := follows_nested hI hc (follows_planAll hI n thenBody) hthen hclean.2.1 s w hw
        have hsecond := follows_nested hI hc' (follows_planAll hI n elseBody)
          (by rw [hkept]; exact helse) hclean.2.2 s w (by rw [hkept]; exact hw)
        rw [hkept] at hsecond
        exact follows_ifThenElse hv rfl hfirst hsecond
  | .switch _ cases _, h, hclean => follows_planCases hI n hc hw cases h hclean
  | .ret value _, h, hclean => follows_return hI hc hw (fun e he => (h e he).2) hclean _
  | .scope body _, h, hclean => by
      have hbody := follows_nested hI hc (follows_planAll hI n body) h hclean s w hw
      simp only [Stmt.plan, Command.emitAll, Command.emit, List.append_nil]
      exact hbody

theorem follows_planAll (hI : A.interp.Lawful) (n : Nat) : ∀ body : List Stmt, A.FollowsIn o n body
  | [] => fun _ _ _ _ _ _ _ hw => .next hw
  | st :: rest => by
      intro ctx t s w hc h hclean hw
      obtain ⟨hst, hrest⟩ := h
      simp only [Stmt.planAll, List.append_eq_nil_iff] at hclean ⊢
      have hext := st.plan_extends o hc.ready
      have hframes := st.plan_frames o hc.ready
      have hfirst := follows_plan hI n hc hw st hst hclean.1
      rw [← hframes] at hfirst hrest
      rw [Command.emitAll_append, Block.runAll_append]
      exact Outcome.Related.bind hfirst fun s' w' hw' =>
        follows_planAll hI n rest (hc.grows hext.grows hext.valid) hrest hclean.2 hw'

theorem follows_planCases (hI : A.interp.Lawful) (n : Nat) {ctx : Context} {t : ScopeTree}
    {s : Store V} {w : Memory V} (hc : A.Compiles o ctx t)
    (hw : A.Matches o.stackList (t.frames ctx.here) [] s w) :
    ∀ cases : List Case,
      Stmt.EverywhereInCases (A.demand o) (t.frames ctx.here) cases →
      (Stmt.planCases o ctx cases t).problems = [] →
      A.Follows o (t.frames ctx.here) (A.runCases n cases s)
        (Block.runAll A.interp A.arguments n
          (Command.emitAll o (Stmt.planCases o ctx cases t).code) w)
  | [], _, _ => .next hw
  | .mk conditions body isDefault loc :: rest, h, hclean => by
      obtain ⟨hconditions, hin, hcases⟩ := h
      have hconditions := fun e he => (hconditions e he).2
      obtain ⟨hc', hkept⟩ := hc.nested body
      have hround := follows_nested (n := n) hI hc (follows_planAll hI n body) hin
      rw [Stmt.planCases] at hclean ⊢
      rw [Activation.runCases]
      by_cases hdefault : rest.isEmpty && isDefault
      · -- A default is run without a test only where no case follows it.
        simp only [hdefault, if_true, Bool.true_or, Command.emitAll, Command.emit,
          List.append_nil] at hclean ⊢
        exact hround hclean s w hw
      · simp only [hdefault, Bool.false_eq_true, if_false, Bool.false_or] at hclean ⊢
        by_cases hempty : rest.isEmpty
        · simp only [hempty, if_true, List.append_eq_nil_iff, List.flatMap_eq_nil_iff] at hclean ⊢
          obtain rfl := List.isEmpty_iff.mp hempty
          obtain ⟨v, hv, hholds⟩ := value_conjunction hI hc hw loc conditions hconditions hclean.1
          exact follows_ifThen hv hholds (hround hclean.2 s w hw) (.next hw)
        · simp only [hempty, Bool.false_eq_true, if_false, List.append_eq_nil_iff,
            List.flatMap_eq_nil_iff] at hclean ⊢
          obtain ⟨v, hv, hholds⟩ := value_conjunction hI hc hw loc conditions hconditions hclean.1
          have hrest := follows_planCases hI n hc' (by rw [hkept]; exact hw) rest
            (by rw [hkept]; exact hcases) hclean.2.2
          rw [hkept] at hrest
          exact follows_ifThenElse hv hholds (hround hclean.2.1 s w hw) hrest

end

end Activation

end SpriteCompiler