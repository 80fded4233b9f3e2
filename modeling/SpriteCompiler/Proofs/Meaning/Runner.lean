import SpriteCompiler.Lowering.Stmt
import SpriteCompiler.Proofs.Meaning.Machine

namespace SpriteCompiler

-- A way to run blocks. Testing a condition may change the state, so that it can be told which conditions
-- are tested and in what order.
structure Runner (σ : Type) where
  run : List Block → σ → Outcome σ
  -- whether a condition holds, if that can be told, and the state after the test
  test : Param → σ → Option (Bool × σ)

namespace Runner

section Laws

variable {σ : Type} (R : Runner σ)

structure Sequential : Prop where
  nil : ∀ w, R.run [] w = .next w
  append : ∀ a b w, R.run (a ++ b) w = (R.run a w).bind (R.run b)

structure Branching : Prop where
  nil : ∀ w, R.run [] w = .next w
  ifThen : ∀ p body w, R.run [.make .ifThen [p, .body body]] w =
    Outcome.given (R.test p w) fun r => if r.1 then R.run body r.2 else .next r.2
  ifThenElse : ∀ p body other w, R.run [.make .ifThenElse [p, .body body, .body other]] w =
    Outcome.given (R.test p w) fun r => if r.1 then R.run body r.2 else R.run other r.2
  boolean : ∀ b w, R.test (.literal (.boolean b)) w = some (b, w)
  and : ∀ p q w, R.test (.block (.make .and [p, q])) w =
    (R.test p w).bind fun r => (R.test q r.2).map fun r' => (r.1 && r'.1, r'.2)

-- Whether all conditions hold, tested one after the other.
def testAll : List Param → σ → Option (Bool × σ)
  | [], w => some (true, w)
  | p :: rest, w =>
    (R.test p w).bind fun r => (testAll rest r.2).map fun r' => (r.1 && r'.1, r'.2)

end Laws

variable {σ : Type} {R : Runner σ}

-- Copies of a body are run like a loop around the body.
theorem Sequential.run_replicate (hR : R.Sequential) (body : List Block) (n : Nat) (w : σ) :
    R.run (List.replicate n body).flatten w = Outcome.times (R.run body) n w := by
  induction n generalizing w with
  | zero => exact hR.nil w
  | succ n ih =>
      rw [List.replicate_succ, List.flatten_cons, hR.append, Outcome.times]
      congr 1
      funext w
      exact ih w

-- Two literals are joined at compile time if they are booleans, and then the result is a literal.
theorem Branching.test_and (hR : R.Branching) (o : Options) (p q : Param) (loc : Location) (w : σ) :
    R.test (BinaryOp.and.apply o p q loc) w =
      (R.test p w).bind fun r => (R.test q r.2).map fun r' => (r.1 && r'.1, r'.2) := by
  rw [BinaryOp.apply]
  cases hfold : BinaryOp.and.foldParams? o p q loc with
  | none => exact hR.and p q w
  | some folded =>
      simp only [BinaryOp.foldParams?, Option.ite_none_right_eq_some, Option.bind_eq_some_iff,
        Option.map_eq_some_iff] at hfold
      obtain ⟨_, l, hl, r, hr, value, hvalue, rfl⟩ := hfold
      cases p with
      | literal l' =>
          cases q with
          | literal r' =>
              obtain rfl := Option.some.inj hl
              obtain rfl := Option.some.inj hr
              cases l' with
              | boolean a =>
                  cases r' with
                  | boolean b =>
                      cases hvalue
                      simp only [Option.getD_some, hR.boolean, Option.bind_some, Option.map_some]
                  | _ => cases hvalue
              | number x => cases r' <;> cases hvalue
              | text x => cases r' <;> cases hvalue
          | _ => cases hr
      | _ => cases hl

-- Joined conditions are tested in the order they are listed in.
theorem Branching.test_conjunction (hR : R.Branching) (o : Options) (loc : Location)
    (ps : List Param) (w : σ) : R.test (Lower.conjunction o loc ps) w = R.testAll ps w := by
  induction ps generalizing w with
  | nil => exact hR.boolean true w
  | cons p rest ih =>
      cases rest with
      | nil =>
          rw [Lower.conjunction, testAll]
          simp only [testAll, Option.map_some, Bool.and_true]
          exact (Option.bind_fun_some (R.test p w)).symm
      | cons q rest =>
          rw [Lower.conjunction, hR.test_and, testAll]
          · simp only [ih]
          · exact nofun

-- The machine, where testing a condition leaves the memory as it is.

section Machine

variable {V : Type} (I : Interpretation V) (arguments : String → V) (n : Nat)

def machine : Runner (Memory V) where
  run blocks w := Block.runAll I arguments n blocks w
  test p w := (p.value I arguments w).map fun v => (I.truth v, w)

theorem sequential_machine : (machine I arguments n).Sequential where
  nil _ := rfl
  append := Block.runAll_append

variable {I}

theorem branching_machine (hI : I.Lawful) : (machine I arguments n).Branching where
  nil _ := rfl
  ifThen p body w := by
    refine (Block.runAll_singleton _ w).trans ?_
    change Outcome.given (p.value I arguments w) _ = Outcome.given (Option.map _ _) _
    cases p.value I arguments w with
    | none => rfl
    | some v => rfl
  ifThenElse p body other w := by
    refine (Block.runAll_singleton _ w).trans ?_
    change Outcome.given (p.value I arguments w) _ = Outcome.given (Option.map _ _) _
    cases p.value I arguments w with
    | none => rfl
    | some v => rfl
  boolean b w := by
    change some (I.truth (I.literal (.boolean b)), w) = some (b, w)
    cases b with
    | true => rw [hI.truth_true]
    | false =>
        have hfalse := hI.fold_unary .not (.boolean true) ⟨0, ⟨0, 0⟩⟩ (.boolean false) rfl
        rw [← hfalse, hI.truth_not, hI.truth_true]
        rfl
  and p q w := by
    change ((Param.block (.mk .and [p, q])).value I arguments w).map _ = _
    rw [Param.value_binary_eq rfl]
    change _ = ((p.value I arguments w).map _).bind _
    cases p.value I arguments w with
    | none => rfl
    | some u =>
        change ((q.value I arguments w).map _).map _ = ((q.value I arguments w).map _).map _
        cases q.value I arguments w with
        | none => rfl
        | some v => simp only [Option.map_some, hI.truth_and]

end Machine

end Runner

end SpriteCompiler
