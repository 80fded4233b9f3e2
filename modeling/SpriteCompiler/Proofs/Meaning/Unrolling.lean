import SpriteCompiler.Proofs.Lowering.Realize
import SpriteCompiler.Proofs.Meaning.Datum
import SpriteCompiler.Proofs.Meaning.Runner
import SpriteCompiler.Proofs.Program.Everywhere
import Mathlib.Order.WithBot

namespace SpriteCompiler

-- The floor of a number, if it is one. The infinite ones are their own floors.
def Number.floor? (x : Float) : Option (WithBot (WithTop Int)) :=
  match Number.kind x with
  | .nan => none
  | .infinite true => some ⊥
  | .infinite false => some ⊤
  | .finite b => some ((b.floor : WithTop Int) : WithBot (WithTop Int))

section Floor

variable {limit : Nat} {x : Float}

theorem unrolling_of_floor {n : Nat} (hx : Number.floor? x = some (n : WithBot (WithTop Int)))
    (hn : n ≤ limit) : unrolling limit x = .times n := by
  rw [Number.floor?] at hx
  cases hkind : Number.kind x with
  | nan => simp [hkind] at hx
  | infinite negative =>
      rw [hkind] at hx
      cases negative with
      | true => simp at hx
      | false =>
          have htop : (⊤ : WithTop Int) = n := WithBot.coe_injective (Option.some.inj hx)
          exact absurd htop (WithTop.top_ne_natCast n)
  | finite b =>
      rw [hkind] at hx
      have hfloor : b.floor = n := by exact_mod_cast Option.some.inj hx
      have hle : ¬(limit : Int) < b.floor := by omega
      simp only [unrolling, hkind, hle, if_false]
      rw [hfloor, Int.toNat_natCast]

theorem unrolling_of_floor_le_zero (hx : ∀ k ∈ Number.floor? x, k ≤ 0) :
    unrolling limit x = .times 0 := by
  rw [Number.floor?] at hx
  rw [unrolling]
  cases hkind : Number.kind x with
  | nan => rfl
  | infinite negative =>
      rw [hkind] at hx
      cases negative with
      | true => rfl
      | false => exact absurd (hx _ rfl) (by decide)
  | finite b =>
      rw [hkind] at hx
      have hfloor : b.floor ≤ 0 := by exact_mod_cast hx _ rfl
      have hle : ¬(limit : Int) < b.floor := by omega
      simp only [hle, if_false, Int.toNat_of_nonpos hfloor]

theorem unrolling_of_lt_floor {k : WithBot (WithTop Int)} (hx : Number.floor? x = some k)
    (hk : (limit : WithBot (WithTop Int)) < k) : unrolling limit x = .tooMany := by
  rw [Number.floor?] at hx
  rw [unrolling]
  cases hkind : Number.kind x with
  | nan => simp [hkind] at hx
  | infinite negative =>
      rw [hkind] at hx
      cases negative with
      | true =>
          obtain rfl := Option.some.inj hx
          exact absurd hk not_lt_bot
      | false => rfl
  | finite b =>
      rw [hkind] at hx
      obtain rfl := Option.some.inj hx
      have hlt : (limit : Int) < b.floor := by exact_mod_cast hk
      simp only [hlt, if_true]

end Floor

namespace Expr

variable {o : Options} {count : Expr}

theorem copies_of_unrolling {x : Float} {n : Nat} (hx : count.literal? = some (.number x))
    (hn : unrolling o.maxInlineRepetitions.toNat x = .times n) :
    count.copies o = some n ∧ count.countProblems o = [] := by
  simp only [copies, countProblems, hx, hn, and_self]

theorem copies_of_refused
    (h : ∀ x, count.literal? = some (.number x) →
      unrolling o.maxInlineRepetitions.toNat x = .tooMany) :
    count.copies o = none ∧
      ∃ d, count.countProblems o = [d] ∧ d.kind = .invalidArgument := by
  unfold copies countProblems
  cases hliteral : count.literal? with
  | none => exact ⟨rfl, _, rfl, rfl⟩
  | some value =>
      cases value with
      | number x =>
          simp only [h x hliteral, true_and]
          exact ⟨_, rfl, rfl⟩
      | _ => exact ⟨rfl, _, rfl, rfl⟩

end Expr

-- Only what is done with the blocks of the body differs between a loop that is run and an inline one.
theorem Lower.run_inline (o : Options) {ctx : Context} {s s₁ : Session} {body : List Stmt}
    {blocks : List Block}
    (hbody : nested o ctx (fun inner => stmts o inner body) s = (.ok blocks, s₁)) (count : Expr)
    (loc : Location) :
    ∃ s', stmt o ctx (.repeatLoop true count body loc) s =
        (.ok (List.replicate ((count.copies o).getD 0) blocks).flatten, s') ∧
      s'.core = s₁.core.reported (count.countProblems o) := by
  obtain ⟨s', hrun, hcore⟩ := gives_unroll o count blocks s₁.core s₁ rfl
  refine ⟨s', ?_, hcore⟩
  rw [stmt, run_bind hbody]
  exact hrun

-- Inside a method the body and the count of a loop are always compiled, and what is wrong is then
-- reported. Wherever they are compiled, an inline loop does what the loop would do, and its body is
-- compiled once however often it is copied.
theorem inline_repeat_runs_as_loop (o : Options) (ctx : Context) (s : Session) (count : Expr)
    (body : List Stmt) (loc : Location) :
    (ctx.Ready s.scopes → s.Idle → ∃ blocks s₁ p s',
      Lower.nested o ctx (fun inner => Lower.stmts o inner body) s = (.ok blocks, s₁) ∧ s₁.Idle ∧
        Lower.expr o ctx count s₁ = (.ok p, s')) ∧
    ∀ blocks s₁, Lower.nested o ctx (fun inner => Lower.stmts o inner body) s = (.ok blocks, s₁) →
      (∀ p s', Lower.expr o ctx count s₁ = (.ok p, s') →
        Lower.stmt o ctx (.repeatLoop false count body loc) s =
          (.ok [.make .repeatTimes [p, .body blocks]], s')) ∧
      (∀ (x : Float) (n : Nat), count.literal? = some (.number x) →
        Number.floor? x = some (n : WithBot (WithTop Int)) → 0 < n →
        n ≤ o.maxInlineRepetitions.toNat →
        (∃ s', Lower.stmt o ctx (.repeatLoop true count body loc) s =
            (.ok (List.replicate n blocks).flatten, s') ∧ s'.core = s₁.core) ∧
        ∀ {σ : Type} {R : Runner σ}, R.Sequential → ∀ p,
          (∀ body w, R.run [.make .repeatTimes [p, .body body]] w =
            Outcome.times (R.run body) n w) →
          ∀ w, R.run (List.replicate n blocks).flatten w =
            R.run [.make .repeatTimes [p, .body blocks]] w) ∧
      (∀ x : Float, count.literal? = some (.number x) → (∀ k ∈ Number.floor? x, k ≤ 0) →
        ∃ s', Lower.stmt o ctx (.repeatLoop true count body loc) s = (.ok [], s') ∧
          s'.core = s₁.core) ∧
      ((∀ x : Float, count.literal? = some (.number x) →
          ∃ k ∈ Number.floor? x, (o.maxInlineRepetitions.toNat : WithBot (WithTop Int)) < k) →
        ∃ d s', Lower.stmt o ctx (.repeatLoop true count body loc) s = (.ok [], s') ∧
          d.kind = .invalidArgument ∧ s'.core = s₁.core.reported [d]) := by
  refine ⟨fun hr hs => ?_, fun blocks s₁ hbody => ?_⟩
  · obtain ⟨blocks, s₁, hbody, hs₁, hr₁⟩ := Lower.exists_nested o hr hs body
    obtain ⟨s', hcount, -⟩ := Lower.gives_expr (c := s₁.core) o hr₁.within count s₁ rfl
    exact ⟨blocks, s₁, _, s', hbody, hs₁, hcount⟩
  obtain ⟨s', hinline, hcore⟩ := Lower.run_inline o hbody count loc
  refine ⟨fun p s₂ hcount => ?_, fun x n hliteral hx hpos hle => ⟨?_, ?_⟩, ?_, ?_⟩
  · rw [Lower.stmt, Lower.run_bind hbody]
    exact Lower.run_bind hcount
  · obtain ⟨hcopies, hproblems⟩ := Expr.copies_of_unrolling hliteral (unrolling_of_floor hx hle)
    rw [hcopies] at hinline
    rw [hproblems, Core.reported_nil] at hcore
    exact ⟨s', hinline, hcore⟩
  · intro σ R hR p hp w
    rw [hR.run_replicate, hp]
  · intro x hliteral hx
    obtain ⟨hcopies, hproblems⟩ :=
      Expr.copies_of_unrolling hliteral (unrolling_of_floor_le_zero hx)
    rw [hcopies] at hinline
    rw [hproblems, Core.reported_nil] at hcore
    exact ⟨s', hinline, hcore⟩
  · intro h
    obtain ⟨hcopies, d, hproblems, hkind⟩ := Expr.copies_of_refused fun x hx => by
      obtain ⟨k, hk, hlt⟩ := h x hx
      exact unrolling_of_lt_floor hk hlt
    rw [hcopies] at hinline
    rw [hproblems] at hcore
    exact ⟨d, s', hinline, hkind, hcore⟩

-- Two and a half rounds are two. There are none of something that is not a number, and a parameter is
-- no count.
theorem inline_repeat_runs_as_loop_sample :
    (Context.sample.withScope 0).Ready Session.sample.scopes ∧ Session.sample.Idle ∧
    (∃ blocks s', Lower.stmt {} (Context.sample.withScope 0)
        (.repeatLoop true (.literal (.number 2.5) ⟨0, ⟨0, 0⟩⟩) [.ret none ⟨0, ⟨0, 0⟩⟩] ⟨0, ⟨0, 0⟩⟩)
        .sample = (.ok (List.replicate 2 blocks).flatten, s') ∧
      ∀ arguments n w, Block.runAll .exact arguments n (List.replicate 2 blocks).flatten w =
        Block.runAll .exact arguments n
          [.make .repeatTimes [.number (Float.ofNat 2), .body blocks]] w) ∧
    (∃ s', Lower.stmt {} (Context.sample.withScope 0)
        (.repeatLoop true (.literal (.number (0.0 / 0.0)) ⟨0, ⟨0, 0⟩⟩) [.ret none ⟨0, ⟨0, 0⟩⟩]
          ⟨0, ⟨0, 0⟩⟩) .sample = (.ok [], s')) ∧
    ∃ d s', Lower.stmt {} (Context.sample.withScope 0)
        (.repeatLoop true (.lookup "n" ⟨0, ⟨0, 0⟩⟩) [.ret none ⟨0, ⟨0, 0⟩⟩] ⟨0, ⟨0, 0⟩⟩) .sample =
          (.ok [], s') ∧
      d.kind = .invalidArgument ∧ s'.report.diagnostics = [d] := by
  have hs : Session.sample.Idle := ⟨rfl, rfl⟩
  have hloop (count : Expr) := inline_repeat_runs_as_loop {} (Context.sample.withScope 0) .sample
    count [.ret none ⟨0, ⟨0, 0⟩⟩] ⟨0, ⟨0, 0⟩⟩
  obtain ⟨blocks, s₁, -, -, hbody, hs₁, -⟩ := (hloop (.lookup "n" ⟨0, ⟨0, 0⟩⟩)).1
    Session.ready_sample hs
  refine ⟨Session.ready_sample, hs, ?_, ?_, ?_⟩
  · obtain ⟨-, hcopies, -⟩ := (hloop (.literal (.number 2.5) ⟨0, ⟨0, 0⟩⟩)).2 blocks s₁ hbody
    obtain ⟨⟨s', hrun, -⟩, hmeans⟩ := hcopies 2.5 2 rfl rfl (by decide) (by decide)
    refine ⟨blocks, s', hrun, fun arguments n w => ?_⟩
    refine hmeans (Runner.sequential_machine .exact arguments n) _ (fun body w => ?_) w
    have hcount := Interpretation.lawful_exact.count_offset 2 (by decide)
    refine (Block.runAll_singleton _ w).trans ?_
    change Outcome.times _ (Interpretation.exact.count (Interpretation.exact.offset 2)) w = _
    rw [hcount]
    rfl
  · obtain ⟨-, -, hnone, -⟩ := (hloop (.literal (.number (0.0 / 0.0)) ⟨0, ⟨0, 0⟩⟩)).2 blocks s₁ hbody
    obtain ⟨s', hrun, -⟩ := hnone (0.0 / 0.0) rfl nofun
    exact ⟨s', hrun⟩
  · obtain ⟨-, -, -, hrefused⟩ := (hloop (.lookup "n" ⟨0, ⟨0, 0⟩⟩)).2 blocks s₁ hbody
    obtain ⟨d, s', hrun, hkind, hcore⟩ := hrefused nofun
    have hclean : s₁.report.diagnostics = [] := by
      cases hbody
      rfl
    refine ⟨d, s', hrun, hkind, ?_⟩
    rw [Core.reported_of_not_muted (show s₁.core.muted = false from hs₁.not_muted)] at hcore
    have hreported := congrArg Core.diagnostics hcore
    change s'.report.diagnostics = s₁.report.diagnostics ++ [d] at hreported
    rwa [hclean] at hreported

end SpriteCompiler
