import SpriteCompiler.Proofs.Block.Grammar
import SpriteCompiler.Proofs.Code.Layout
import SpriteCompiler.Proofs.Lowering.Realize

namespace SpriteCompiler

open ScopeTree (Slot)

namespace Follows

variable {list : String} {T T' : List Slot} {L L' : List Mark}

theorem split (h : Follows list T (L ++ L') T') :
    ∃ T₁, Follows list T L T₁ ∧ Follows list T₁ L' T' := by
  induction L generalizing T with
  | nil => exact ⟨T, .nil, h⟩
  | cons m L ih =>
      cases h with
      | append h =>
          obtain ⟨T₁, hfirst, hrest⟩ := ih h
          exact ⟨T₁, .append hfirst, hrest⟩
      | delete h =>
          obtain ⟨T₁, hfirst, hrest⟩ := ih h
          exact ⟨T₁, .delete hfirst, hrest⟩
      | access hm h =>
          obtain ⟨T₁, hfirst, hrest⟩ := ih h
          exact ⟨T₁, .access hm hfirst, hrest⟩

-- The change in height is that in the number of slots.
theorem height_eq (h : Follows list T L T') :
    Move.height (L.map Mark.move) = (T'.length : Int) - T.length := by
  have hcons (m : Mark) (L : List Mark) :
      Move.height ((m :: L).map Mark.move) = m.move.change + Move.height (L.map Mark.move) := by
    simp [Move.height]
  induction h with
  | nil => simp [Move.height]
  | append _ ih =>
      rw [hcons, ih, List.length_append]
      simp only [Mark.move, Move.change, List.length_singleton]
      omega
  | delete _ ih =>
      rw [hcons, ih, List.length_append]
      simp only [Mark.move, Move.change, List.length_singleton]
      omega
  | @access _ _ _ m hm _ ih =>
      have hkeep : m.move.change = 0 := by
        cases m <;> first | rfl | exact hm.elim
      rw [hcons, ih, hkeep, zero_add]

end Follows

namespace Command.Fine

variable {o : Options} {T T' : List Slot} {code : List Command} {E : List Move} {e : Ending}

-- The paths through the blocks of typed code are those through the code, without their marks.
theorem path_iff (h : Fine o T code T') :
    Path (Block.flowAll o.stackList (emitAll o code)) E e ↔
      ∃ L, L.map Mark.move = E ∧ Path (flowAll o code) L e := by
  have hflow := flowAll_emitAll o code h.regular
  constructor
  · intro hp
    exact hp.of_mapAll hflow.symm
  · rintro ⟨L, rfl, hp⟩
    rw [hflow]
    exact hp.map Mark.move

-- A path through the blocks of typed code, with its marks.
theorem exists_marks (h : Fine o T code T')
    (hp : Path (Block.flowAll o.stackList (emitAll o code)) E e) :
    ∃ L, L.map Mark.move = E ∧ Follows o.stackList T L (e.slots T') := by
  obtain ⟨L, hL, hpath⟩ := h.path_iff.mp hp
  exact ⟨L, hL, h.typed.follows hpath⟩

-- Nothing is deleted but the last item.
theorem not_remove (h : Fine o T code T')
    (hp : Path (Block.flowAll o.stackList (emitAll o code)) E e) (index : Param) :
    .remove index ∉ E := by
  obtain ⟨L, rfl, -⟩ := h.path_iff.mp hp
  rw [List.mem_map]
  rintro ⟨m, -, hm⟩
  cases m <;> cases hm

-- On a path through typed code the height is that of the slots, and never negative where nothing was
-- on the stack before.
theorem height_nonneg (h : Fine o [] code T')
    (hp : Path (Block.flowAll o.stackList (emitAll o code)) E e) {E' : List Move} (hE : E' <+: E) :
    0 ≤ Move.height E' := by
  obtain ⟨L, rfl, hfollows⟩ := h.exists_marks hp
  obtain ⟨L', ⟨rest, rfl⟩, rfl⟩ := List.prefix_map_iff.mp hE
  obtain ⟨T₁, hfirst, _⟩ := hfollows.split
  rw [hfirst.height_eq]
  simp

theorem height_end (h : Fine o T code T')
    (hp : Path (Block.flowAll o.stackList (emitAll o code)) E e) :
    Move.height E = ((e.slots T').length : Int) - T.length := by
  obtain ⟨L, rfl, hfollows⟩ := h.exists_marks hp
  exact hfollows.height_eq

end Command.Fine

mutual

-- The bodies among the blocks, at every depth.
def Block.bodies : Block → List (List Block)
  | .mk _ params => Param.bodiesAll params

def Param.bodiesAll : List Param → List (List Block)
  | [] => []
  | .body blocks :: rest => blocks :: Block.bodiesAll blocks ++ Param.bodiesAll rest
  | _ :: rest => Param.bodiesAll rest

def Block.bodiesAll : List Block → List (List Block)
  | [] => []
  | b :: rest => b.bodies ++ Block.bodiesAll rest

end

theorem Block.bodiesAll_append (a b : List Block) :
    Block.bodiesAll (a ++ b) = Block.bodiesAll a ++ Block.bodiesAll b := by
  induction a with
  | nil => rfl
  | cons x a ih => simp only [List.cons_append, Block.bodiesAll, ih, List.append_assoc]

theorem Param.bodiesAll_cons {p : Param} (h : p.fits false) (rest : List Param) :
    Param.bodiesAll (p :: rest) = Param.bodiesAll rest := by
  cases p with
  | body blocks => simp [Param.fits] at h
  | _ => rfl

theorem Block.bodiesAll_plain {op : Opcode} {ps : List Param} (hps : ∀ p ∈ ps, p.fits false)
    (hlen : ps.length = op.arity) : Block.bodiesAll [.make op ps hlen] = [] := by
  have hnone : Param.bodiesAll ps = [] := by
    clear hlen
    induction ps with
    | nil => rfl
    | cons p ps ih =>
        rw [Param.bodiesAll_cons (hps p (List.mem_cons_self ..))]
        exact ih fun q hq => hps q (List.mem_cons_of_mem _ hq)
  simp only [Block.make, Block.bodiesAll, Block.bodies, hnone, List.append_nil]

namespace Command

-- Where the body of a block comes from: the release of several slots, or a body of the code.
def IsBody (o : Options) (bodies : List (List Command)) (b : List Block) : Prop :=
  b = [Stack.deleteLast o.stackList] ∨ ∃ body ∈ bodies, b = emitAll o body

variable {o : Options} {body : List Command}

theorem IsBody.mono {bodies bodies' : List (List Command)} {b : List Block}
    (h : IsBody o bodies b) (hsub : bodies ⊆ bodies') : IsBody o bodies' b :=
  h.imp id fun ⟨body, hmem, hb⟩ => ⟨body, hsub hmem, hb⟩

theorem IsBody.cons
    (h : ∀ b ∈ Block.bodiesAll (emitAll o body), IsBody o (bodiesAll body) b) {b : List Block}
    (hb : b ∈ emitAll o body :: Block.bodiesAll (emitAll o body)) :
    IsBody o (body :: bodiesAll body) b := by
  obtain rfl | hb := List.mem_cons.mp hb
  · exact .inr ⟨body, List.mem_cons_self .., rfl⟩
  · exact (h b hb).mono (List.subset_cons_self ..)

-- A block without bodies.
theorem isBody_plain {op : Opcode} {ps : List Param} {bodies : List (List Command)}
    (hps : ∀ p ∈ ps, p.fits false) (hlen : ps.length = op.arity) :
    ∀ b ∈ Block.bodiesAll [.make op ps hlen], IsBody o bodies b := by
  intro b hb
  rw [Block.bodiesAll_plain hps hlen] at hb
  cases hb

mutual

theorem isBody_of_emit (o : Options) :
    ∀ c : Command, ∀ b ∈ Block.bodiesAll (c.emit o), IsBody o c.bodies b
  | .push _ value => isBody_plain (by simp [value.fits_emit o]) rfl
  | .release slots => by
      unfold emit Stack.release
      split
      · exact isBody_plain (by simp) rfl
      · -- Several slots are released by a loop, whose body is the deletion itself.
        intro b hb
        left
        simpa [Stack.deleteLast, Block.make, Block.bodiesAll, Block.bodies, Param.bodiesAll_cons,
          Param.bodiesAll] using hb
  | .store site value => isBody_plain (by simp [value.fits_emit o, Stack.fits_slotIndex]) rfl
  | .setVariable _ value => isBody_plain (by simp [value.fits_emit o]) rfl
  | .changeVariable _ amount => isBody_plain (by simp [amount.fits_emit o]) rfl
  | .scope body => fun b hb => (isBody_of_emitAll o body b hb).mono (List.subset_cons_self ..)
  | .repeatTimes count body => fun b hb => IsBody.cons (isBody_of_emitAll o body) (by
      simpa [emit, Block.make, Block.bodiesAll, Block.bodies, Param.bodiesAll,
        Param.bodiesAll_cons (count.fits_emit o)] using hb)
  | .repeatUntil condition body => fun b hb => IsBody.cons (isBody_of_emitAll o body) (by
      simpa [emit, Block.make, Block.bodiesAll, Block.bodies, Param.bodiesAll,
        Param.bodiesAll_cons (condition.fits_emit o)] using hb)
  | .forever body => fun b hb => IsBody.cons (isBody_of_emitAll o body) (by
      simpa [emit, Block.make, Block.bodiesAll, Block.bodies, Param.bodiesAll] using hb)
  | .ifThen condition body => fun b hb => IsBody.cons (isBody_of_emitAll o body) (by
      simpa [emit, Block.make, Block.bodiesAll, Block.bodies, Param.bodiesAll,
        Param.bodiesAll_cons (condition.fits_emit o)] using hb)
  | .ifThenElse condition body other => fun b hb => by
      have hmem : b ∈ (emitAll o body :: Block.bodiesAll (emitAll o body)) ++
          (emitAll o other :: Block.bodiesAll (emitAll o other)) := by
        simpa [emit, Block.make, Block.bodiesAll, Block.bodies, Param.bodiesAll,
          Param.bodiesAll_cons (condition.fits_emit o)] using hb
      obtain hb | hb := List.mem_append.mp hmem
      · exact (IsBody.cons (isBody_of_emitAll o body) hb).mono (List.subset_append_left _ _)
      · exact (IsBody.cons (isBody_of_emitAll o other) hb).mono (List.subset_append_right _ _)
  | .stop => isBody_plain (by simp) rfl

theorem isBody_of_emitAll (o : Options) :
    ∀ code : List Command, ∀ b ∈ Block.bodiesAll (emitAll o code), IsBody o (bodiesAll code) b
  | [] => by simp [emitAll, Block.bodiesAll]
  | c :: rest => by
      intro b hb
      rw [emitAll, Block.bodiesAll_append, List.mem_append] at hb
      obtain hb | hb := hb
      · exact (isBody_of_emit o c b hb).mono (List.subset_append_left _ _)
      · exact (isBody_of_emitAll o rest b hb).mono (List.subset_append_right _ _)

end

end Command

-- A body that leaves the stack as high as it found it, whenever it runs to its end.
def Block.Neutral (list : String) (body : List Block) : Prop :=
  ∀ E, Path (Block.flowAll list body) E .finished → Move.height E = 0

-- Whatever the method is and whatever was reported, on every path through its body items are deleted
-- at the end of the stack only, the stack is never lower than at the start, and just as high at the
-- end, be that a stop or not. Every body inside is neutral, those that stand in place included; only
-- the loops that release slots are not.
theorem lowerMethod_balanced (o : Options) (ctx : Context) (m : Method) (r : Report)
    (hfit : m.Everywhere .slotsFit) :
    ∃ p r', lowerMethod o ctx m r = (.ok p, r') ∧
      (∀ E e, Path (Block.flowAll o.stackList p.body) E e →
        (∀ index, .remove index ∉ E) ∧
        (∀ E', E' <+: E → 0 ≤ Move.height E') ∧ Move.height E = 0) ∧
      (∀ body ∈ Block.bodiesAll p.body,
        body = [Stack.deleteLast o.stackList] ∨ Block.Neutral o.stackList body) ∧
      p.body = Command.emitAll o (m.plan o ctx).code ∧
      (∀ body ∈ Command.bodiesAll (m.plan o ctx).code,
        Block.Neutral o.stackList (Command.emitAll o body)) := by
  obtain ⟨p, r', hp, _, hbody, _⟩ := lowerMethod_eq o ctx m r
  have hfine := m.plan_fine o ctx hfit
  have hneutral : ∀ body ∈ Command.bodiesAll (m.plan o ctx).code,
      Block.Neutral o.stackList (Command.emitAll o body) := by
    intro body hmem E hpath
    obtain ⟨T, hin⟩ := hfine.inner hmem
    rw [hin.height_end hpath, Ending.slots, Int.sub_self]
  refine ⟨p, r', hp, fun E e hpath => ?_, fun b hb => ?_, hbody, hneutral⟩
  · rw [hbody] at hpath
    refine ⟨hfine.not_remove hpath, fun E' hE => hfine.height_nonneg hpath hE, ?_⟩
    rw [hfine.height_end hpath]
    cases e <;> rfl
  · rw [hbody] at hb
    refine (Command.isBody_of_emitAll o _ b hb).imp id ?_
    rintro ⟨body, hmem, rfl⟩
    exact hneutral body hmem

theorem lowerMethod_balanced_sample :
    Method.sample.Everywhere .slotsFit ∧
    ∃ p r', lowerMethod {} .sample Method.sample {} = (.ok p, r') ∧
      ∀ E e, Path (Block.flowAll "stack" p.body) E e →
        (∀ index, .remove index ∉ E) ∧ Move.height E = 0 := by
  obtain ⟨p, r', hp, hpath, _⟩ := lowerMethod_balanced {} .sample
    Method.sample {} Method.slotsFit_sample
  exact ⟨Method.slotsFit_sample, p, r', hp, fun E e h => ⟨(hpath E e h).1, (hpath E e h).2.2⟩⟩

end SpriteCompiler
