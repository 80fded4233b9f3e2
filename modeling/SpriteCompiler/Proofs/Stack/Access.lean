import SpriteCompiler.Proofs.Stack.Balance

namespace SpriteCompiler

open ScopeTree (Slot)

namespace Mark

-- The tags on the stack after some marks.
def tags (now : List Slot) : List Mark → List Slot
  | [] => now
  | .append slot :: rest => tags (now ++ [slot]) rest
  | .delete :: rest => tags now.dropLast rest
  | _ :: rest => tags now rest

-- Above what was on the stack before, there is this tag at this position and nowhere else.
def OnlyAt (before now : List Slot) (position : Nat) (tag : Slot) : Prop :=
  before.length ≤ position ∧ now[position]? = some tag ∧
    ∀ other, before.length ≤ other → now[other]? = some tag → other = position

-- The index of an access designates the item of the local that the scopes have for its name. In an
-- array it is the item of the number that the operand evaluates to, where that is in range. Positions
-- start at zero and indexes at one.
def Designates (list : String) (before now : List Slot) : Mark → Prop
  | .cell site index => ∃ owner l position, site.owner? = some owner ∧ site.Finds l ∧
      l.slots = 1 ∧ OnlyAt before now position ⟨owner, l, 0⟩ ∧
      ∀ value, Stack.position? list now.length value index = some (position + 1)
  | .element site size operand index => ∃ owner l, site.owner? = some owner ∧ site.Finds l ∧
      l.slots = size ∧ ∀ i, 1 ≤ i → i ≤ size → ∃ position,
        OnlyAt before now position ⟨owner, l, i - 1⟩ ∧
        ∀ value, value operand = some i →
          Stack.position? list now.length value index = some (position + 1)
  | _ => True

variable {list : String} {T T' : List Slot} {L : List Mark} {m : Mark}

theorem tags_cons_of_hits (h : m.Hits list T) (now : List Slot) (rest : List Mark) :
    tags now (m :: rest) = tags now rest := by
  cases m <;> first | rfl | exact h.elim

theorem onlyAt_of_getElem? (hnodup : T.Nodup) {p : Nat} {tag : Slot} (hp : T[p]? = some tag)
    (before : List Slot) : OnlyAt before (before ++ T) (before.length + p) tag := by
  refine ⟨by omega, ?_, fun other hle hother => ?_⟩
  · rw [List.getElem?_append_right (by omega)]
    simpa using hp
  · rw [List.getElem?_append_right hle] at hother
    have hlt : other - before.length < T.length := (List.getElem?_eq_some_iff.mp hother).1
    have := (List.getElem?_inj hlt hnodup).mp (hother.trans hp.symm)
    omega

theorem Hits.designates (h : m.Hits list T) (before : List Slot) :
    m.Designates list before (before ++ T) := by
  cases m with
  | cell site index =>
      obtain ⟨hnodup, owner, l, p, howner, hlocal, hslots, hp, hposition⟩ := h
      refine ⟨owner, l, before.length + p, howner, hlocal, hslots,
        onlyAt_of_getElem? hnodup hp before, ?_⟩
      rw [List.length_append]
      exact hposition before.length
  | element site size operand index =>
      obtain ⟨hnodup, owner, l, p, howner, hlocal, hslots, hitems⟩ := h
      refine ⟨owner, l, howner, hlocal, hslots, fun i hi hsize => ?_⟩
      obtain ⟨k, rfl⟩ : ∃ k, i = k + 1 := ⟨i - 1, by omega⟩
      obtain ⟨hp, hposition⟩ := hitems k (by omega)
      refine ⟨before.length + (p + k), onlyAt_of_getElem? hnodup hp before, ?_⟩
      rw [List.length_append]
      exact hposition before.length
  | _ => trivial

end Mark

namespace Follows

variable {list : String} {T T' : List Slot} {L L' : List Mark} {m : Mark}

-- What lies below is not touched.
theorem tags_eq (h : Follows list T L T') (before : List Slot) :
    Mark.tags (before ++ T) L = before ++ T' := by
  induction h with
  | nil => rfl
  | append _ ih => rwa [Mark.tags, List.append_assoc]
  | delete _ ih => rwa [Mark.tags, ← List.append_assoc, List.dropLast_concat]
  | access hm _ ih => rwa [Mark.tags_cons_of_hits hm]

theorem designates (h : Follows list [] L T') (before : List Slot) (first : List Mark) (m : Mark)
    (rest : List Mark) (hL : L = first ++ m :: rest) :
    m.Designates list before (Mark.tags before first) := by
  subst hL
  obtain ⟨T, hfirst, hrest⟩ := h.split
  have htags := hfirst.tags_eq before
  rw [List.append_nil] at htags
  rw [htags]
  cases hrest with
  | append _ => trivial
  | delete _ => trivial
  | access hm _ => exact hm.designates before

end Follows

-- Whatever the method is and whatever was reported: the paths through its body are those through the
-- code without their marks, which are the slots that the code pushes and the locals that it names.
-- On every one of them each index designates the item of the local that is found for the name at that
-- place, in the run that is going on.
theorem lowerMethod_designates (o : Options) (ctx : Context) (m : Method) (r : Report)
    (hfit : m.Everywhere .slotsFit) :
    ∃ p r', lowerMethod o ctx m r = (.ok p, r') ∧
      p.body = Command.emitAll o (m.plan o ctx).code ∧
      (∀ E e, Path (Block.flowAll o.stackList p.body) E e ↔
        ∃ L, L.map Mark.move = E ∧ Path (Command.flowAll o (m.plan o ctx).code) L e) ∧
      ∀ L e, Path (Command.flowAll o (m.plan o ctx).code) L e →
        ∀ (before : List Slot) (first : List Mark) (mark : Mark) (rest : List Mark),
          L = first ++ mark :: rest →
            mark.Designates o.stackList before (Mark.tags before first) := by
  obtain ⟨p, r', hp, _, hbody, _⟩ := lowerMethod_eq o ctx m r
  have hfine := m.plan_fine o ctx hfit
  refine ⟨p, r', hp, hbody, fun E e => ?_, fun L e hpath before first mark rest => ?_⟩
  · rw [hbody]
    exact hfine.path_iff
  · exact (hfine.typed.follows hpath).designates before first mark rest

theorem lowerMethod_designates_sample :
    Method.sample.Everywhere .slotsFit ∧
    ∃ p r', lowerMethod {} .sample Method.sample {} = (.ok p, r') ∧
      ∀ L e, Path (Command.flowAll {} (Method.sample.plan {} .sample).code) L e →
        Path (Block.flowAll "stack" p.body) (L.map Mark.move) e ∧
        ∀ first mark rest, L = first ++ mark :: rest →
          mark.Designates "stack" [] (Mark.tags [] first) := by
  obtain ⟨p, r', hp, _, hpath, hdesignates⟩ := lowerMethod_designates {} .sample
    Method.sample {} Method.slotsFit_sample
  refine ⟨Method.slotsFit_sample, p, r', hp, fun L e h => ⟨?_, hdesignates L e h []⟩⟩
  exact (hpath _ e).mpr ⟨L, rfl, h⟩

end SpriteCompiler
