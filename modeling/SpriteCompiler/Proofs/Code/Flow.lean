import SpriteCompiler.Proofs.Block.Flow
import SpriteCompiler.Proofs.Code.Command

namespace SpriteCompiler

-- What happens to the stack, with the slot an item is pushed for or the local an access is meant for.
inductive Mark where
  | append (slot : ScopeTree.Slot)
  | delete
  -- a local variable is read or replaced
  | cell (site : Site) (index : Param)
  -- an item of a local array is read, with an operand that says which
  | element (site : Site) (size : Nat) (operand index : Param)
  -- an item of a global list is read that has the name of the stack
  | global (index : Param)

def Mark.move : Mark → Move
  | .append _ => .append
  | .delete => .delete
  | .cell _ index => .access index
  | .element _ _ _ index => .access index
  | .global index => .access index

namespace Operand

-- What happens to the stack where an operand is evaluated.
def marks (o : Options) : Operand → List Mark
  | .cell site => [.cell site (Stack.slotIndex o.stackList site.depth)]
  | .item list index =>
    index.marks o ++ if list = o.stackList then [.global (index.emit o)] else []
  | .element site size index =>
    index.marks o ++
      [.element site size (index.emit o)
        (Stack.itemIndex o.stackList site.depth size (index.emit o))]
  | .unary _ operand _ => operand.marks o
  | .binary _ left right _ => left.marks o ++ right.marks o
  | _ => []

theorem reads_emit (o : Options) (e : Operand) :
    ((e.emit o).reads o.stackList).map .access = (e.marks o).map Mark.move := by
  induction e with
  | literal value => rfl
  | empty => rfl
  | global name => rfl
  | contents list => rfl
  | param name kind => rfl
  | cell site => simp [emit, marks, Stack.reads_read, Stack.reads_slotIndex, Mark.move]
  | item list index ih =>
      by_cases hl : list = o.stackList <;>
        simp [emit, marks, Param.reads, Block.reads, Param.allReads, Block.readIndex,
          Param.text, ih, hl, Mark.move]
  | element site size index ih =>
      simp [emit, marks, Stack.reads_read, Stack.reads_itemIndex, ih, Mark.move]
  | unary op e loc ih => simp only [emit, marks, UnaryOp.reads_apply, ih]
  | binary op a b loc iha ihb =>
      simp only [emit, marks, BinaryOp.reads_apply, List.map_append, iha, ihb]

end Operand

namespace Command

mutual

def flow (o : Options) : Command → List (Flow Mark)
  | .push slot value => Flow.acts (value.marks o ++ [.append slot])
  | .release slots =>
    if slots = 1 then [.act .delete] else [.loop (some slots) [] [.act .delete]]
  | .store site value =>
    Flow.acts (value.marks o ++ [.cell site (Stack.slotIndex o.stackList site.depth)])
  | .setVariable _ value => Flow.acts (value.marks o)
  | .changeVariable _ amount => Flow.acts (amount.marks o)
  | .scope body => flowAll o body
  | .repeatTimes count body => Flow.acts (count.marks o) ++ [.loop none [] (flowAll o body)]
  | .repeatUntil condition body => [.loop none (condition.marks o) (flowAll o body)]
  | .forever body => [.loop none [] (flowAll o body)]
  | .ifThen condition body => Flow.acts (condition.marks o) ++ [.branch (flowAll o body) []]
  | .ifThenElse condition body other =>
    Flow.acts (condition.marks o) ++ [.branch (flowAll o body) (flowAll o other)]
  | .stop => [.stop]

def flowAll (o : Options) : List Command → List (Flow Mark)
  | [] => []
  | c :: rest => c.flow o ++ flowAll o rest

end

mutual

-- The bodies inside a command, at every depth.
def bodies : Command → List (List Command)
  | .scope body | .repeatTimes _ body | .repeatUntil _ body | .forever body | .ifThen _ body =>
    body :: bodiesAll body
  | .ifThenElse _ body other => (body :: bodiesAll body) ++ (other :: bodiesAll other)
  | _ => []

def bodiesAll : List Command → List (List Command)
  | [] => []
  | c :: rest => c.bodies ++ bodiesAll rest

end

mutual

-- How many slots are released at a time, at every depth.
def released : Command → List Nat
  | .release slots => [slots]
  | .scope body | .repeatTimes _ body | .repeatUntil _ body | .forever body | .ifThen _ body =>
    releasedAll body
  | .ifThenElse _ body other => releasedAll body ++ releasedAll other
  | _ => []

def releasedAll : List Command → List Nat
  | [] => []
  | c :: rest => c.released ++ releasedAll rest

end

variable (o : Options) (a b : List Command)

theorem flowAll_append : flowAll o (a ++ b) = flowAll o a ++ flowAll o b := by
  induction a with
  | nil => rfl
  | cons c a ih => simp only [List.cons_append, flowAll, ih, List.append_assoc]

theorem bodiesAll_append : bodiesAll (a ++ b) = bodiesAll a ++ bodiesAll b := by
  induction a with
  | nil => rfl
  | cons c a ih => simp only [List.cons_append, bodiesAll, ih, List.append_assoc]

theorem releasedAll_append : releasedAll (a ++ b) = releasedAll a ++ releasedAll b := by
  induction a with
  | nil => rfl
  | cons c a ih => simp only [List.cons_append, releasedAll, ih, List.append_assoc]

-- What is inside a body of some code is inside the code.

variable {body : List Command}

-- The body is inside the command, with all that is inside it.
def Within (body : List Command) (bodies : List (List Command)) (released : List Nat) : Prop :=
  bodiesAll body ⊆ bodies ∧ releasedAll body ⊆ released

theorem Within.mono {bodies bodies' : List (List Command)} {released released' : List Nat}
    (h : Within body bodies released) (hb : bodies ⊆ bodies') (hr : released ⊆ released') :
    Within body bodies' released' :=
  ⟨List.Subset.trans h.1 hb, List.Subset.trans h.2 hr⟩

theorem Within.cons {inner : List Command}
    (h : ∀ b ∈ bodiesAll inner, Within b (bodiesAll inner) (releasedAll inner))
    (hbody : body ∈ inner :: bodiesAll inner) :
    Within body (inner :: bodiesAll inner) (releasedAll inner) := by
  obtain rfl | hbody := List.mem_cons.mp hbody
  · exact ⟨List.subset_cons_self .., List.Subset.refl _⟩
  · exact (h body hbody).mono (List.subset_cons_self ..) (List.Subset.refl _)

mutual

theorem within_of_mem_bodies : ∀ c : Command, ∀ body ∈ c.bodies, Within body c.bodies c.released
  | .push _ _ => by simp [bodies]
  | .release _ => by simp [bodies]
  | .store _ _ => by simp [bodies]
  | .setVariable _ _ => by simp [bodies]
  | .changeVariable _ _ => by simp [bodies]
  | .scope body => fun _ h => Within.cons (within_of_mem_bodiesAll body) h
  | .repeatTimes _ body => fun _ h => Within.cons (within_of_mem_bodiesAll body) h
  | .repeatUntil _ body => fun _ h => Within.cons (within_of_mem_bodiesAll body) h
  | .forever body => fun _ h => Within.cons (within_of_mem_bodiesAll body) h
  | .ifThen _ body => fun _ h => Within.cons (within_of_mem_bodiesAll body) h
  | .ifThenElse _ body other => fun _ h => by
      obtain h | h := List.mem_append.mp h
      · exact (Within.cons (within_of_mem_bodiesAll body) h).mono (List.subset_append_left _ _)
          (List.subset_append_left _ _)
      · exact (Within.cons (within_of_mem_bodiesAll other) h).mono (List.subset_append_right _ _)
          (List.subset_append_right _ _)
  | .stop => by simp [bodies]

theorem within_of_mem_bodiesAll : ∀ code : List Command,
    ∀ body ∈ bodiesAll code, Within body (bodiesAll code) (releasedAll code)
  | [] => by simp [bodiesAll]
  | c :: rest => fun body h => by
      obtain h | h := List.mem_append.mp h
      · exact (within_of_mem_bodies c body h).mono (List.subset_append_left _ _)
          (List.subset_append_left _ _)
      · exact (within_of_mem_bodiesAll rest body h).mono (List.subset_append_right _ _)
          (List.subset_append_right _ _)

end

end Command

theorem Stack.flowAll_deleteLast (list : String) :
    Block.flowAll list [deleteLast list] = [.act .delete] := by
  simp [deleteLast, Block.make, Block.flowAll, Block.flow, Block.moves, Move.deletion, Param.allReads,
    Param.reads, Param.text, Flow.acts]

-- A release deletes as many items as it says.
theorem Stack.flowAll_release (list : String) {slots : Nat} (h : slots < 2 ^ 32) :
    Block.flowAll list [release list slots] =
      if slots = 1 then [.act .delete] else [.loop (some slots) [] [.act .delete]] := by
  have hdelete := flowAll_deleteLast list
  have hcount : releaseCount? list (.number (Float.ofNat slots)) [deleteLast list] = some slots := by
    simp [releaseCount?, deleteLast, Block.make, Param.number, Param.text, Number.natural?_ofNat h]
  have hreads : (Param.number (Float.ofNat slots)).reads list = [] := rfl
  unfold release
  split
  · exact hdelete
  · simp only [Block.make, Block.flowAll, Block.flow, List.append_nil] at hdelete ⊢
    rw [hdelete, hcount, hreads]
    rfl

-- A body that is more than a deletion is not taken for a release.
theorem Stack.releaseCount?_eq_none {list : String} (count : Param) {body : List Block}
    (h : body ≠ [deleteLast list]) : releaseCount? list count body = none := by
  unfold releaseCount?
  split
  · split
    · next hl => exact absurd (by rw [hl]; rfl) h
    · rfl
  · rfl

-- Nothing but a deletion looks like one without its marks.
theorem Flow.eq_delete {fs : List (Flow Mark)} (h : mapAll Mark.move fs = [.act .delete]) :
    fs = [.act .delete] := by
  obtain ⟨x, rest, rfl, hx, hrest⟩ := mapAll_eq_cons h
  obtain ⟨a, rfl, ha⟩ := map_eq_act hx
  cases rest with
  | nil => cases a <;> simp_all [Mark.move]
  | cons y rest => cases hrest

namespace Command

-- Code whose marks are the moves of its blocks: what it releases can be counted, and no body of it
-- could be taken for a release.
structure Regular (o : Options) (code : List Command) : Prop where
  released_lt : ∀ n ∈ releasedAll code, n < 2 ^ 32
  not_delete : ∀ body ∈ bodiesAll code, flowAll o body ≠ [.act .delete]

namespace Regular

variable {o : Options} {code body rest : List Command} {c : Command}

theorem head (h : Regular o (c :: rest)) : Regular o [c] where
  released_lt n hn := h.released_lt n (by simp_all [releasedAll])
  not_delete b hb := h.not_delete b (by simp_all [bodiesAll])

theorem tail (h : Regular o (c :: rest)) : Regular o rest where
  released_lt n hn := h.released_lt n (by simp_all [releasedAll])
  not_delete b hb := h.not_delete b (by simp_all [bodiesAll])

theorem inner (h : Regular o [c]) (hr : releasedAll body ⊆ c.released)
    (hb : body :: bodiesAll body ⊆ c.bodies) : Regular o body where
  released_lt n hn := h.released_lt n (by simp [releasedAll, hr hn])
  not_delete b hmem := h.not_delete b (by simp [bodiesAll, hb (List.mem_cons_of_mem _ hmem)])

end Regular

theorem flow_append_acts (L : List Mark) (x : Flow Mark) :
    Flow.mapAll Mark.move (Flow.acts L ++ [x]) =
      Flow.acts (L.map Mark.move) ++ [x.map Mark.move] := by
  rw [Flow.mapAll_append, Flow.mapAll_acts]
  rfl

mutual

-- Blocks do to the stack what the code does that they were written from.
theorem flow_emit (o : Options) : ∀ c : Command, Regular o [c] →
    Block.flowAll o.stackList (c.emit o) = Flow.mapAll Mark.move (c.flow o)
  | .push slot value, _ => by
      simp [emit, flow, Stack.push, Block.make, Block.flowAll, Block.flow, Block.moves,
        Param.allReads, Param.reads, Param.text, Operand.reads_emit, Flow.mapAll_acts, Mark.move]
  | .release slots, h => by
      have hlt := h.released_lt slots (by simp [releasedAll, released])
      rw [emit, Stack.flowAll_release _ hlt, flow]
      split <;> simp [Flow.mapAll, Flow.map, Mark.move]
  | .store site value, _ => by
      simp [emit, flow, Stack.write, Block.make, Block.flowAll, Block.flow, Block.moves,
        Param.allReads, Param.reads, Param.text, Stack.reads_slotIndex, Operand.reads_emit,
        Flow.mapAll_acts, Mark.move]
  | .setVariable _ value, _ => by
      simp [emit, flow, Block.flowAll, Block.flow, Block.moves, Param.allReads,
        Param.reads, Param.text, Operand.reads_emit, Flow.mapAll_acts]
  | .changeVariable _ amount, _ => by
      simp [emit, flow, Block.flowAll, Block.flow, Block.moves, Param.allReads,
        Param.reads, Param.text, Operand.reads_emit, Flow.mapAll_acts]
  | .scope body, h => by
      rw [emit, flow, flowAll_emitAll o body (h.inner (by simp [released]) (by simp [bodies]))]
  | .repeatTimes count body, h => by
      have hbody := flowAll_emitAll o body (h.inner (by simp [released]) (by simp [bodies]))
      -- A loop of the source is never taken for a release, as its body is not a lone deletion.
      have hcount : Stack.releaseCount? o.stackList (count.emit o) (emitAll o body) = none := by
        refine Stack.releaseCount?_eq_none _ fun hdelete => ?_
        rw [hdelete, Stack.flowAll_deleteLast] at hbody
        exact h.not_delete body (by simp [bodiesAll, bodies]) (Flow.eq_delete hbody.symm)
      simp [emit, flow, Block.flowAll, Block.flow, Operand.reads_emit,
        flow_append_acts, Flow.map, hbody, hcount]
  | .repeatUntil condition body, h => by
      have hbody := flowAll_emitAll o body (h.inner (by simp [released]) (by simp [bodies]))
      simp [emit, flow, Block.flowAll, Block.flow, Operand.reads_emit, Flow.mapAll,
        Flow.map, hbody]
  | .forever body, h => by
      have hbody := flowAll_emitAll o body (h.inner (by simp [released]) (by simp [bodies]))
      simp [emit, flow, Block.flowAll, Block.flow, Flow.mapAll, Flow.map, hbody]
  | .ifThen condition body, h => by
      have hbody := flowAll_emitAll o body (h.inner (by simp [released]) (by simp [bodies]))
      simp [emit, flow, Block.flowAll, Block.flow, Operand.reads_emit,
        flow_append_acts, Flow.mapAll, Flow.map, hbody]
  | .ifThenElse condition body other, h => by
      have hbody := flowAll_emitAll o body (h.inner (by simp [released]) (by simp [bodies]))
      have hother := flowAll_emitAll o other (h.inner (by simp [released]) (by simp [bodies]))
      simp [emit, flow, Block.flowAll, Block.flow, Operand.reads_emit,
        flow_append_acts, Flow.map, hbody, hother]
  | .stop, _ => by
      simp [emit, flow, Block.flowAll, Block.flow, Flow.mapAll, Flow.map]

theorem flowAll_emitAll (o : Options) : ∀ code : List Command, Regular o code →
    Block.flowAll o.stackList (emitAll o code) = Flow.mapAll Mark.move (flowAll o code)
  | [], _ => rfl
  | c :: rest, h => by
      rw [emitAll, Block.flowAll_append, flow_emit o c h.head, flowAll_emitAll o rest h.tail,
        flowAll, Flow.mapAll_append]

end

end Command

end SpriteCompiler
