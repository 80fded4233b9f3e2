import SpriteCompiler.Proofs.Code.Flow

namespace SpriteCompiler

open ScopeTree (Slot cells)

-- With these slots on the stack, an access designates the slot that belongs to the local that was
-- named, whatever lies below.
def Mark.Hits (list : String) (T : List Slot) : Mark → Prop
  | .cell site index => T.Nodup ∧ ∃ i l p, site.owner? = some i ∧ site.Finds l ∧
      l.slots = 1 ∧ T[p]? = some ⟨i, l, 0⟩ ∧
      ∀ below value, Stack.position? list (below + T.length) value index = some (below + p + 1)
  | .element site size operand index => T.Nodup ∧ ∃ i l p, site.owner? = some i ∧ site.Finds l ∧
      l.slots = size ∧ ∀ k < size, T[p + k]? = some ⟨i, l, k⟩ ∧
      ∀ below value, value operand = some (k + 1) →
        Stack.position? list (below + T.length) value index = some (below + (p + k) + 1)
  | .global _ => True
  | .append _ | .delete => False

-- The slots on the stack before code and after it, above what was there before the method was entered.
inductive Typed (list : String) : List Slot → List (Flow Mark) → List Slot → Prop where
  | nil {T} : Typed list T [] T
  | append {T T' fs slot} : Typed list (T ++ [slot]) fs T' →
      Typed list T (.act (.append slot) :: fs) T'
  | delete {T T' fs slot} : Typed list T fs T' → Typed list (T ++ [slot]) (.act .delete :: fs) T'
  | access {T T' fs m} : m.Hits list T → Typed list T fs T' → Typed list T (.act m :: fs) T'
  -- a stop leaves nothing on the stack, and what follows it is never reached
  | stop {T' fs} : Typed list [] (.stop :: fs) T'
  | loop {T T' fs times guard body} : (∀ m ∈ guard, m.Hits list T) → Typed list T body T →
      Typed list T fs T' → Typed list T (.loop times guard body :: fs) T'
  -- a loop that deletes once for each slot
  | release {T T' fs} (slots : List Slot) : Typed list T fs T' →
      Typed list (T ++ slots) (.loop (some slots.length) [] [.act .delete] :: fs) T'
  | branch {T T' fs first second} : Typed list T first T → Typed list T second T →
      Typed list T fs T' → Typed list T (.branch first second :: fs) T'

-- The marks, one after the other, from these slots on to those: each deletion finds a slot to delete,
-- and each access hits.
inductive Follows (list : String) : List Slot → List Mark → List Slot → Prop where
  | nil {T} : Follows list T [] T
  | append {T T' L slot} : Follows list (T ++ [slot]) L T' → Follows list T (.append slot :: L) T'
  | delete {T T' L slot} : Follows list T L T' → Follows list (T ++ [slot]) (.delete :: L) T'
  | access {T T' L m} : m.Hits list T → Follows list T L T' → Follows list T (m :: L) T'

-- What is on the stack at the end.
def Ending.slots (T : List Slot) : Ending → List Slot
  | .finished => T
  | .stopped => []

variable {list : String} {T T' T₁ : List Slot} {fs gs : List (Flow Mark)} {L : List Mark}

theorem Follows.acts (hL : ∀ m ∈ L, m.Hits list T) {L' : List Mark} (h : Follows list T L' T') :
    Follows list T (L ++ L') T' := by
  induction L with
  | nil => exact h
  | cons m L ih =>
      exact .access (hL m (List.mem_cons_self ..)) (ih fun m hm => hL m (List.mem_cons_of_mem _ hm))

namespace Typed

theorem comp (h : Typed list T fs T₁) (h' : Typed list T₁ gs T') : Typed list T (fs ++ gs) T' := by
  induction h with
  | nil => exact h'
  | append _ ih => exact .append (ih h')
  | delete _ ih => exact .delete (ih h')
  | access hm _ ih => exact .access hm (ih h')
  | stop => exact .stop
  | loop hguard hbody _ _ ih => exact .loop hguard hbody (ih h')
  | release slots _ ih => exact .release slots (ih h')
  | branch hfirst hsecond _ _ _ ih => exact .branch hfirst hsecond (ih h')

theorem acts (hL : ∀ m ∈ L, m.Hits list T) : Typed list T (Flow.acts L) T := by
  induction L with
  | nil => exact .nil
  | cons m L ih =>
      exact .access (hL m (List.mem_cons_self ..)) (ih fun m hm => hL m (List.mem_cons_of_mem _ hm))

theorem length_delete (h : Typed list T [.act .delete] T') : T.length = T'.length + 1 := by
  cases h with
  | delete h => cases h; simp
  | access hm _ => exact hm.elim

-- A single deletion changes the type.
theorem ne_delete (h : Typed list T fs T) : fs ≠ [.act .delete] := by
  rintro rfl
  have := h.length_delete
  omega

-- Typed code keeps to its type on every path.
theorem follows {e : Ending} (hp : Path fs L e) (ht : Typed list T fs T') :
    Follows list T L (e.slots T') := by
  induction hp generalizing T T' with
  | nil => cases ht; exact .nil
  | act _ ih =>
      cases ht with
      | append ht => exact .append (ih ht)
      | delete ht => exact .delete (ih ht)
      | access hm ht => exact .access hm (ih ht)
  | stop => cases ht; exact .nil
  | first _ ih => cases ht with | branch hfirst _ ht => exact ih (hfirst.comp ht)
  | second _ ih => cases ht with | branch _ hsecond ht => exact ih (hsecond.comp ht)
  | leave _ ih => cases ht with | loop hguard _ ht => exact .acts hguard (ih ht)
  | round _ ih =>
      cases ht with
      | loop hguard hbody ht => exact .acts hguard (ih (hbody.comp (.loop hguard hbody ht)))
  | exhausted _ ih =>
      generalize hn : some 0 = n at ht
      cases ht with
      | loop hguard _ ht => exact .acts hguard (ih ht)
      | release slots ht =>
          obtain rfl : slots = [] := List.eq_nil_of_length_eq_zero (Option.some.inj hn).symm
          rw [List.append_nil]
          exact ih ht
  | @again n _ _ _ _ _ _ ih =>
      generalize hm : some (n + 1) = m at ht
      cases ht with
      | loop hguard hbody ht => exact .acts hguard (ih (hbody.comp (.loop hguard hbody ht)))
      | release slots ht =>
          -- the last slot goes in this round, and the others in those that are left
          have hlen : slots.length = n + 1 := (Option.some.inj hm).symm
          obtain rfl | ⟨others, slot, rfl⟩ := List.eq_nil_or_concat slots
          · cases hlen
          · obtain rfl : others.length = n := by simpa using hlen
            rw [List.concat_eq_append, ← List.append_assoc]
            exact ih (.delete (.release others ht))

end Typed

namespace Command

-- Code with its types, and every body inside it with a type that it keeps.
structure Fine (o : Options) (T : List Slot) (code : List Command) (T' : List Slot) : Prop where
  typed : Typed o.stackList T (flowAll o code) T'
  bodies : ∀ body ∈ bodiesAll code, ∃ T, Typed o.stackList T (flowAll o body) T
  released_lt : ∀ n ∈ releasedAll code, n < 2 ^ 32

namespace Fine

variable {o : Options} {code rest body other : List Command} {value count condition : Operand}

theorem regular (h : Fine o T code T') : Regular o code where
  released_lt := h.released_lt
  not_delete body hbody := by
    obtain ⟨_, ht⟩ := h.bodies body hbody
    exact ht.ne_delete

-- Every body inside typed code is typed code itself.
theorem inner (h : Fine o T code T') (hbody : body ∈ bodiesAll code) : ∃ T, Fine o T body T := by
  obtain ⟨T₁, ht⟩ := h.bodies body hbody
  obtain ⟨hbodies, hreleased⟩ := within_of_mem_bodiesAll code body hbody
  exact ⟨T₁, ht, fun b hb => h.bodies b (hbodies hb), fun n hn => h.released_lt n (hreleased hn)⟩

theorem nil : Fine o T [] T :=
  ⟨.nil, by simp [bodiesAll], by simp [releasedAll]⟩

theorem comp (h : Fine o T code T₁) (h' : Fine o T₁ rest T') : Fine o T (code ++ rest) T' where
  typed := by
    rw [flowAll_append]
    exact h.typed.comp h'.typed
  bodies b hb := by
    rw [bodiesAll_append, List.mem_append] at hb
    exact hb.elim (h.bodies b) (h'.bodies b)
  released_lt n hn := by
    rw [releasedAll_append, List.mem_append] at hn
    exact hn.elim (h.released_lt n) (h'.released_lt n)

-- A command without bodies.
theorem plain {c : Command} (ht : Typed o.stackList T (c.flow o) T') (hb : c.bodies = [])
    (hr : c.released = []) : Fine o T [c] T' where
  typed := by simpa only [flowAll, List.append_nil] using ht
  bodies b hmem := by simp [bodiesAll, hb] at hmem
  released_lt n hn := by simp [releasedAll, hr] at hn

-- A command with one body.
theorem around {c : Command} (ht : Typed o.stackList T (c.flow o) T) (h : Fine o T body T)
    (hb : c.bodies = body :: bodiesAll body) (hr : c.released = releasedAll body) :
    Fine o T [c] T where
  typed := by simpa only [flowAll, List.append_nil] using ht
  bodies b hmem := by
    simp only [bodiesAll, List.append_nil, hb, List.mem_cons] at hmem
    obtain rfl | hmem := hmem
    · exact ⟨T, h.typed⟩
    · exact h.bodies b hmem
  released_lt n hn := h.released_lt n (by simpa [releasedAll, hr] using hn)

theorem push {slot : Slot} (hm : ∀ m ∈ value.marks o, m.Hits o.stackList T) :
    Fine o T [.push slot value] (T ++ [slot]) := by
  refine plain ?_ rfl rfl
  rw [flow, Flow.acts, List.map_append]
  exact (Typed.acts hm).comp (.append .nil)

theorem release (slots : List Slot) (hlt : slots.length < 2 ^ 32) :
    Fine o (T ++ slots) [.release slots.length] T where
  typed := by
    simp only [flowAll, List.append_nil, flow]
    split
    · next h =>
      obtain ⟨slot, rfl⟩ := List.length_eq_one_iff.mp h
      exact .delete .nil
    · exact .release slots .nil
  bodies b hb := by simp [bodiesAll, Command.bodies] at hb
  released_lt n hn := by
    obtain rfl : n = slots.length := by simpa [releasedAll, released] using hn
    exact hlt

theorem store {site : Site} (hm : ∀ m ∈ value.marks o, m.Hits o.stackList T)
    (hsite : (Mark.cell site (Stack.slotIndex o.stackList site.depth)).Hits o.stackList T) :
    Fine o T [.store site value] T := by
  refine plain ?_ rfl rfl
  rw [flow, Flow.acts, List.map_append]
  exact (Typed.acts hm).comp (.access hsite .nil)

theorem setVariable {name : String} (hm : ∀ m ∈ value.marks o, m.Hits o.stackList T) :
    Fine o T [.setVariable name value] T :=
  plain (Typed.acts hm) rfl rfl

theorem changeVariable {name : String} (hm : ∀ m ∈ value.marks o, m.Hits o.stackList T) :
    Fine o T [.changeVariable name value] T :=
  plain (Typed.acts hm) rfl rfl

theorem scope (h : Fine o T body T) : Fine o T [.scope body] T :=
  around h.typed h rfl rfl

theorem scopes (h : Fine o T body T) (n : Nat) : Fine o T (List.replicate n (.scope body)) T := by
  induction n with
  | zero => exact nil
  | succ n ih => exact h.scope.comp ih

theorem repeatTimes (hm : ∀ m ∈ count.marks o, m.Hits o.stackList T) (h : Fine o T body T) :
    Fine o T [.repeatTimes count body] T :=
  around ((Typed.acts hm).comp (.loop (by simp) h.typed .nil)) h rfl rfl

theorem repeatUntil (hm : ∀ m ∈ condition.marks o, m.Hits o.stackList T) (h : Fine o T body T) :
    Fine o T [.repeatUntil condition body] T :=
  around (.loop hm h.typed .nil) h rfl rfl

theorem forever (h : Fine o T body T) : Fine o T [.forever body] T :=
  around (.loop (by simp) h.typed .nil) h rfl rfl

theorem ifThen (hm : ∀ m ∈ condition.marks o, m.Hits o.stackList T) (h : Fine o T body T) :
    Fine o T [.ifThen condition body] T :=
  around ((Typed.acts hm).comp (.branch h.typed .nil .nil)) h rfl rfl

theorem ifThenElse (hm : ∀ m ∈ condition.marks o, m.Hits o.stackList T) (h : Fine o T body T)
    (h' : Fine o T other T) : Fine o T [.ifThenElse condition body other] T where
  typed := by
    simp only [flowAll, List.append_nil, flow]
    exact (Typed.acts hm).comp (.branch h.typed h'.typed .nil)
  bodies b hmem := by
    have hboth := h.scope.comp h'.scope
    exact hboth.bodies b (by simpa [bodiesAll, Command.bodies] using hmem)
  released_lt n hn := by
    have hboth := h.scope.comp h'.scope
    exact hboth.released_lt n (by simpa [releasedAll, released] using hn)

theorem stop : Fine o [] [.stop] T' :=
  plain .stop rfl rfl

end Fine

end Command

end SpriteCompiler
