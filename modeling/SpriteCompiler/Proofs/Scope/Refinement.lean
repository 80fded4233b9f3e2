import SpriteCompiler.Proofs.Code.Flow

namespace SpriteCompiler

namespace Path

variable {α : Type} {a : α} {fs : List (Flow α)} {E : List α} {e : Ending}

-- A loop with a count and one thing to do.
theorem loop_act_iff (n : Nat) :
    Path (.loop (some n) [] [.act a] :: fs) E e ↔
      ∃ E', E = List.replicate n a ++ E' ∧ Path fs E' e := by
  induction n generalizing E with
  | zero =>
      constructor
      · intro h
        cases h with
        | exhausted h => exact ⟨_, rfl, h⟩
      · rintro ⟨E', rfl, h⟩
        exact .exhausted h
  | succ n ih =>
      constructor
      · intro h
        cases h with
        | again h =>
            cases h with
            | act h =>
                obtain ⟨E', rfl, hrest⟩ := ih.mp h
                exact ⟨E', rfl, hrest⟩
      · rintro ⟨E', rfl, h⟩
        have hrest := ih.mpr ⟨E', rfl, h⟩
        have hround : Path (.loop (some (n + 1)) [] [.act a] :: fs)
            ([] ++ a :: (List.replicate n a ++ E')) e := .again (.act hrest)
        exact hround

end Path

namespace Stack

variable {list : String} {blocks : List Block} {n slots : Nat}

-- Blocks that have one way through, on which they delete this many items and do nothing else.
def Deletes (list : String) (blocks : List Block) (n : Nat) : Prop :=
  ∀ E e, Path (Block.flowAll list blocks) E e ↔ E = List.replicate n .delete ∧ e = .finished

theorem deletes_nil (list : String) : Deletes list [] 0 := by
  intro E e
  constructor
  · intro h
    cases h
    exact ⟨rfl, rfl⟩
  · rintro ⟨rfl, rfl⟩
    exact .nil

theorem Deletes.release (h : Deletes list blocks n) (hfit : slots < 2 ^ 32) :
    Deletes list (Stack.release list slots :: blocks) (slots + n) := by
  intro E e
  have hflow : Block.flowAll list (Stack.release list slots :: blocks) =
      Block.flowAll list [Stack.release list slots] ++ Block.flowAll list blocks :=
    Block.flowAll_append list [Stack.release list slots] blocks
  have hloop : Path (Block.flowAll list (Stack.release list slots :: blocks)) E e ↔
      ∃ E', E = List.replicate slots .delete ++ E' ∧ Path (Block.flowAll list blocks) E' e := by
    rw [hflow, flowAll_release list hfit]
    split
    · next hone =>
        subst hone
        constructor
        · intro hp
          cases hp with
          | act hp => exact ⟨_, rfl, hp⟩
        · rintro ⟨E', rfl, hp⟩
          exact .act hp
    · exact Path.loop_act_iff slots
  rw [hloop]
  constructor
  · rintro ⟨E', rfl, hp⟩
    obtain ⟨rfl, rfl⟩ := (h E' e).mp hp
    exact ⟨List.replicate_append_replicate, rfl⟩
  · rintro ⟨rfl, rfl⟩
    refine ⟨List.replicate n .delete, List.replicate_append_replicate.symm, ?_⟩
    exact (h _ _).mpr ⟨rfl, rfl⟩

end Stack

namespace Local

theorem slotCount_reverse (f : List Local) : slotCount f.reverse = slotCount f := by
  induction f with
  | nil => rfl
  | cons l f ih =>
      rw [List.reverse_cons, slotCount_append, ih, slotCount, slotCount, slotCount]
      omega

-- Releasing locals deletes as many items as they have slots.
theorem deletes_releaseAll (list : String) {f : List Local} (hfit : slotCount f < 2 ^ 32) :
    Stack.Deletes list (Stack.releaseAll list f) (slotCount f) := by
  rw [← slotCount_reverse] at hfit ⊢
  rw [Stack.releaseAll]
  generalize f.reverse = g at hfit ⊢
  induction g with
  | nil => exact Stack.deletes_nil list
  | cons l rest ih =>
      have hcount : slotCount (l :: rest) = l.slots + slotCount rest := rfl
      have hrest := ih (by omega)
      by_cases hl : 0 < l.slots
      · rw [List.filter_cons_of_pos (by simpa using hl), List.map_cons, hcount]
        exact hrest.release (by omega)
      · rw [List.filter_cons_of_neg (by simpa using hl), hcount, show l.slots = 0 by omega,
          Nat.zero_add]
        exact hrest

-- The local of a name within one frame, with the slots after it.
theorem slotsAfter?_split {f : List Local} {x : String} {l : Local}
    (hnodup : (f.map Local.name).Nodup) (h : f.find? (·.name == x) = some l) :
    ∃ before after, f = before ++ l :: after ∧ (∀ l' ∈ after, l'.name ≠ x) ∧
      slotsAfter? x f = some (slotCount after) := by
  induction f with
  | nil => cases h
  | cons l₁ f ih =>
      obtain ⟨hnot, hnodup⟩ := List.nodup_cons.mp hnodup
      by_cases hl : l₁.name == x
      · rw [List.find?_cons_of_pos (by simpa using hl)] at h
        obtain rfl := Option.some.inj h
        have hname : l₁.name = x := by simpa using hl
        refine ⟨[], f, rfl, fun l' hl' heq => hnot ?_, by simp [slotsAfter?, hl]⟩
        rw [hname, ← heq]
        exact List.mem_map_of_mem hl'
      · rw [List.find?_cons_of_neg (by simpa using hl)] at h
        obtain ⟨before, after, rfl, hafter, hslots⟩ := ih hnodup h
        exact ⟨l₁ :: before, after, rfl, hafter, by simp [slotsAfter?, hl, hslots]⟩

-- Among all locals, the outermost frame first, the one that is found is the last of its name.
theorem depthIn?_split {F : List (List Local)} {x : String} {l : Local}
    (hnodup : ∀ f ∈ F, (f.map Local.name).Nodup) (h : searchIn? x F = some l) :
    ∃ before after, F.reverse.flatten = before ++ l :: after ∧ (∀ l' ∈ after, l'.name ≠ x) ∧
      depthIn? x F = some (slotCount after) := by
  induction F with
  | nil => cases h
  | cons f outer ih =>
      have hlayout : (f :: outer).reverse.flatten = outer.reverse.flatten ++ f := by simp
      rw [hlayout, depthIn?]
      cases hfind : f.find? (·.name == x) with
      | some found =>
          obtain rfl : found = l := by simpa [searchIn?, hfind] using h
          obtain ⟨before, after, hf, hafter, hslots⟩ :=
            slotsAfter?_split (hnodup f (by simp)) hfind
          refine ⟨outer.reverse.flatten ++ before, after, ?_, hafter, by rw [hslots]⟩
          rw [hf, List.append_assoc]
      | none =>
          have houter : searchIn? x outer = some l := by simpa [searchIn?, hfind] using h
          obtain ⟨before, after, hsplit, hafter, hdepth⟩ :=
            ih (fun g hg => hnodup g (by simp [hg])) houter
          refine ⟨before, after ++ f, by rw [hsplit]; simp, ?_, ?_⟩
          · intro l' hl'
            obtain hl' | hl' := List.mem_append.mp hl'
            · exact hafter l' hl'
            · simpa using List.find?_eq_none.mp hfind l' hl'
          · rw [slotsAfter?_eq_none hfind, hdepth, slotCount_append, Nat.add_comm]
            rfl

theorem depthIn?_eq_none {F : List (List Local)} {x : String} (h : searchIn? x F = none) :
    depthIn? x F = none := by
  induction F with
  | nil => rfl
  | cons f outer ih =>
      have hnone := List.findSome?_eq_none_iff.mp h
      have hf : f.find? (·.name == x) = none := hnone f (by simp)
      have houter : searchIn? x outer = none :=
        List.findSome?_eq_none_iff.mpr fun g hg => hnone g (by simp [hg])
      rw [depthIn?, slotsAfter?_eq_none hf, ih houter]
      rfl

end Local

namespace ScopeTree

-- What can be done to a tree.
inductive Call where
  | createRoot
  | createChild (parent : Nat)
  | declare (id : Nat) (l : Local)

-- The tree that a call leaves, if the scope it names is there.
def Call.apply (t : ScopeTree) : Call → Except MissingScope ScopeTree
  | .createRoot => return t.createRoot.2
  | .createChild parent => return (← t.createChild parent).2
  | .declare id l => return (← t.declare id l).2

-- The trees that some sequence of calls makes.
inductive Reachable : ScopeTree → Prop where
  | new (m : Option Method) : Reachable { method := m }
  | call {t t' : ScopeTree} {c : Call} (h : Reachable t) (hc : c.apply t = .ok t') : Reachable t'

-- The place of a name among the locals of a scope, as its index has it.
def place? (t : ScopeTree) (id : Nat) (x : String) : Option Nat :=
  (t.get? id).bind fun s => s.names.lookup x

-- All locals in scope, the outermost scope first. That is the order of their slots.
def inOrder (t : ScopeTree) (id : Nat) : List Local :=
  (t.frames id).reverse.flatten

-- The scope looks like the innermost of a stack of frames.
structure RefinesFrames (t : ScopeTree) (id : Nat) : Prop where
  parent_lt : ∀ p, t.parent? id = some p → p < id
  chain_eq : ∃ outer, (t.parent? id).elim (.ok []) t.chain = .ok outer ∧
    t.chain id = .ok (id :: outer)
  place_iff : ∀ x i, t.place? id x = some i ↔ ∃ l, (t.locals id)[i]? = some l ∧ l.name = x
  refused_iff : ∀ l d, (∃ t', t.declare id l = .ok (.error d, t')) ↔
    ∃ earlier ∈ t.locals id, earlier.name = l.name ∧ d = ⟨l.name, earlier.location, l.location⟩
  refused_keeps : ∀ l d t', t.declare id l = .ok (.error d, t') → t' = t
  declared : ∀ l, (∀ earlier ∈ t.locals id, earlier.name ≠ l.name) →
    ∃ t', t.declare id l = .ok (.ok (), t') ∧ t'.locals id = t.locals id ++ [l]
  search_eq : ∀ x, t.search id x = .ok ((t.frames id).flatten.find? (·.name == x))
  depth_none_iff : ∀ x, t.depth id x = .ok none ↔ t.search id x = .ok none
  depth_eq : ∀ x l, t.search id x = .ok (some l) → ∃ before after,
    t.inOrder id = before ++ l :: after ∧ (∀ l' ∈ after, l'.name ≠ x) ∧
      t.depth id x = .ok (some (Local.slotCount after))
  names_eq : t.visibleNames id = .ok ((t.inOrder id).map Local.name).reverse
  -- a count of slots is read back from a block if it has 32 bits
  cleanup_deletes : Local.slotCount (t.locals id) < 2 ^ 32 → ∀ list, ∃ blocks,
    t.cleanup list id = .ok blocks ∧ Stack.Deletes list blocks (Local.slotCount (t.locals id))
  unwind_deletes : Local.slotCount (t.inOrder id) < 2 ^ 32 → ∀ list, ∃ blocks,
    t.unwind list id = .ok blocks ∧ Stack.Deletes list blocks (Local.slotCount (t.inOrder id))

variable {t t' : ScopeTree} {id : Nat}

theorem Valid.call (hv : t.Valid) {c : Call} (hc : c.apply t = .ok t') : t'.Valid := by
  cases c with
  | createRoot =>
      obtain rfl := Except.ok.inj hc
      exact hv.createRoot
  | createChild parent =>
      by_cases hp : parent < t.size
      · rw [Call.apply, createChild_of_lt hp] at hc
        obtain rfl := Except.ok.inj hc
        exact hv.child hp
      · simp only [Call.apply, createChild, dif_neg hp] at hc
        cases hc
  | declare id l =>
      rw [Call.apply] at hc
      rcases hresult : t.declare id l with missing | ⟨_ | _, t₁⟩
      · rw [hresult] at hc
        cases hc
      · rw [hresult] at hc
        obtain rfl := Except.ok.inj hc
        exact (refused_of_declare hresult).1 ▸ hv
      · rw [hresult] at hc
        obtain rfl := Except.ok.inj hc
        exact (declared_of_declare hresult).valid hv

theorem Reachable.valid (h : t.Reachable) : t.Valid := by
  induction h with
  | new m => exact valid_new m
  | call _ hc ih => exact ih.call hc

theorem Reachable.calls {calls : List Call} (h : t.Reachable)
    (hrun : calls.foldlM Call.apply t = .ok t') : t'.Reachable := by
  induction calls generalizing t with
  | nil => exact Except.ok.inj hrun ▸ h
  | cons c rest ih =>
      rw [List.foldlM_cons] at hrun
      cases hc : c.apply t with
      | error missing =>
          rw [hc] at hrun
          cases hrun
      | ok t₁ =>
          rw [hc] at hrun
          exact ih (h.call hc) hrun

-- The index has every name of the scope, with the place of its one local.
theorem Valid.place?_iff (hv : t.Valid) (x : String) (i : Nat) :
    t.place? id x = some i ↔ ∃ l, (t.locals id)[i]? = some l ∧ l.name = x := by
  have hnodup := hv.names_nodup id
  have hindex : t.place? id x = (t.locals id).findIdx? (·.name == x) := by
    rw [place?, locals]
    cases t.get? id with
    | none => rfl
    | some s => exact s.lookup_names x
  rw [hindex, List.findIdx?_eq_some_iff_getElem]
  constructor
  · rintro ⟨hlt, hname, _⟩
    exact ⟨(t.locals id)[i], List.getElem?_eq_getElem hlt, by simpa using hname⟩
  · rintro ⟨l, hl, rfl⟩
    obtain ⟨hlt, rfl⟩ := List.getElem?_eq_some_iff.mp hl
    refine ⟨hlt, by simp, fun j hj heq => ?_⟩
    -- two places with one name would be one place
    have hi : i < ((t.locals id).map Local.name).length := by simpa using hlt
    have hj' : j < ((t.locals id).map Local.name).length := by omega
    have hsame : ((t.locals id).map Local.name)[j] = ((t.locals id).map Local.name)[i] := by
      simpa using heq
    have := (hnodup.getElem_inj_iff).mp hsame
    omega

-- A local is refused exactly for the one of its name that is there.
theorem Valid.refused_iff (hv : t.Valid) (h : id < t.size) (l : Local) (d : Duplicate) :
    (∃ t', t.declare id l = .ok (.error d, t')) ↔
      ∃ earlier ∈ t.locals id, earlier.name = l.name ∧
        d = ⟨l.name, earlier.location, l.location⟩ := by
  constructor
  · rintro ⟨t', hresult⟩
    obtain ⟨earlier, hfind, hd⟩ := earlier_of_declare hresult
    exact ⟨earlier, List.mem_of_find?_eq_some hfind, by simpa using List.find?_some hfind, hd⟩
  · rintro ⟨earlier, hmem, hname, rfl⟩
    obtain ⟨t', hresult⟩ | ⟨d, hresult⟩ := exists_declare h l
    · exact absurd hname ((declared_of_declare hresult).name_free earlier hmem)
    · obtain ⟨found, hfind, rfl⟩ := earlier_of_declare hresult
      have hsame : found.name = earlier.name := by
        rw [hname]
        simpa using List.find?_some hfind
      rw [← List.inj_on_of_nodup_map (hv.names_nodup id) (List.mem_of_find?_eq_some hfind) hmem hsame]
      exact ⟨t, hresult⟩

theorem reverse_inOrder (t : ScopeTree) (id : Nat) :
    (t.inOrder id).reverse = t.latestFirst id := by
  simp [inOrder, frames, latestFirst, List.reverse_flatten, List.flatMap_def, Function.comp_def]

-- Releasing a scope and all outside it is releasing all locals in scope.
theorem releaseAll_inOrder (t : ScopeTree) (list : String) (id : Nat) :
    Stack.releaseAll list (t.inOrder id) =
      (t.lineage id).flatMap fun i => Stack.releaseAll list (t.locals i) := by
  rw [Stack.releaseAll, reverse_inOrder, latestFirst, List.filter_flatMap, List.map_flatMap]
  rfl

-- A name has a depth if it is found, which is the number of slots after its own.
theorem Valid.depth?_eq_some (hv : t.Valid) {x : String} {l : Local}
    (h : t.search? id x = some l) :
    ∃ before after, t.inOrder id = before ++ l :: after ∧ (∀ l' ∈ after, l'.name ≠ x) ∧
      t.depth? id x = some (Local.slotCount after) := by
  have hnodup : ∀ f ∈ t.frames id, (f.map Local.name).Nodup := by
    intro f hf
    obtain ⟨i, _, rfl⟩ := List.mem_map.mp hf
    exact hv.names_nodup i
  rw [search?_eq] at h
  rw [depth?_eq]
  exact Local.depthIn?_split hnodup h

theorem Valid.depth?_eq_none_iff (hv : t.Valid) (id : Nat) (x : String) :
    t.depth? id x = none ↔ t.search? id x = none := by
  constructor
  · intro hnone
    by_contra hsome
    obtain ⟨l, hl⟩ := Option.ne_none_iff_exists'.mp hsome
    obtain ⟨_, _, _, _, hdepth⟩ := hv.depth?_eq_some hl
    rw [hnone] at hdepth
    cases hdepth
  · intro hnone
    rw [search?_eq] at hnone
    rw [depth?_eq, Local.depthIn?_eq_none hnone]

-- The way outward from a scope is the scope itself and then the way from its parent.
theorem exists_chain (h : id < t.size) : ∃ outer,
    (t.parent? id).elim (.ok []) t.chain = .ok outer ∧ t.chain id = .ok (id :: outer) := by
  rw [chain_of_lt h, lineage_eq h]
  cases hp : t.parent? id with
  | none => exact ⟨[], rfl, rfl⟩
  | some p =>
      have hlt := lt_of_parent? hp
      exact ⟨t.lineage p, chain_of_lt (by omega), rfl⟩

-- Whatever calls have made a tree, with locals refused among them, each of its scopes looks like the
-- innermost of a stack of frames.
theorem Reachable.refinesFrames (ht : t.Reachable) (h : id < t.size) : t.RefinesFrames id where
  parent_lt _ hp := lt_of_parent? hp
  chain_eq := exists_chain h
  place_iff := ht.valid.place?_iff
  refused_iff := ht.valid.refused_iff h
  refused_keeps _ _ _ hrefused := (refused_of_declare hrefused).1
  declared l hfree := by
    obtain ⟨t', hresult⟩ | ⟨d, hresult⟩ := exists_declare h l
    · exact ⟨t', hresult, (declared_of_declare hresult).locals_self⟩
    · obtain ⟨earlier, hmem, hname⟩ := name_taken_of_declare hresult
      exact absurd hname (hfree earlier hmem)
  search_eq x := by rw [search_of_lt h, search?_eq, Local.searchIn?, List.find?_flatten]
  depth_none_iff x := by
    rw [depth_of_lt h, search_of_lt h, Except.ok.injEq, Except.ok.injEq]
    exact ht.valid.depth?_eq_none_iff id x
  depth_eq x l hl := by
    rw [search_of_lt h, Except.ok.injEq] at hl
    obtain ⟨before, after, hsplit, hafter, hdepth⟩ := ht.valid.depth?_eq_some hl
    exact ⟨before, after, hsplit, hafter, by rw [depth_of_lt h, hdepth]⟩
  names_eq := by rw [visibleNames_of_lt h, ← List.map_reverse, reverse_inOrder]
  cleanup_deletes hfit list := ⟨_, cleanup_of_lt h list, Local.deletes_releaseAll list hfit⟩
  unwind_deletes hfit list := by
    refine ⟨_, unwind_of_lt h list, ?_⟩
    rw [← releaseAll_inOrder]
    exact Local.deletes_releaseAll list hfit

-- Two scopes, each with a local of the name `x`, and a second `x` refused in the inner one.
def sampleCalls : List Call :=
  let at0 (start : UInt32) : Location := ⟨0, ⟨start, start + 1⟩⟩
  [.createRoot, .createChild 0, .declare 0 (.variable ⟨"x", .number, none, 1, at0 0⟩),
    .declare 1 (.array ⟨"a", .number, [.lookup "x" (at0 2), .lookup "x" (at0 3)], at0 2⟩),
    .declare 1 (.variable ⟨"x", .number, none, 3, at0 4⟩),
    .declare 1 (.variable ⟨"x", .text, none, 1, at0 5⟩)]

theorem refinesFrames_sample : ∃ t, sampleCalls.foldlM Call.apply {} = .ok t ∧ t.Reachable ∧
    1 < t.size ∧ t.RefinesFrames 1 := by
  have hsize : (sampleCalls.foldlM Call.apply {}).toOption.map size = some 2 := by decide +kernel
  cases hrun : sampleCalls.foldlM Call.apply {} with
  | error missing =>
      rw [hrun] at hsize
      cases hsize
  | ok t =>
      rw [hrun] at hsize
      have hreach : t.Reachable := (Reachable.new none).calls hrun
      have htwo : t.size = 2 := Option.some.inj hsize
      exact ⟨t, rfl, hreach, by omega, hreach.refinesFrames (by omega)⟩

end ScopeTree

end SpriteCompiler
