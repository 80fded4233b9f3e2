import SpriteCompiler.Stack.Release
import Mathlib.Tactic

namespace SpriteCompiler

namespace Scope

variable {s s' : Scope} {l : Local} {d : Duplicate}

-- What becomes of a scope in which a local is declared, and why one is refused.

theorem declare_ok (h : s.declare l = .ok s') :
    s.find? l.name = none ∧ s'.parent = s.parent ∧ s'.locals = s.locals ++ [l] ∧
      s'.names = (l.name, s.locals.length) :: s.names := by
  unfold declare at h
  split at h
  · cases h
  · next hfree =>
      obtain rfl := Except.ok.inj h
      exact ⟨hfree, rfl, rfl, rfl⟩

theorem declare_error (h : s.declare l = .error d) :
    ∃ earlier, s.find? l.name = some earlier ∧ d = ⟨l.name, earlier.location, l.location⟩ := by
  unfold declare at h
  split at h
  · next earlier hfind => exact ⟨earlier, hfind, (Except.error.inj h).symm⟩
  · cases h

end Scope

namespace ScopeTree

-- What the tree has to say about a number, which is nothing if no scope has it.

def parent? (t : ScopeTree) (id : Nat) : Option Nat :=
  (t.get? id).bind (·.parent)

-- The locals of a scope, in order of declaration.
def locals (t : ScopeTree) (id : Nat) : List Local :=
  match t.get? id with
  | some s => s.locals
  | none => []

-- A scope and its ancestors.
def path (t : ScopeTree) (id : Nat) : List (Nat × Scope) :=
  (t.outward id).toOption.getD []

def lineage (t : ScopeTree) (id : Nat) : List Nat :=
  (t.path id).map Prod.fst

-- The locals in scope, innermost scope first and latest first within a scope.
def latestFirst (t : ScopeTree) (id : Nat) : List Local :=
  (t.lineage id).flatMap fun i => (t.locals i).reverse

def search? (t : ScopeTree) (id : Nat) (name : String) : Option Local :=
  (t.path id).findSome? (·.2.find? name)

def depth? (t : ScopeTree) (id : Nat) (name : String) : Option Nat :=
  depthAlong? name ((t.path id).map Prod.snd)

-- No scope has two locals of one name.
structure Valid (t : ScopeTree) : Prop where
  names_nodup : ∀ id, ((t.locals id).map Local.name).Nodup

variable {t t' t'' : ScopeTree} {id i j p : Nat} {s : Scope} {l : Local}

theorem get?_isSome (h : id < t.size) : ∃ s, t.get? id = some s :=
  ⟨_, Array.getElem?_eq_getElem h⟩

theorem lt_size_of_get? (h : t.get? id = some s) : id < t.size :=
  (Array.getElem?_eq_some_iff.mp h).1

theorem locals_of_get? (h : t.get? id = some s) : t.locals id = s.locals := by
  simp only [locals, h]

theorem lt_of_parent? (h : t.parent? id = some p) : p < id := by
  obtain ⟨s, hs, hp⟩ := Option.bind_eq_some_iff.mp h
  exact t.parent_lt hs hp

theorem scope_of_get? (h : t.get? id = some s) : t.scope id = .ok s := by
  simp only [scope, h]

theorem scope_of_missing (h : t.size ≤ id) : t.scope id = .error ⟨id⟩ := by
  have hnone : t.get? id = none := Array.getElem?_eq_none h
  simp only [scope, hnone]

-- The way outward.

theorem walk_succ (fuel : Nat) (h : t.get? id = some s) :
    t.walk (fuel + 1) id =
      match s.parent with
      | none => .ok [(id, s)]
      | some parent => (t.walk fuel parent).map ((id, s) :: ·) := by
  simp only [walk, scope_of_get? h, Bind.bind, Except.bind]
  cases s.parent with
  | none => rfl
  | some parent => cases hrest : t.walk fuel parent <;> simp only [hrest] <;> rfl

theorem walk_of_missing (fuel : Nat) (h : t.size ≤ id) : t.walk (fuel + 1) id = .error ⟨id⟩ := by
  rw [walk, scope_of_missing h]
  rfl

-- Any fuel beyond the number of the scope is enough, since every step goes to a smaller number.
theorem walk_fuel (fuel fuel' : Nat) (h : id < fuel) (h' : id < fuel') :
    t.walk fuel id = t.walk fuel' id := by
  induction fuel generalizing id fuel' with
  | zero => omega
  | succ fuel ih =>
      obtain ⟨fuel', rfl⟩ := Nat.exists_eq_succ_of_ne_zero (Nat.ne_of_gt (Nat.zero_lt_of_lt h'))
      by_cases hid : id < t.size
      · obtain ⟨s, hs⟩ := get?_isSome hid
        rw [walk_succ fuel hs, walk_succ fuel' hs]
        cases hp : s.parent with
        | none => rfl
        | some parent =>
            have hlt := t.parent_lt hs hp
            exact congrArg (Except.map _) (ih fuel' (by omega) (by omega))
      · rw [walk_of_missing fuel (by omega), walk_of_missing fuel' (by omega)]

theorem outward_eq (h : t.get? id = some s) :
    t.outward id =
      match s.parent with
      | none => .ok [(id, s)]
      | some parent => (t.outward parent).map ((id, s) :: ·) := by
  rw [outward, walk_succ id h]
  cases hp : s.parent with
  | none => rfl
  | some parent =>
      have hlt := t.parent_lt h hp
      exact congrArg (Except.map _) (walk_fuel id (parent + 1) hlt (by omega))

-- From a scope that is there all ancestors are found.
theorem outward_of_lt (h : id < t.size) : t.outward id = .ok (t.path id) := by
  have hexists : ∃ path, t.outward id = .ok path := by
    induction id using Nat.strong_induction_on with
    | _ id ih =>
        obtain ⟨s, hs⟩ := get?_isSome h
        rw [outward_eq hs]
        cases hp : s.parent with
        | none => exact ⟨_, rfl⟩
        | some parent =>
            have hlt := t.parent_lt hs hp
            obtain ⟨path, hpath⟩ := ih parent hlt (by omega)
            simp only [hpath]
            exact ⟨_, rfl⟩
  obtain ⟨path, hpath⟩ := hexists
  rw [ScopeTree.path, hpath]
  rfl

theorem outward_of_missing (h : t.size ≤ id) : t.outward id = .error ⟨id⟩ :=
  walk_of_missing id h

theorem path_eq (h : t.get? id = some s) : t.path id = (id, s) :: s.parent.elim [] t.path := by
  have hpath := outward_of_lt (lt_size_of_get? h)
  rw [outward_eq h] at hpath
  cases hp : s.parent with
  | none =>
      rw [hp] at hpath
      exact (Except.ok.inj hpath).symm
  | some parent =>
      have hlt := t.parent_lt h hp
      have hparent := outward_of_lt (hlt.trans (lt_size_of_get? h))
      simp only [hp, hparent] at hpath
      exact (Except.ok.inj hpath).symm

theorem path_of_missing (h : t.size ≤ id) : t.path id = [] := by
  rw [path, outward_of_missing h]
  rfl

theorem get?_of_mem_path {q : Nat × Scope} (h : q ∈ t.path id) : t.get? q.1 = some q.2 := by
  induction id using Nat.strong_induction_on with
  | _ id ih =>
      by_cases hid : id < t.size
      · obtain ⟨s, hs⟩ := get?_isSome hid
        rw [path_eq hs, List.mem_cons] at h
        obtain rfl | h := h
        · exact hs
        cases hp : s.parent with
        | none => simp [hp] at h
        | some parent => exact ih parent (t.parent_lt hs hp) (by simpa [hp] using h)
      · simp [path_of_missing (Nat.le_of_not_lt hid)] at h

-- What the scopes on the way have is what the tree has for their numbers.
theorem map_path {α : Type} (f : List Local → α) (t : ScopeTree) (id : Nat) :
    (t.path id).map (fun q => f q.2.locals) = (t.lineage id).map fun i => f (t.locals i) := by
  rw [lineage, List.map_map]
  refine List.map_congr_left fun q hq => ?_
  simp only [Function.comp_apply, locals_of_get? (get?_of_mem_path hq)]

-- The way outward: the scope itself and then the way from its parent.
theorem lineage_eq (h : id < t.size) :
    t.lineage id = id :: (t.parent? id).elim [] t.lineage := by
  obtain ⟨s, hs⟩ := get?_isSome h
  rw [lineage, path_eq hs, parent?, hs, Option.bind_some]
  cases s.parent <;> rfl

theorem le_of_mem_lineage (h : id < t.size) (hj : j ∈ t.lineage id) : j ≤ id := by
  induction id using Nat.strong_induction_on with
  | _ id ih =>
      rw [lineage_eq h, List.mem_cons] at hj
      obtain rfl | hj := hj
      · exact Nat.le_refl _
      cases hp : t.parent? id with
      | none => simp [hp] at hj
      | some p =>
          have hlt := lt_of_parent? hp
          have := ih p hlt (by omega) (by simpa [hp] using hj)
          omega

theorem lt_of_mem_outer (h : id < t.size)
    (hj : j ∈ (t.parent? id).elim [] t.lineage) : j < id := by
  cases hp : t.parent? id with
  | none => simp [hp] at hj
  | some p =>
      have hlt := lt_of_parent? hp
      rw [hp, Option.elim_some] at hj
      have := le_of_mem_lineage (by omega) hj
      omega

theorem nodup_lineage (h : id < t.size) : (t.lineage id).Nodup := by
  induction id using Nat.strong_induction_on with
  | _ id ih =>
      rw [lineage_eq h, List.nodup_cons]
      refine ⟨fun hmem => Nat.lt_irrefl id (lt_of_mem_outer h hmem), ?_⟩
      cases hp : t.parent? id with
      | none => exact List.nodup_nil
      | some p => exact ih p (lt_of_parent? hp) (Nat.lt_trans (lt_of_parent? hp) h)

-- Every question about a scope that is there has an answer.

theorem chain_of_lt (h : id < t.size) : t.chain id = .ok (t.lineage id) := by
  rw [chain, outward_of_lt h]
  rfl

theorem search_of_lt (h : id < t.size) (x : String) : t.search id x = .ok (t.search? id x) := by
  rw [search, outward_of_lt h]
  rfl

theorem depth_of_lt (h : id < t.size) (x : String) : t.depth id x = .ok (t.depth? id x) := by
  rw [depth, outward_of_lt h]
  rfl

theorem visibleNames_of_lt (h : id < t.size) :
    t.visibleNames id = .ok ((t.latestFirst id).map Local.name) := by
  rw [visibleNames, outward_of_lt h, latestFirst, List.map_flatMap, List.flatMap_def,
    ← map_path (fun ls => ls.reverse.map Local.name), ← List.flatMap_def]
  rfl

theorem cleanup_of_lt (h : id < t.size) (list : String) :
    t.cleanup list id = .ok (Stack.releaseAll list (t.locals id)) := by
  obtain ⟨s, hs⟩ := get?_isSome h
  rw [cleanup, scope_of_get? hs, locals_of_get? hs]
  rfl

theorem unwind_of_lt (h : id < t.size) (list : String) :
    t.unwind list id =
      .ok ((t.lineage id).flatMap fun i => Stack.releaseAll list (t.locals i)) := by
  rw [unwind, outward_of_lt h, List.flatMap_def, ← map_path (Stack.releaseAll list),
    ← List.flatMap_def]
  rfl

-- Where something is found, the scope is there.
theorem search_of_search? {x : String} (h : t.search? id x = some l) :
    t.search id x = .ok (some l) := by
  by_cases hid : id < t.size
  · rw [search_of_lt hid, h]
  · rw [search?, path_of_missing (Nat.le_of_not_lt hid)] at h
    cases h

theorem search_of_missing (h : t.size ≤ id) (x : String) : t.search id x = .error ⟨id⟩ := by
  rw [search, outward_of_missing h]
  rfl

theorem visibleNames_of_missing (h : t.size ≤ id) : t.visibleNames id = .error ⟨id⟩ := by
  rw [visibleNames, outward_of_missing h]
  rfl

-- `t'` came from `t` by compiling inside scope `id`, so of the scopes that were there only `id`
-- may have got more locals. New scopes are not restricted.
structure Grows (t t' : ScopeTree) (id : Nat) : Prop where
  size_le : t.size ≤ t'.size
  parent_eq : ∀ {j}, j < t.size → t'.parent? j = t.parent? j
  locals_eq : ∀ {j}, j < t.size → j ≠ id → t'.locals j = t.locals j
  method_eq : t'.method = t.method

namespace Grows

theorem refl (t : ScopeTree) (id : Nat) : Grows t t id :=
  ⟨Nat.le_refl _, fun _ => rfl, fun _ _ => rfl, rfl⟩

theorem trans (h : Grows t t' id) (h' : Grows t' t'' id) : Grows t t'' id where
  size_le := h.size_le.trans h'.size_le
  parent_eq hj := (h'.parent_eq (hj.trans_le h.size_le)).trans (h.parent_eq hj)
  locals_eq hj hne := (h'.locals_eq (hj.trans_le h.size_le) hne).trans (h.locals_eq hj hne)
  method_eq := h'.method_eq.trans h.method_eq

-- A scope that was not there before does not count as an exception.
theorem of_new (h : Grows t t' j) (hj : t.size ≤ j) (id : Nat) : Grows t t' id where
  size_le := h.size_le
  parent_eq := h.parent_eq
  locals_eq hi _ := h.locals_eq hi (by omega)
  method_eq := h.method_eq

theorem lineage_eq (h : Grows t t' id) (hj : j < t.size) : t'.lineage j = t.lineage j := by
  induction j using Nat.strong_induction_on with
  | _ j ih =>
      rw [ScopeTree.lineage_eq hj, ScopeTree.lineage_eq (hj.trans_le h.size_le), h.parent_eq hj]
      cases hp : t.parent? j with
      | none => rfl
      | some p =>
          have hlt := lt_of_parent? hp
          exact congrArg (j :: ·) (ih p hlt (by omega))

end Grows

-- Adding a scope.

theorem size_push {h : ∀ {p}, s.parent = some p → p < t.size} : (t.push s h).size = t.size + 1 := by
  simp [push, size]

theorem get?_push {h : ∀ {p}, s.parent = some p → p < t.size} (j : Nat) :
    (t.push s h).get? j = if j = t.size then some s else t.get? j := by
  simp only [push, get?, size, Array.getElem?_push]
  rfl

theorem locals_push {h : ∀ {p}, s.parent = some p → p < t.size} (j : Nat) :
    (t.push s h).locals j = if j = t.size then s.locals else t.locals j := by
  rw [locals, get?_push]
  by_cases hj : j = t.size
  · simp only [hj, if_true]
  · simp only [hj, if_false, locals]

theorem parent?_push {h : ∀ {p}, s.parent = some p → p < t.size} (j : Nat) :
    (t.push s h).parent? j = if j = t.size then s.parent else t.parent? j := by
  rw [parent?, get?_push]
  split <;> rfl

-- A scope without locals keeps the tree valid.
theorem Valid.push (hv : t.Valid) (h : ∀ {p}, s.parent = some p → p < t.size)
    (hs : s.locals = []) : (t.push s h).Valid where
  names_nodup id := by
    rw [locals_push]
    split
    · simp [hs]
    · exact hv.names_nodup id

theorem Valid.createRoot (hv : t.Valid) : t.createRoot.2.Valid :=
  hv.push (s := {}) (fun h => by cases h) rfl

-- Opening a scope inside another.

-- The tree with the new scope, which is the old one where there is no such parent.
def child (t : ScopeTree) (p : Nat) : ScopeTree :=
  (t.createChild p).toOption.elim t Prod.snd

theorem createChild_of_lt (hp : p < t.size) : t.createChild p = .ok (t.size, t.child p) := by
  simp only [child, createChild, dif_pos hp]
  rfl

theorem child_of_lt (hp : p < t.size) :
    t.child p = t.push { parent := some p } fun h => Option.some.inj h ▸ hp := by
  simp only [child, createChild, dif_pos hp]
  rfl

theorem child_size (hp : p < t.size) : (t.child p).size = t.size + 1 := by
  rw [child_of_lt hp, size_push]

theorem child_get? (hp : p < t.size) (j : Nat) :
    (t.child p).get? j = if j = t.size then some { parent := some p } else t.get? j := by
  rw [child_of_lt hp, get?_push]

theorem child_parent? (hp : p < t.size) (j : Nat) :
    (t.child p).parent? j = if j = t.size then some p else t.parent? j := by
  rw [child_of_lt hp, parent?_push]

theorem child_locals (hp : p < t.size) (j : Nat) :
    (t.child p).locals j = if j = t.size then [] else t.locals j := by
  rw [child_of_lt hp, locals_push]

theorem child_method (t : ScopeTree) (p : Nat) : (t.child p).method = t.method := by
  rw [child, createChild]
  split <;> rfl

theorem Valid.child (hv : t.Valid) (hp : p < t.size) : (t.child p).Valid := by
  rw [child_of_lt hp]
  exact hv.push _ rfl

theorem grows_child (hp : p < t.size) (id : Nat) : Grows t (t.child p) id where
  size_le := by rw [child_size hp]; omega
  parent_eq {j} hj := by rw [child_parent? hp, if_neg (by omega)]
  locals_eq {j} hj _ := by rw [child_locals hp, if_neg (by omega)]
  method_eq := child_method t p

-- Declaring a local.

theorem size_set (t : ScopeTree) (id : Nat) (s : Scope) : (t.set id s).size = t.size := by
  simp [set, size]

theorem get?_set {old : Scope} (h : t.get? id = some old) (hparent : s.parent = old.parent)
    (j : Nat) : (t.set id s).get? j = if j = id then some s else t.get? j := by
  simp only [set, get?, Array.getElem?_modify] at h ⊢
  by_cases hj : id = j
  · subst hj
    simp [h, ← hparent]
  · simp only [hj, if_false, Ne.symm hj]

-- A declaration puts one new scope in the place of the old one, or is refused and changes nothing.
theorem declare_cases {result : Except Duplicate Unit} (h : t.declare id l = .ok (result, t')) :
    ∃ s, t.get? id = some s ∧
      ((∃ s', s.declare l = .ok s' ∧ result = .ok () ∧ t' = t.set id s') ∨
        ∃ d, s.declare l = .error d ∧ result = .error d ∧ t' = t) := by
  rw [declare, scope] at h
  cases hs : t.get? id with
  | none => simp [hs, Bind.bind, Except.bind] at h
  | some s =>
      simp only [hs, Bind.bind, Except.bind] at h
      cases hnew : s.declare l with
      | ok s' =>
          simp only [hnew, Pure.pure, Except.pure, Except.ok.injEq, Prod.mk.injEq] at h
          exact ⟨s, rfl, .inl ⟨s', hnew, h.1.symm, h.2.symm⟩⟩
      | error d =>
          simp only [hnew, Pure.pure, Except.pure, Except.ok.injEq, Prod.mk.injEq] at h
          exact ⟨s, rfl, .inr ⟨d, hnew, h.1.symm, h.2.symm⟩⟩

theorem set_of_declare (h : t.declare id l = .ok (.ok (), t')) :
    ∃ s s', t.get? id = some s ∧ s.declare l = .ok s' ∧ t' = t.set id s' := by
  obtain ⟨s, hs, ⟨s', hnew, -, ht'⟩ | ⟨d, -, hresult, -⟩⟩ := declare_cases h
  · exact ⟨s, s', hs, hnew, ht'⟩
  · cases hresult

theorem refused_of_declare {d : Duplicate} (h : t.declare id l = .ok (.error d, t')) :
    t' = t ∧ ∃ s, t.get? id = some s ∧ s.declare l = .error d := by
  obtain ⟨s, hs, ⟨s', -, hresult, -⟩ | ⟨d', hnew, hresult, ht'⟩⟩ := declare_cases h
  · cases hresult
  · obtain rfl := Except.error.inj hresult
    exact ⟨ht', s, hs, hnew⟩

-- A scope that is there either takes a local or has one of that name.
theorem exists_declare (h : id < t.size) (l : Local) :
    (∃ t', t.declare id l = .ok (.ok (), t')) ∨ ∃ d, t.declare id l = .ok (.error d, t) := by
  obtain ⟨s, hs⟩ := get?_isSome h
  simp only [declare, scope_of_get? hs, Bind.bind, Except.bind]
  cases s.declare l with
  | ok s' => exact .inl ⟨_, rfl⟩
  | error d => exact .inr ⟨d, rfl⟩

-- What declaring a local does when it succeeds.
structure Declared (t t' : ScopeTree) (id : Nat) (l : Local) : Prop where
  lt_size : id < t.size
  name_free : ∀ l' ∈ t.locals id, l'.name ≠ l.name
  size_eq : t'.size = t.size
  method_eq : t'.method = t.method
  parent_eq : ∀ j, t'.parent? j = t.parent? j
  locals_self : t'.locals id = t.locals id ++ [l]
  locals_other : ∀ {j}, j ≠ id → t'.locals j = t.locals j

theorem declared_of_declare (h : t.declare id l = .ok (.ok (), t')) : Declared t t' id l := by
  obtain ⟨s, s', hs, hnew, rfl⟩ := set_of_declare h
  obtain ⟨hfree, hparent, hadded, -⟩ := Scope.declare_ok hnew
  have hlocals := locals_of_get? hs
  have hget := get?_set hs hparent
  refine ⟨lt_size_of_get? hs, ?_, size_set _ _ _, rfl, ?_, ?_, ?_⟩
  · intro l' hl' hname
    rw [hlocals] at hl'
    rw [Scope.find?_eq, List.find?_eq_none] at hfree
    exact hfree l' hl' (by simp [hname])
  · intro j
    rw [parent?, parent?, hget]
    split
    · next hj => rw [hj, hs, Option.bind_some, Option.bind_some, hparent]
    · rfl
  · rw [hlocals, locals, hget, if_pos rfl]
    exact hadded
  · intro j hj
    rw [locals, locals, hget, if_neg hj]

-- A local is refused for the first one of its name that is there.
theorem earlier_of_declare {d : Duplicate} (h : t.declare id l = .ok (.error d, t')) :
    ∃ earlier, (t.locals id).find? (·.name == l.name) = some earlier ∧
      d = ⟨l.name, earlier.location, l.location⟩ := by
  obtain ⟨-, s, hs, hnew⟩ := refused_of_declare h
  obtain ⟨earlier, hfind, rfl⟩ := Scope.declare_error hnew
  rw [Scope.find?_eq] at hfind
  exact ⟨earlier, by rw [locals_of_get? hs, hfind], rfl⟩

theorem name_taken_of_declare {d : Duplicate} (h : t.declare id l = .ok (.error d, t')) :
    ∃ l' ∈ t.locals id, l'.name = l.name := by
  obtain ⟨earlier, hfind, -⟩ := earlier_of_declare h
  exact ⟨earlier, List.mem_of_find?_eq_some hfind, by simpa using List.find?_some hfind⟩

namespace Declared

theorem grows (h : Declared t t' id l) : Grows t t' id where
  size_le := Nat.le_of_eq h.size_eq.symm
  parent_eq _ := h.parent_eq _
  locals_eq _ hj := h.locals_other hj
  method_eq := h.method_eq

theorem valid (h : Declared t t' id l) (hv : t.Valid) : t'.Valid where
  names_nodup i := by
    by_cases hi : i = id
    · subst hi
      rw [h.locals_self, List.map_append, List.nodup_append]
      refine ⟨hv.names_nodup i, by simp, ?_⟩
      intro a ha b hb
      obtain ⟨l', hl', rfl⟩ := List.mem_map.mp ha
      obtain rfl : b = l.name := by simpa using hb
      exact h.name_free l' hl'
    · rw [h.locals_other hi]
      exact hv.names_nodup i

end Declared

theorem valid_new (m : Option Method) : Valid { method := m } where
  names_nodup id := by simp [locals, get?]

-- A method starts with a tree of one scope without locals.
theorem valid_createRoot (m : Method) : (createRoot { method := some m }).2.Valid :=
  (valid_new (some m)).createRoot

end ScopeTree

end SpriteCompiler
