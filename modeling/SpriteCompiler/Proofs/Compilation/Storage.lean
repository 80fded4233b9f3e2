import SpriteCompiler.Compilation
import Mathlib.Tactic

namespace SpriteCompiler

def Storage.name : Storage → String
  | .variable v => v.name
  | .list l => l.name

-- All that is stored under a name.
def SpriteOutput.stored (out : SpriteOutput) (x : String) : List Storage :=
  (out.cells.filter (·.name == x)).map .variable ++ (out.lists.filter (·.name == x)).map .list

theorem SpriteOutput.mem_stored_variable {out : SpriteOutput} {x : String} {v : StoredVariable} :
    .variable v ∈ out.stored x ↔ v ∈ out.cells ∧ v.name = x := by
  simp [stored]

theorem SpriteOutput.mem_stored_list {out : SpriteOutput} {x : String} {l : StoredList} :
    .list l ∈ out.stored x ↔ l ∈ out.lists ∧ l.name = x := by
  simp [stored]

-- A name that is asked for, and what is to be stored under it. A constant stores nothing.
structure Request where
  name : String
  storage : Option Storage
  name_storage : ∀ s ∈ storage, s.name = name

def Global.request (g : Global) : Request where
  name := g.name
  storage := g.storage?
  name_storage := by cases g <;> rintro _ ⟨⟩ <;> rfl

def StoredVariable.request (v : StoredVariable) : Request where
  name := v.name
  storage := some (.variable v)
  name_storage := by rintro _ ⟨⟩; rfl

def StoredList.request (l : StoredList) : Request where
  name := l.name
  storage := some (.list l)
  name_storage := by rintro _ ⟨⟩; rfl

-- The variable for the result of a method, if it returns one.
def Method.result? (o : Options) (m : Method) : Option StoredVariable :=
  m.returnType.map fun type => ⟨o.returnVariable m.name, type.default⟩

theorem Method.result?_eq_some {o : Options} {m : Method} {v : StoredVariable}
    (h : m.result? o = some v) : m.returnType.isSome ∧ v.name = o.returnVariable m.name := by
  obtain ⟨type, htype, rfl⟩ := Option.map_eq_some_iff.mp h
  exact ⟨by simp [htype], rfl⟩

namespace UnitStorage

variable {u : UnitStorage} {r : Request} {rs : List Request} {x : String}

def stored (u : UnitStorage) (x : String) : List Storage :=
  (u.output "" []).stored x

-- Only a name that is taken has something stored under it.
def Covers (u : UnitStorage) : Prop :=
  ∀ x, x ∉ u.names → u.stored x = []

-- Takes a name with what is stored under it.
def put (u : UnitStorage) (r : Request) : UnitStorage :=
  match r.storage with
  | none => { u with names := u.names ++ [r.name] }
  | some (.variable v) => { u with names := u.names ++ [r.name], cells := u.cells ++ [v] }
  | some (.list l) => { u with names := u.names ++ [r.name], lists := u.lists ++ [l] }

-- The name is given unless it is taken.
def request (u : UnitStorage) (r : Request) : UnitStorage :=
  if r.name ∈ u.names then u else u.put r

def requestAll (u : UnitStorage) (rs : List Request) : UnitStorage :=
  rs.foldl request u

theorem requestAll_cons (u : UnitStorage) (r : Request) (rs : List Request) :
    u.requestAll (r :: rs) = (u.request r).requestAll rs :=
  rfl

theorem requestAll_append (u : UnitStorage) (rs rs' : List Request) :
    u.requestAll (rs ++ rs') = (u.requestAll rs).requestAll rs' :=
  List.foldl_append

theorem names_put (u : UnitStorage) (r : Request) : (u.put r).names = u.names ++ [r.name] := by
  unfold put
  split <;> rfl

theorem stored_put (h : u.stored r.name = []) :
    (u.put r).stored x = if x = r.name then r.storage.toList else u.stored x := by
  obtain ⟨name, storage, hname⟩ := r
  split
  · next hx =>
      subst hx
      simp only [stored, SpriteOutput.stored, output, List.append_eq_nil_iff, List.map_eq_nil_iff] at h
      obtain _ | v | l := storage
      · simp [put, stored, SpriteOutput.stored, output, h]
      · have hv : v.name = x := hname _ rfl
        simp [put, stored, SpriteOutput.stored, output, h, hv]
      · have hl : l.name = x := hname _ rfl
        simp [put, stored, SpriteOutput.stored, output, h, hl]
  · next hx =>
      obtain _ | v | l := storage
      · rfl
      · have hv : v.name ≠ x := fun heq => hx (heq.symm.trans (hname _ rfl))
        simp [put, stored, SpriteOutput.stored, output, hv]
      · have hl : l.name ≠ x := fun heq => hx (heq.symm.trans (hname _ rfl))
        simp [put, stored, SpriteOutput.stored, output, hl]

theorem stored_request (h : u.Covers) :
    (u.request r).stored x =
      if x = r.name ∧ r.name ∉ u.names then r.storage.toList else u.stored x := by
  unfold request
  by_cases htaken : r.name ∈ u.names
  · simp [htaken]
  · rw [if_neg htaken, stored_put (h _ htaken)]
    simp [htaken]

theorem mem_names_request : x ∈ (u.request r).names ↔ x ∈ u.names ∨ x = r.name := by
  unfold request
  split
  · next htaken =>
      refine ⟨.inl, fun hx => hx.elim id ?_⟩
      rintro rfl
      exact htaken
  · simp [names_put]

theorem Covers.request (h : u.Covers) (r : Request) : (u.request r).Covers := by
  intro x hx
  rw [mem_names_request, not_or] at hx
  rw [stored_request h, if_neg fun hr => hx.2 hr.1]
  exact h x hx.1

theorem covers_empty : ({} : UnitStorage).Covers :=
  fun _ _ => rfl

theorem mem_names_requestAll :
    x ∈ (u.requestAll rs).names ↔ x ∈ u.names ∨ ∃ r ∈ rs, r.name = x := by
  induction rs generalizing u with
  | nil => simp [requestAll]
  | cons r rs ih =>
      rw [requestAll_cons, ih, mem_names_request]
      simp only [List.exists_mem_cons_iff, or_assoc, eq_comm]

-- What is stored under a name is what the first to ask for it wanted.
theorem stored_requestAll (h : u.Covers) :
    (u.requestAll rs).stored x =
      if x ∈ u.names then u.stored x
      else ((rs.find? (·.name == x)).bind Request.storage).toList := by
  induction rs generalizing u with
  | nil =>
      split
      · rfl
      · next hx => exact h x hx
  | cons r rs ih =>
      rw [requestAll_cons, ih (h.request r), stored_request h]
      simp only [mem_names_request]
      by_cases hx : x ∈ u.names
      · have hnot : ¬ (x = r.name ∧ r.name ∉ u.names) := fun hr => hr.2 (hr.1 ▸ hx)
        simp only [hx, true_or, if_true, if_neg hnot]
      · by_cases hr : x = r.name
        · subst hr
          simp [hx]
        · have hne : (r.name == x) = false := by simpa using Ne.symm hr
          simp [hx, hr, hne]

-- Declarations and results are such requests.

theorem declare_fst (u : UnitStorage) (g : Global) : (u.declare g).1 = u.request g.request := by
  unfold declare request
  by_cases htaken : g.name ∈ u.names
  · simp [htaken, Global.request]
  · simp only [List.contains_eq_mem, htaken, decide_false, Bool.false_eq_true, if_false,
      Global.request, put]
    cases g <;> rfl

theorem declareAll_fst (u : UnitStorage) (gs : List Global) :
    (u.declareAll gs).1 = u.requestAll (gs.map Global.request) := by
  induction gs generalizing u with
  | nil => rfl
  | cons g gs ih =>
      rw [List.map_cons, requestAll_cons, ← declare_fst, ← ih]
      rfl

theorem addVariable_fst (u : UnitStorage) (v : StoredVariable) (loc : Location) :
    (u.addVariable v loc).1 = u.request v.request := by
  unfold addVariable request
  by_cases htaken : v.name ∈ u.names <;> simp [htaken, StoredVariable.request, put]

theorem addReturns_fst (o : Options) (u : UnitStorage) (ms : List Method) :
    (u.addReturns o ms).1 =
      u.requestAll ((ms.filterMap (Method.result? o)).map StoredVariable.request) := by
  induction ms generalizing u with
  | nil => rfl
  | cons m ms ih =>
      cases htype : m.returnType with
      | none =>
          have hnone : m.result? o = none := by simp [Method.result?, htype]
          rw [List.filterMap_cons_none hnone, ← ih]
          simp only [addReturns, htype]
      | some type =>
          have hsome : m.result? o = some ⟨o.returnVariable m.name, type.default⟩ := by
            simp [Method.result?, htype]
          rw [List.filterMap_cons_some hsome, List.map_cons, requestAll_cons,
            ← addVariable_fst u _ m.loc, ← ih]
          simp only [addReturns, htype]

-- A result whose variable has a name that is taken is reported.
theorem duplicate_mem_addReturns (o : Options) {u : UnitStorage} {ms : List Method} {m : Method}
    (hm : m ∈ ms) (hreturns : m.returnType.isSome) (h : o.returnVariable m.name ∈ u.names) :
    .duplicateDeclaration (o.returnVariable m.name) m.loc ∈ (u.addReturns o ms).2 := by
  induction ms generalizing u with
  | nil => cases hm
  | cons m' ms ih =>
      rw [List.mem_cons] at hm
      obtain rfl | hm := hm
      · obtain ⟨type, htype⟩ := Option.isSome_iff_exists.mp hreturns
        simp [addReturns, htype, addVariable, h]
      · -- a name that is taken stays taken
        have hrest : o.returnVariable m.name ∈ (u.addReturns o [m']).1.names := by
          rw [addReturns_fst, mem_names_requestAll]
          exact .inl h
        exact List.mem_append_right _ (ih hm hrest)

end UnitStorage

-- The first declaration of a name asks for it first.
theorem find?_map_request (gs : List Global) (x : String) :
    (gs.map Global.request).find? (·.name == x) =
      (gs.find? (·.name == x)).map Global.request := by
  rw [List.find?_map]
  rfl

-- Results ask for their names after the declarations of the sprite.
theorem Sprite.storage_fst (o : Options) (s : Sprite) :
    (s.storage o).1 = ({} : UnitStorage).requestAll (s.declarations.map Global.request ++
      (s.methods.filterMap (Method.result? o)).map StoredVariable.request) := by
  rw [UnitStorage.requestAll_append, ← UnitStorage.declareAll_fst, ← UnitStorage.addReturns_fst]
  rfl

-- A sprite stores what the first declaration of a name asks for. A name that is not declared can
-- only be that of a result.
theorem Sprite.stored_storage (o : Options) (s : Sprite) (x : String) :
    (s.storage o).1.stored x =
      (s.declarations.find? (·.name == x)).elim
        (((s.methods.filterMap (Method.result? o)).find? (·.name == x)).map Storage.variable).toList
        fun g => g.storage?.toList := by
  have hresults (vs : List StoredVariable) :
      (vs.map StoredVariable.request).find? (·.name == x) =
        (vs.find? (·.name == x)).map StoredVariable.request := by
    rw [List.find?_map]
    rfl
  rw [s.storage_fst, UnitStorage.stored_requestAll UnitStorage.covers_empty, if_neg List.not_mem_nil,
    List.find?_append, find?_map_request, hresults]
  cases s.declarations.find? (·.name == x) with
  | some g => rfl
  | none => cases (s.methods.filterMap (Method.result? o)).find? (·.name == x) <;> rfl

-- The stack asks for its name after the declarations of the project.
theorem compileStage_fst (o : Options) (p : Project) :
    (compileStage o p).1 = (({} : UnitStorage).requestAll (p.declarations.map Global.request ++
      if p.hasMethods then [StoredList.request ⟨o.stackList, []⟩] else [])).output p.name [] := by
  let u := ({} : UnitStorage).declareAll p.declarations
  have hu : u.1 = ({} : UnitStorage).requestAll (p.declarations.map Global.request) :=
    UnitStorage.declareAll_fst _ _
  have htaken : o.stackList ∈ u.1.names ↔ (p.find? o.stackList).isSome := by
    rw [hu, UnitStorage.mem_names_requestAll, Project.find?, Option.isSome_map, List.find?_isSome]
    simp [Global.request]
  rw [UnitStorage.requestAll_append, ← hu]
  change (if p.hasMethods then _ else _ : SpriteOutput × List Diagnostic).1 = _
  by_cases hmethods : p.hasMethods = true
  · rw [if_pos hmethods, if_pos hmethods]
    change _ = (u.1.request _).output p.name []
    rw [UnitStorage.request]
    cases hfind : p.find? o.stackList with
    | none =>
        rw [hfind] at htaken
        rw [if_neg (by simpa [StoredList.request] using htaken)]
        rfl
    | some taken =>
        rw [hfind] at htaken
        rw [if_pos (by simpa [StoredList.request] using htaken)]
  · rw [if_neg hmethods, if_neg hmethods]
    rfl

-- The stage stores what the first declaration of a name asks for, and the stack, if that is needed
-- and its name is not declared.
theorem stored_compileStage (o : Options) (p : Project) (x : String) :
    (compileStage o p).1.stored x =
      (p.declarations.find? (·.name == x)).elim
        (if p.hasMethods ∧ x = o.stackList then [.list ⟨o.stackList, []⟩] else [])
        fun g => g.storage?.toList := by
  rw [compileStage_fst]
  change UnitStorage.stored _ x = _
  rw [UnitStorage.stored_requestAll UnitStorage.covers_empty, if_neg List.not_mem_nil,
    List.find?_append, find?_map_request]
  cases p.declarations.find? (·.name == x) with
  | some g => rfl
  | none =>
      by_cases hmethods : p.hasMethods = true
      · by_cases hx : x = o.stackList
        · simp [hmethods, hx, StoredList.request]
        · simp [hmethods, hx, Ne.symm hx, StoredList.request]
      · simp [hmethods]

end SpriteCompiler
