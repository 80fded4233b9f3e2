import SpriteCompiler.Proofs.Compilation.Independence
import SpriteCompiler.Proofs.Compilation.Storage

namespace SpriteCompiler

section FirstOfName

variable {α β : Type} (name : α → String)

-- The item at a place gets its name: it was not taken before, and no earlier item has it.
def GetsName (taken : List String) (xs : List α) (x : α) (place : Nat) : Prop :=
  name x ∉ taken ∧ ∀ y ∈ xs.take place, name y ≠ name x

instance (taken : List String) (xs : List α) (x : α) (place : Nat) :
    Decidable (GetsName name taken xs x place) :=
  inferInstanceAs (Decidable (_ ∧ _))

-- In order, the items that get their names, or else those that do not.
def served (gets : Bool) (taken : List String) (xs : List α) : List α :=
  (xs.zipIdx.filter fun (x, place) => decide (GetsName name taken xs x place) = gets).map (·.1)

def kept (taken : List String) (xs : List α) : List α :=
  served name true taken xs

def refused (taken : List String) (xs : List α) : List α :=
  served name false taken xs

variable {name} {gets : Bool} {taken taken' : List String}

theorem getsName_cons_succ {x y : α} {xs : List α} {place : Nat} :
    GetsName name taken (x :: xs) y (place + 1) ↔ GetsName name (name x :: taken) xs y place := by
  simp only [GetsName, List.take_succ_cons, List.mem_cons, not_or]
  grind

-- Going on to the next item, the name of the first is taken.
theorem served_cons (x : α) (xs : List α) :
    served name gets taken (x :: xs) =
      (if decide (name x ∉ taken) = gets then [x] else []) ++
        served name gets (name x :: taken) xs := by
  have hfirst : GetsName name taken (x :: xs) x 0 ↔ name x ∉ taken := by simp [GetsName]
  have hrest : (xs.zipIdx 1) = xs.zipIdx.map fun y => (y.1, y.2 + 1) := List.zipIdx_succ
  simp only [served, List.zipIdx_cons, Nat.zero_add, hrest, List.filter_cons, hfirst,
    List.filter_map, Function.comp_def, getsName_cons_succ]
  split <;> simp_all

-- It does not matter in which order, or how often, names were taken.
theorem served_congr (h : ∀ n, n ∈ taken ↔ n ∈ taken') (xs : List α) :
    served name gets taken xs = served name gets taken' xs := by
  refine congrArg _ (List.filter_congr fun y _ => ?_)
  have hgets : GetsName name taken xs y.1 y.2 ↔ GetsName name taken' xs y.1 y.2 := by
    simp only [GetsName, h]
  simp only [hgets]

theorem served_append (xs ys : List α) :
    served name gets taken (xs ++ ys) =
      served name gets taken xs ++ served name gets (taken ++ xs.map name) ys := by
  induction xs generalizing taken with
  | nil => simp [served]
  | cons x xs ih =>
      rw [List.cons_append, served_cons, served_cons, ih, List.append_assoc]
      congr 2
      exact served_congr (by grind) ys

theorem served_map (f : β → α) (xs : List β) :
    served name gets taken (xs.map f) = (served (name ∘ f) gets taken xs).map f := by
  induction xs generalizing taken with
  | nil => rfl
  | cons x xs ih =>
      rw [List.map_cons, served_cons, served_cons, ih, List.map_append]
      split <;> simp_all

end FirstOfName

def Storage.cell? : Storage → Option StoredVariable
  | .variable v => some v
  | .list _ => none

def Storage.list? : Storage → Option StoredList
  | .variable _ => none
  | .list l => some l

namespace Request

def cell? (r : Request) : Option StoredVariable :=
  r.storage.bind Storage.cell?

def list? (r : Request) : Option StoredList :=
  r.storage.bind Storage.list?

end Request

-- What a declaration stores, if it is a variable or a list.
def Global.cell? : Global → Option StoredVariable
  | .variable d => some ⟨d.name, d.value.getD d.type.default⟩
  | _ => none

def Global.list? : Global → Option StoredList
  | .list d => some ⟨d.name, d.items⟩
  | _ => none

namespace UnitStorage

theorem cells_put (u : UnitStorage) (r : Request) : (u.put r).cells = u.cells ++ r.cell?.toList := by
  obtain ⟨_, _ | _ | _, _⟩ := r <;> simp [put, Request.cell?, Storage.cell?]

theorem lists_put (u : UnitStorage) (r : Request) : (u.put r).lists = u.lists ++ r.list?.toList := by
  obtain ⟨_, _ | _ | _, _⟩ := r <;> simp [put, Request.list?, Storage.list?]

-- Going on to the next item, its name is taken whether or not it got it.
theorem served_request {α : Type} {name : α → String} {gets : Bool} (u : UnitStorage) {r : Request}
    {x : α} (hr : r.name = name x) (xs : List α) :
    served name gets u.names (x :: xs) =
      (if decide (name x ∉ u.names) = gets then [x] else []) ++
        served name gets (u.request r).names xs := by
  rw [served_cons]
  congr 1
  exact served_congr (fun n => by rw [mem_names_request, List.mem_cons, hr, or_comm]) xs

section Requests

-- Variables and lists are both kept in the order in which they are put in.
variable {β : Type} {view : UnitStorage → List β} {want : Request → Option β}
  (hput : ∀ u r, view (u.put r) = view u ++ (want r).toList)

include hput

-- One request stores what it wants if its name is free.
theorem view_request (u : UnitStorage) (r : Request) :
    view (u.request r) = view u ++ (if r.name ∈ u.names then [] else [r]).filterMap want := by
  rw [request]
  split
  · simp
  · rw [hput]
    cases hwant : want r <;> simp [hwant]

-- All requests store what those want that get their names.
theorem view_requestAll (u : UnitStorage) (rs : List Request) :
    view (u.requestAll rs) = view u ++ (kept Request.name u.names rs).filterMap want := by
  induction rs generalizing u with
  | nil => simp [requestAll, kept, served]
  | cons r rs ih =>
      rw [requestAll_cons, ih, view_request hput, kept, kept, u.served_request rfl,
        List.filterMap_append, List.append_assoc]
      simp

end Requests

theorem cells_requestAll (rs : List Request) (name : String) (ps : List Procedure) :
    ((({} : UnitStorage).requestAll rs).output name ps).cells =
      (kept Request.name [] rs).filterMap Request.cell? :=
  (view_requestAll cells_put {} rs).trans (List.nil_append _)

theorem lists_requestAll (rs : List Request) (name : String) (ps : List Procedure) :
    ((({} : UnitStorage).requestAll rs).output name ps).lists =
      (kept Request.name [] rs).filterMap Request.list? :=
  (view_requestAll lists_put {} rs).trans (List.nil_append _)

end UnitStorage

-- The declarations that get their names ask for what they store.
theorem kept_map_request (gs : List Global) :
    kept Request.name [] (gs.map Global.request) = (kept Global.name [] gs).map Global.request :=
  served_map Global.request gs

theorem Global.cell?_request (g : Global) : g.request.cell? = g.cell? := by
  cases g <;> rfl

theorem Global.list?_request (g : Global) : g.request.list? = g.list? := by
  cases g <;> rfl

-- The variable for the result of a method, with the place of the method.
structure MethodResult where
  cell : StoredVariable
  loc : Location

namespace MethodResult

def name (r : MethodResult) : String :=
  r.cell.name

def duplicate (r : MethodResult) : Diagnostic :=
  .duplicateDeclaration r.name r.loc

-- Those of the methods that return a value, in order.
def ofMethods (o : Options) (ms : List Method) : List MethodResult :=
  ms.filterMap fun m => (m.result? o).map (⟨·, m.loc⟩)

theorem map_cell_ofMethods (o : Options) (ms : List Method) :
    (ofMethods o ms).map cell = ms.filterMap (Method.result? o) := by
  simp [ofMethods, List.map_filterMap, Option.map_map, Function.comp_def]

end MethodResult

-- All names under which something is stored.
def SpriteOutput.storedNames (out : SpriteOutput) : List String :=
  out.cells.map (·.name) ++ out.lists.map (·.name)

theorem SpriteOutput.count_storedNames (out : SpriteOutput) (x : String) :
    out.storedNames.count x = (out.stored x).length := by
  simp [storedNames, stored, List.count_eq_length_filter, List.filter_map, Function.comp_def]

theorem UnitStorage.nodup_requestAll (rs : List Request) (name : String) (ps : List Procedure) :
    ((({} : UnitStorage).requestAll rs).output name ps).storedNames.Nodup := by
  rw [List.nodup_iff_count_le_one]
  intro x
  rw [SpriteOutput.count_storedNames]
  change ((({} : UnitStorage).requestAll rs).stored x).length ≤ 1
  rw [stored_requestAll covers_empty, if_neg List.not_mem_nil]
  exact Option.length_toList_le

-- The problems that are about names declared twice.
def duplicates (ds : List Diagnostic) : List Diagnostic :=
  ds.filter (·.kind = .duplicateDeclaration)

theorem duplicates_append (ds es : List Diagnostic) :
    duplicates (ds ++ es) = duplicates ds ++ duplicates es :=
  List.filter_append ..

def Global.duplicate (g : Global) : Diagnostic :=
  .duplicateDeclaration g.name g.location

-- A value of the wrong type is another problem.
theorem Global.duplicates_problems (g : Global) : duplicates g.problems = [] := by
  have htypes (expected found : ValueType) (loc : Location) :
      duplicates (Diagnostic.ofTypes expected found loc) = [] := by
    rw [Diagnostic.ofTypes]
    split <;> rfl
  obtain d | ⟨_, _, value, _⟩ | d := g
  · exact htypes _ _ _
  · cases value with
    | none => rfl
    | some value => exact htypes _ _ _
  · simp only [problems, duplicates, List.filter_flatMap]
    exact List.flatMap_eq_nil_iff.mpr fun item _ => htypes _ _ _

namespace UnitStorage

theorem duplicates_declare (u : UnitStorage) (g : Global) :
    duplicates (u.declare g).2 = if g.name ∈ u.names then [g.duplicate] else [] := by
  rw [declare, List.contains_eq_mem]
  split
  · next htaken =>
      rw [if_pos (by simpa using htaken)]
      rfl
  · next hfree =>
      rw [if_neg (by simpa using hfree), ← g.duplicates_problems]
      cases g <;> rfl

theorem duplicates_declareAll (u : UnitStorage) (gs : List Global) :
    duplicates (u.declareAll gs).2 = (refused Global.name u.names gs).map Global.duplicate := by
  induction gs generalizing u with
  | nil => rfl
  | cons g gs ih =>
      have hsplit : (u.declareAll (g :: gs)).2 =
          (u.declare g).2 ++ ((u.request g.request).declareAll gs).2 := by
        rw [← declare_fst]
        rfl
      have hname : g.request.name = g.name := rfl
      rw [hsplit, duplicates_append, duplicates_declare, ih, refused, refused, u.served_request hname,
        List.map_append]
      split <;> simp_all

theorem addReturns_snd (o : Options) (u : UnitStorage) (ms : List Method) :
    (u.addReturns o ms).2 =
      (refused MethodResult.name u.names (MethodResult.ofMethods o ms)).map MethodResult.duplicate := by
  induction ms generalizing u with
  | nil => rfl
  | cons m ms ih =>
      cases htype : m.returnType with
      | none =>
          have hnone : m.result? o = none := by simp [Method.result?, htype]
          simp only [addReturns, htype, ih, MethodResult.ofMethods, List.filterMap_cons, hnone]
          rfl
      | some type =>
          let r : MethodResult := ⟨⟨o.returnVariable m.name, type.default⟩, m.loc⟩
          have hsome : m.result? o = some r.cell := by simp [Method.result?, htype, r]
          have hcons : MethodResult.ofMethods o (m :: ms) = r :: MethodResult.ofMethods o ms := by
            simp only [MethodResult.ofMethods, List.filterMap_cons, hsome]
            rfl
          have hsplit : (u.addReturns o (m :: ms)).2 =
              (u.addVariable r.cell r.loc).2 ++ ((u.request r.cell.request).addReturns o ms).2 := by
            rw [← addVariable_fst u r.cell r.loc]
            simp only [addReturns, htype, r]
          have hname : r.cell.request.name = r.name := rfl
          rw [hsplit, ih, hcons, refused, refused, u.served_request hname, List.map_append, addVariable,
            List.contains_eq_mem]
          split <;> simp_all [MethodResult.name, MethodResult.duplicate]

end UnitStorage

-- The results that get their names ask for their variables, which are no lists.
theorem kept_map_request_cell (taken : List String) (rs : List MethodResult) :
    kept Request.name taken ((rs.map MethodResult.cell).map StoredVariable.request) =
      (kept MethodResult.name taken rs).map (·.cell.request) := by
  rw [List.map_map]
  exact served_map (StoredVariable.request ∘ MethodResult.cell) rs

-- The names of declarations are taken when the results ask for theirs.
theorem Sprite.kept_requests (o : Options) (s : Sprite) :
    kept Request.name [] (s.declarations.map Global.request ++
        (s.methods.filterMap (Method.result? o)).map StoredVariable.request) =
      (kept Global.name [] s.declarations).map Global.request ++
        (kept MethodResult.name (s.declarations.map Global.name)
          (MethodResult.ofMethods o s.methods)).map (·.cell.request) := by
  rw [← MethodResult.map_cell_ofMethods, ← kept_map_request_cell, ← kept_map_request, kept,
    served_append, List.nil_append, List.map_map]
  rfl

-- What the stage of a project stores, and what is reported of its names: the declarations that get
-- their names, and the empty stack if it is needed and no declaration has its name.
structure SpriteOutput.IsStageOf (out : SpriteOutput) (o : Options) (p : Project)
    (problems : List Diagnostic) : Prop where
  names_nodup : out.storedNames.Nodup
  cells_eq : out.cells = (kept Global.name [] p.declarations).filterMap Global.cell?
  lists_eq : out.lists = (kept Global.name [] p.declarations).filterMap Global.list? ++
    if p.hasMethods ∧ ∀ g ∈ p.declarations, g.name ≠ o.stackList then [⟨o.stackList, []⟩] else []
  duplicates_eq : duplicates problems =
    (refused Global.name [] p.declarations).map Global.duplicate ++
      if p.hasMethods then
        ((p.declarations.find? (·.name == o.stackList)).map fun g =>
          .duplicateDeclaration o.stackList g.location).toList
      else []

-- What a sprite stores, and what is reported of its names: the declarations that get their names, and
-- the results that get theirs after them.
structure SpriteOutput.IsUnitOf (out : SpriteOutput) (o : Options) (s : Sprite)
    (problems : List Diagnostic) : Prop where
  names_nodup : out.storedNames.Nodup
  cells_eq : out.cells = (kept Global.name [] s.declarations).filterMap Global.cell? ++
    (kept MethodResult.name (s.declarations.map Global.name)
      (MethodResult.ofMethods o s.methods)).map MethodResult.cell
  lists_eq : out.lists = (kept Global.name [] s.declarations).filterMap Global.list?
  duplicates_eq : duplicates problems =
    (refused Global.name [] s.declarations).map Global.duplicate ++
      (refused MethodResult.name (s.declarations.map Global.name)
        (MethodResult.ofMethods o s.methods)).map MethodResult.duplicate

-- A report of a name declared twice is one.
theorem duplicates_eq_self {ds : List Diagnostic} (h : ∀ d ∈ ds, d.kind = .duplicateDeclaration) :
    duplicates ds = ds :=
  List.filter_eq_self.mpr fun d hd => by simpa using h d hd

theorem Sprite.isUnitOf_compiled (o : Options) (p : Project) (s : Sprite) :
    (s.compiled o p).IsUnitOf o s (s.storage o).2 where
  names_nodup := by
    rw [Sprite.compiled, s.storage_fst]
    exact UnitStorage.nodup_requestAll _ _ _
  cells_eq := by
    have hresult : Request.cell? ∘ (fun r : MethodResult => r.cell.request) =
        some ∘ MethodResult.cell := rfl
    rw [Sprite.compiled, s.storage_fst, UnitStorage.cells_requestAll, s.kept_requests,
      List.filterMap_append, List.filterMap_map, List.filterMap_map, hresult, List.filterMap_eq_map]
    simp only [Function.comp_def, Global.cell?_request]
  lists_eq := by
    have hresult : Request.list? ∘ (fun r : MethodResult => r.cell.request) = fun _ => none := rfl
    rw [Sprite.compiled, s.storage_fst, UnitStorage.lists_requestAll, s.kept_requests,
      List.filterMap_append, List.filterMap_map, List.filterMap_map, hresult, List.filterMap_none,
      List.append_nil]
    simp only [Function.comp_def, Global.list?_request]
  duplicates_eq := by
    let u := ({} : UnitStorage).declareAll s.declarations
    have htaken (n : String) : n ∈ u.1.names ↔ n ∈ s.declarations.map Global.name := by
      rw [UnitStorage.declareAll_fst, UnitStorage.mem_names_requestAll]
      simp [Global.request]
    have hsplit : (s.storage o).2 = u.2 ++ (u.1.addReturns o s.methods).2 := rfl
    rw [hsplit, duplicates_append, UnitStorage.duplicates_declareAll, UnitStorage.addReturns_snd,
      duplicates_eq_self (by simp [MethodResult.duplicate, Diagnostic.duplicateDeclaration]),
      refused, refused, served_congr htaken]
    rfl

-- The stack asks last, and gets its name if no declaration has it.
theorem Project.kept_requests (o : Options) (p : Project) :
    kept Request.name [] (p.declarations.map Global.request ++
        if p.hasMethods then [StoredList.request ⟨o.stackList, []⟩] else []) =
      (kept Global.name [] p.declarations).map Global.request ++
        if p.hasMethods ∧ ∀ g ∈ p.declarations, g.name ≠ o.stackList then
          [StoredList.request ⟨o.stackList, []⟩] else [] := by
  have hfree : o.stackList ∉ (p.declarations.map Global.request).map Request.name ↔
      ∀ g ∈ p.declarations, g.name ≠ o.stackList := by
    simp [Global.request]
  rw [← kept_map_request, kept, served_append, List.nil_append]
  congr 1
  by_cases hmethods : p.hasMethods = true
  · simp only [hmethods, if_true, true_and, ← hfree]
    rw [served_cons]
    simp [served, StoredList.request]
  · simp [hmethods, served]

theorem isStageOf_compileStage (o : Options) (p : Project) :
    (compileStage o p).1.IsStageOf o p (compileStage o p).2 where
  names_nodup := by
    rw [compileStage_fst]
    exact UnitStorage.nodup_requestAll _ _ _
  cells_eq := by
    rw [compileStage_fst, UnitStorage.cells_requestAll, p.kept_requests, List.filterMap_append,
      List.filterMap_map]
    simp only [Function.comp_def, Global.cell?_request]
    split <;> simp [StoredList.request, Request.cell?, Storage.cell?]
  lists_eq := by
    rw [compileStage_fst, UnitStorage.lists_requestAll, p.kept_requests, List.filterMap_append,
      List.filterMap_map]
    simp only [Function.comp_def, Global.list?_request]
    split <;> simp [StoredList.request, Request.list?, Storage.list?]
  duplicates_eq := by
    have hdeclared := UnitStorage.duplicates_declareAll {} p.declarations
    simp only [compileStage, Project.find?]
    by_cases hmethods : p.hasMethods = true
    · rw [if_pos hmethods, if_pos hmethods]
      cases p.declarations.find? (·.name == o.stackList) with
      | none => simpa using hdeclared
      | some g =>
          have hlocation : g.binding.location = g.location := by cases g <;> rfl
          simp only [Option.map_some, duplicates_append, hdeclared, hlocation]
          rfl
    · rw [if_neg hmethods, if_neg hmethods, List.append_nil]
      exact hdeclared

-- In every unit of a compiled project, what asks for a free name is stored and what asks for one that is
-- taken is reported, and nothing else. The report has the problems of the stage first, and then those
-- of each sprite, its declarations and results before its methods.
theorem compile_stores_first (o : Options) (p : Project) (r : Report) :
    ∃ c r', compile o p r = (.ok c, r') ∧
      r'.diagnostics = r.diagnostics ++ ((compileStage o p).2 ++ p.sprites.flatMap fun s =>
        (s.storage o).2 ++ s.methods.flatMap fun m =>
          (lowerMethod o (s.context p) m {}).2.diagnostics) ∧
      c.stage.IsStageOf o p (compileStage o p).2 ∧
      List.Forall₂ (fun s out => out.IsUnitOf o s (s.storage o).2) p.sprites c.sprites := by
  obtain ⟨r', hrun, hreports⟩ := compile_adds o p r
  refine ⟨_, r', hrun, hreports, isStageOf_compileStage o p, ?_⟩
  rw [List.forall₂_map_right_iff]
  exact List.forall₂_same.mpr fun s _ => s.isUnitOf_compiled o p

end SpriteCompiler
