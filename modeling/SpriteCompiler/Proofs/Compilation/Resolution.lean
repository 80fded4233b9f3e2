import SpriteCompiler.Proofs.Code.Reference
import SpriteCompiler.Proofs.Compilation.Independence
import SpriteCompiler.Proofs.Compilation.Storage

namespace SpriteCompiler

-- Under each name that is declared, the unit stores what the first declaration of it asks for.
def SpriteOutput.Holds (out : SpriteOutput) (gs : List Global) : Prop :=
  ∀ x g, gs.find? (·.name == x) = some g → out.stored x = g.storage?.toList

theorem holds_compileStage (o : Options) (p : Project) :
    (compileStage o p).1.Holds p.declarations := by
  intro x g hg
  rw [stored_compileStage, hg]
  rfl

theorem Sprite.holds_compiled (o : Options) (p : Project) (s : Sprite) :
    (s.compiled o p).Holds s.declarations := by
  intro x g hg
  change (s.storage o).1.stored x = _
  rw [s.stored_storage, hg]
  rfl

section Holds

variable {out : SpriteOutput} {gs : List Global} {x : String}

theorem SpriteOutput.Holds.globalVariable (h : out.Holds gs) {v : GlobalVariable}
    (hx : (gs.find? (·.name == x)).map Global.binding = some (.globalVariable v)) :
    out.stored x = [.variable ⟨x, v.value.getD v.type.default⟩] := by
  obtain ⟨g, hg, hb⟩ := Option.map_eq_some_iff.mp hx
  have hname : g.name = x := by simpa using List.find?_some hg
  rw [h x g hg, ← hname]
  cases g <;> cases hb
  rfl

theorem SpriteOutput.Holds.globalList (h : out.Holds gs) {l : GlobalList}
    (hx : (gs.find? (·.name == x)).map Global.binding = some (.globalList l)) :
    out.stored x = [.list ⟨x, l.items⟩] := by
  obtain ⟨g, hg, hb⟩ := Option.map_eq_some_iff.mp hx
  have hname : g.name = x := by simpa using List.find?_some hg
  rw [h x g hg, ← hname]
  cases g <;> cases hb
  rfl

end Holds

-- A sprite's own global is a declaration of it, since its methods are none.
theorem Sprite.find?_global {s : Sprite} {x : String} {b : Binding} (hx : s.find? x = some b)
    (hb : ∀ m, b ≠ .method m) :
    (s.declarations.find? (·.name == x)).map Global.binding = some b := by
  rw [Sprite.find?, Option.or_eq_some_iff] at hx
  obtain hx | ⟨_, hx⟩ := hx
  · exact hx
  · obtain ⟨m, _, rfl⟩ := Option.map_eq_some_iff.mp hx
    exact absurd rfl (hb m)

-- A name in a block of a procedure: it is stored by the sprite or the stage, or it was reported that
-- something else had taken it; a parameter is one of the procedure.
def Known (stage out : SpriteOutput) (q : Procedure) (ds : List Diagnostic) : Reference → Prop
  | .variable x =>
    (∃ v ∈ out.cells ++ stage.cells, v.name = x) ∨ ∃ loc, .duplicateDeclaration x loc ∈ ds
  | .list x =>
    (∃ l ∈ out.lists ++ stage.lists, l.name = x) ∨ ∃ loc, .duplicateDeclaration x loc ∈ ds
  | .parameter x => x ∈ q.params
  | .nothing => True

-- Wherever a name stands for a global in a method of the sprite, the unit that declares it stores
-- under this name just that: a variable with its first value, or a list with its items.
def Sprite.FindsStorage (p : Project) (s : Sprite) (stage out : SpriteOutput) : Prop :=
  ∀ (t : ScopeTree) (scope : Option Nat) (x : String),
    let ctx : Context := { s.context p with scope }
    let owner := if (s.find? x).isSome then out else stage
    (∀ v, ctx.resolve t x = .ok (some (.globalVariable v)) →
      owner.stored x = [.variable ⟨x, v.value.getD v.type.default⟩]) ∧
    (∀ l, ctx.resolve t x = .ok (some (.globalList l)) → owner.stored x = [.list ⟨x, l.items⟩])

section Known

variable {stage out : SpriteOutput} {q : Procedure} {ds : List Diagnostic} {x : String}

theorem known_variable {v : StoredVariable}
    (h : .variable v ∈ out.stored x ∨ .variable v ∈ stage.stored x) :
    Known stage out q ds (.variable x) := by
  simp only [SpriteOutput.mem_stored_variable] at h
  obtain ⟨hv, hname⟩ | ⟨hv, hname⟩ := h
  · exact .inl ⟨v, List.mem_append_left _ hv, hname⟩
  · exact .inl ⟨v, List.mem_append_right _ hv, hname⟩

theorem known_list {l : StoredList} (h : .list l ∈ out.stored x ∨ .list l ∈ stage.stored x) :
    Known stage out q ds (.list x) := by
  simp only [SpriteOutput.mem_stored_list] at h
  obtain ⟨hl, hname⟩ | ⟨hl, hname⟩ := h
  · exact .inl ⟨l, List.mem_append_left _ hl, hname⟩
  · exact .inl ⟨l, List.mem_append_right _ hl, hname⟩

-- What a global is called in blocks is known, if a unit holds it.
theorem SpriteOutput.Holds.known {gs : List Global} {b : Binding}
    (h : out.Holds gs ∨ stage.Holds gs)
    (hx : (gs.find? (·.name == x)).map Global.binding = some b) :
    b.RefersTo (Known stage out q ds) := by
  have hname : b.name = x := by
    obtain ⟨g, hg, rfl⟩ := Option.map_eq_some_iff.mp hx
    exact (Context.Global.name_binding g).trans (by simpa using List.find?_some hg)
  cases b with
  | globalVariable v =>
      obtain rfl : v.name = x := hname
      refine known_variable (q := q) (v := ⟨v.name, v.value.getD v.type.default⟩) (h.imp ?_ ?_) <;>
      · intro hholds
        rw [hholds.globalVariable hx]
        exact List.mem_singleton_self _
  | globalList l =>
      obtain rfl : l.name = x := hname
      refine known_list (q := q) (l := ⟨l.name, l.items⟩) (h.imp ?_ ?_) <;>
      · intro hholds
        rw [hholds.globalList hx]
        exact List.mem_singleton_self _
  | parameter d =>
      obtain ⟨g, _, hb⟩ := Option.map_eq_some_iff.mp hx
      cases g <;> cases hb
  | constant _ | localVariable _ | localArray _ | method _ => trivial

end Known

section Method

variable (o : Options) (p : Project)

-- The list of the stack is there, or it is reported that its name is taken.
theorem known_stack (hmethods : p.hasMethods = true) (out : SpriteOutput) (q : Procedure)
    {ds : List Diagnostic} (hds : (compileStage o p).2 ⊆ ds) :
    Known (compileStage o p).1 out q ds (.list o.stackList) := by
  cases hfind : p.find? o.stackList with
  | none =>
      have hfree : p.declarations.find? (·.name == o.stackList) = none := by
        simpa [Project.find?] using hfind
      refine known_list (l := ⟨o.stackList, []⟩) (.inr ?_)
      rw [stored_compileStage, hfree]
      simp [hmethods]
  | some taken =>
      refine .inr ⟨taken.location, hds ?_⟩
      simp [compileStage, hmethods, hfind]

-- The variable for the result of a method is there, or it is reported that its name is taken.
theorem Sprite.known_result (s : Sprite) {m : Method} (hm : m ∈ s.methods)
    (hreturns : m.returnType.isSome) (stage : SpriteOutput) (q : Procedure) {ds : List Diagnostic}
    (hds : (s.storage o).2 ⊆ ds) :
    Known stage (s.compiled o p) q ds (.variable (o.returnVariable m.name)) := by
  cases hfind : s.declarations.find? (·.name == o.returnVariable m.name) with
  | none =>
      obtain ⟨v, hv⟩ := Option.isSome_iff_exists.mp
        (by simpa [Method.result?] using hreturns : (m.result? o).isSome)
      have hfound : ((s.methods.filterMap (Method.result? o)).find?
          (·.name == o.returnVariable m.name)).isSome := by
        rw [List.find?_isSome]
        exact ⟨v, List.mem_filterMap.mpr ⟨m, hm, hv⟩, by simp [(Method.result?_eq_some hv).2]⟩
      obtain ⟨w, hw⟩ := Option.isSome_iff_exists.mp hfound
      refine known_variable (v := w) (.inl ?_)
      change _ ∈ (s.storage o).1.stored _
      rw [s.stored_storage, hfind, hw]
      exact List.mem_singleton_self _
  | some g =>
      have htaken : o.returnVariable m.name ∈
          (({} : UnitStorage).declareAll s.declarations).1.names := by
        rw [UnitStorage.declareAll_fst, UnitStorage.mem_names_requestAll]
        have hname : g.name = o.returnVariable m.name := by simpa using List.find?_some hfind
        exact .inr ⟨g.request, List.mem_map_of_mem (List.mem_of_find?_eq_some hfind), hname⟩
      have hduplicate := UnitStorage.duplicate_mem_addReturns o hm hreturns htaken
      exact .inr ⟨m.loc, hds (List.mem_append_right _ hduplicate)⟩

-- Names in a method of a sprite refer to what is known.
theorem Sprite.allows_known (s : Sprite) {m : Method} (hm : m ∈ s.methods) {ds : List Diagnostic}
    (hds : (s.storage o).2 ⊆ ds) :
    (s.context p).Allows o (Known (compileStage o p).1 (s.compiled o p)
      (m.procedure o (s.context p)) ds) (some m) := by
  refine ⟨fun x b hb => ?_, fun m' hm' hreturns => ?_⟩
  · rw [Context.outer?, Option.or_eq_some_iff, Option.or_eq_some_iff] at hb
    obtain hb | ⟨_, hb | ⟨_, hb⟩⟩ := hb
    · obtain ⟨d, hd, rfl⟩ := Option.map_eq_some_iff.mp hb
      exact List.mem_map_of_mem (List.mem_of_find?_eq_some hd)
    · by_cases hmethod : ∃ m, b = .method m
      · obtain ⟨m, rfl⟩ := hmethod
        trivial
      · have hglobal := Sprite.find?_global (s := s) hb fun m h => hmethod ⟨m, h⟩
        exact SpriteOutput.Holds.known (.inl (s.holds_compiled o p)) hglobal
    · exact SpriteOutput.Holds.known (.inr (holds_compileStage o p)) hb
  · obtain rfl : m = m' := by simpa using hm'
    exact s.known_result o p hm hreturns _ _ hds

theorem Sprite.procedures_refer (s : Sprite) (hs : s ∈ p.sprites) {ds : List Diagnostic}
    (hstage : (compileStage o p).2 ⊆ ds) (hsprite : (s.storage o).2 ⊆ ds) :
    ∀ q ∈ (s.compiled o p).procedures,
      Block.AllReferTo (Known (compileStage o p).1 (s.compiled o p) q ds) q.body := by
  intro q hq
  obtain ⟨m, hm, rfl⟩ := List.mem_map.mp hq
  have hmethods : p.hasMethods = true :=
    List.any_eq_true.mpr ⟨s, hs, by simpa using List.ne_nil_of_mem hm⟩
  exact Method.plan_refersTo o (s.allows_known o p hm hsprite)
    (known_stack o p hmethods _ _ hstage) fun _ _ _ => trivial

theorem Sprite.findsStorage (s : Sprite) :
    s.FindsStorage p (compileStage o p).1 (s.compiled o p) := by
  intro t scope x ctx owner
  -- what a global name stands for is found in the sprite, or else in the project
  have hglobal (b : Binding) (hlocal : ∀ l : Local, b ≠ l.binding)
      (hparam : ∀ d, b ≠ .parameter d) (hb : ctx.resolve t x = .ok (some b)) :
      s.find? x = some b ∨ s.find? x = none ∧ p.find? x = some b := by
    have hb := Context.resolve?_of_resolve hb
    simp only [Context.resolve?, Context.outer?, Option.or_eq_some_iff] at hb
    obtain hb | ⟨_, hb | ⟨_, hb⟩⟩ := hb
    · obtain ⟨l, _, rfl⟩ := Option.map_eq_some_iff.mp hb
      exact absurd rfl (hlocal l)
    · obtain ⟨d, _, rfl⟩ := Option.map_eq_some_iff.mp hb
      exact absurd rfl (hparam d)
    · exact hb
  have hsprite := s.holds_compiled o p
  have hstage := holds_compileStage o p
  refine ⟨fun v hv => ?_, fun l hl => ?_⟩
  · obtain hx | ⟨hnone, hx⟩ :=
      hglobal _ (fun l => by cases l <;> simp [Local.binding]) (by simp) hv
    · simp only [owner, hx, Option.isSome_some, if_true]
      exact hsprite.globalVariable (Sprite.find?_global hx (by simp))
    · simp only [owner, hnone, Option.isSome_none, Bool.false_eq_true, if_false]
      exact hstage.globalVariable hx
  · obtain hx | ⟨hnone, hx⟩ :=
      hglobal _ (fun l => by cases l <;> simp [Local.binding]) (by simp) hl
    · simp only [owner, hx, Option.isSome_some, if_true]
      exact hsprite.globalList (Sprite.find?_global hx (by simp))
    · simp only [owner, hnone, Option.isSome_none, Bool.false_eq_true, if_false]
      exact hstage.globalList hx

end Method

-- Compiled procedures never refer to something that is not there. In every block at any depth, a
-- variable or a list is stored by the sprite or the stage under the name the block gives, unless it
-- is reported that the name was taken, and a parameter is one of the procedure. And a name that
-- stands for a global finds that global's storage, whichever of several declarations it resolves to.
theorem compile_refers_to_storage (o : Options) (p : Project) (r : Report) :
    ∃ c r' ds, compile o p r = (.ok c, r') ∧ r'.diagnostics = r.diagnostics ++ ds ∧
      List.Forall₂ (fun s out =>
        (∀ q ∈ out.procedures, Block.AllReferTo (Known c.stage out q ds) q.body) ∧
        s.FindsStorage p c.stage out) p.sprites c.sprites := by
  obtain ⟨r', hrun, hreports⟩ := compile_adds o p r
  refine ⟨_, r', _, hrun, hreports, ?_⟩
  rw [List.forall₂_map_right_iff]
  refine List.forall₂_same.mpr fun s hs => ⟨?_, s.findsStorage o p⟩
  refine s.procedures_refer o p hs (List.subset_append_left _ _) fun d hd => ?_
  refine List.mem_append_right _ (List.mem_flatMap.mpr ⟨s, hs, ?_⟩)
  rw [s.reports_eq]
  exact List.mem_append_left _ hd

-- A project with a variable, and a sprite whose method reads it, a list of the sprite and its
-- parameter.
def Project.shared : Project :=
  let at0 : Location := ⟨0, ⟨0, 0⟩⟩
  let sum : Expr := .binary .add (.item "path" (.lookup "n" at0) at0) (.lookup "score" at0) at0
  { name := "shared"
    declarations := [.variable ⟨"score", .number, some (.number 3.0), at0⟩]
    sprites := [
      { name := "cat"
        declarations := [.list ⟨"path", .number, [.number 1.0], at0⟩]
        methods := [
          { name := "next"
            returnType := some .number
            params := [⟨"n", .number, at0⟩]
            body := [.ret (some sum) at0]
            inline := false
            atomic := false
            isUnsafe := false
            loc := at0 }]
        loc := at0 }] }

theorem compile_refers_to_storage_shared :
    ∃ c r' out, compile {} .shared {} = (.ok c, r') ∧ c.sprites = [out] ∧
      (∀ q ∈ out.procedures, Block.AllReferTo (Known c.stage out q r'.diagnostics) q.body) ∧
      c.stage.stored "score" = [.variable ⟨"score", .number 3.0⟩] ∧
      out.stored "path" = [.list ⟨"path", [.number 1.0]⟩] := by
  obtain ⟨c, r', ds, hrun, hds, hsprites⟩ := compile_refers_to_storage {} .shared {}
  obtain ⟨out, rest, ⟨hprocedures, hfinds⟩, hrest, hout⟩ := List.forall₂_cons_left_iff.mp hsprites
  rw [List.forall₂_nil_left_iff.mp hrest] at hout
  rw [← hds.trans (List.nil_append ds)] at hprocedures
  exact ⟨c, r', out, hrun, hout, hprocedures, (hfinds {} none "score").1 _ rfl,
    (hfinds {} none "path").2 _ rfl⟩

end SpriteCompiler
