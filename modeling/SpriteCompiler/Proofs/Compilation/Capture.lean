import SpriteCompiler.Proofs.Compilation.Resolution

namespace SpriteCompiler

inductive Owner where
  | sprite
  | stage

section Lookup

variable {α : Type} (name : α → String) (own shared : List α) (x : String)

-- The first entry of this name, from the sprite if it has one and else from the stage.
def firstOwned : Option (Owner × α) :=
  ((own.find? (name · == x)).map (.sprite, ·)).or ((shared.find? (name · == x)).map (.stage, ·))

theorem firstOwned_eq_stage_iff {a : α} (h : shared.find? (name · == x) = some a) :
    firstOwned name own shared x = some (.stage, a) ↔ ∀ b ∈ own, name b ≠ x := by
  rw [firstOwned, h]
  cases hown : own.find? (name · == x) with
  | none => simpa using hown
  | some b =>
      have hname : name b = x := by simpa using List.find?_some hown
      simpa using ⟨b, List.mem_of_find?_eq_some hown, hname⟩

end Lookup

namespace SpriteOutput

variable {out : SpriteOutput} {x : String}

theorem find?_cells {v : StoredVariable} (h : out.stored x = [.variable v]) :
    out.cells.find? (·.name == x) = some v := by
  rw [stored] at h
  rw [← List.head?_filter]
  cases hcells : out.cells.filter (·.name == x) with
  | nil => simp [hcells, List.map_eq_cons_iff] at h
  | cons w rest => simp_all

theorem find?_lists {l : StoredList} (h : out.stored x = [.list l]) :
    out.lists.find? (·.name == x) = some l := by
  rw [stored] at h
  rw [← List.head?_filter]
  cases hcells : out.cells.filter (·.name == x) with
  | nil =>
      rw [hcells, List.map_nil, List.nil_append, List.map_eq_singleton_iff] at h
      obtain ⟨_, hlists, heq⟩ := h
      cases heq
      rw [hlists, List.head?_cons]
  | cons w rest => simp [hcells] at h

end SpriteOutput

namespace Compilation

def findVariable? (c : Compilation) (out : SpriteOutput) : String → Option (Owner × StoredVariable) :=
  firstOwned StoredVariable.name out.cells c.stage.cells

def findList? (c : Compilation) (out : SpriteOutput) : String → Option (Owner × StoredList) :=
  firstOwned StoredList.name out.lists c.stage.lists

variable {c : Compilation} {out : SpriteOutput} {x : String}

theorem findVariable?_eq_stage_iff {v : StoredVariable} (h : c.stage.stored x = [.variable v]) :
    c.findVariable? out x = some (.stage, v) ↔ ¬ ∃ w, .variable w ∈ out.stored x := by
  rw [findVariable?, firstOwned_eq_stage_iff _ _ _ _ (SpriteOutput.find?_cells h)]
  simp [SpriteOutput.mem_stored_variable]

theorem findList?_eq_stage_iff {l : StoredList} (h : c.stage.stored x = [.list l]) :
    c.findList? out x = some (.stage, l) ↔ ¬ ∃ w, .list w ∈ out.stored x := by
  rw [findList?, firstOwned_eq_stage_iff _ _ _ _ (SpriteOutput.find?_lists h)]
  simp [SpriteOutput.mem_stored_list]

end Compilation

namespace Sprite

variable (o : Options) (p : Project) (s : Sprite) (x : String)

-- The result of a method of the sprite is stored under this name.
def ReturnsIn : Prop :=
  ∃ m ∈ s.methods, m.returnType.isSome ∧ o.returnVariable m.name = x

-- A list that the sprite stores is one it declares, since results are variables.
theorem list_mem_stored_compiled :
    (∃ l, .list l ∈ (s.compiled o p).stored x) ↔ ∃ l, s.find? x = some (.globalList l) := by
  change (∃ l, _ ∈ (s.storage o).1.stored x) ↔ _
  rw [s.stored_storage, Sprite.find?]
  cases s.declarations.find? (·.name == x) with
  | none =>
      cases (s.methods.filterMap (Method.result? o)).find? (·.name == x) <;> simp
  | some g => cases g <;> simp [Global.storage?, Global.binding]

-- A variable under a name that stands for nothing of the sprite is for a result.
theorem variable_mem_stored_compiled (hx : s.find? x = none) :
    (∃ v, .variable v ∈ (s.compiled o p).stored x) ↔ s.ReturnsIn o x := by
  have hdeclared : s.declarations.find? (·.name == x) = none := by
    simpa using (Option.or_eq_none_iff.mp hx).1
  change (∃ v, _ ∈ (s.storage o).1.stored x) ↔ _
  rw [s.stored_storage, hdeclared]
  calc
    _ ↔ ((s.methods.filterMap (Method.result? o)).find? (·.name == x)).isSome := by
      cases (s.methods.filterMap (Method.result? o)).find? (·.name == x) <;> simp
    _ ↔ s.ReturnsIn o x := by
      rw [List.find?_isSome]
      simp [ReturnsIn, Method.result?, Option.isSome_iff_exists, and_assoc]

end Sprite

-- Without problems, the stage has the stack.
theorem stored_stack_of_clean (o : Options) (p : Project) (hmethods : p.hasMethods = true)
    (hclean : (compileStage o p).2 = []) :
    (compileStage o p).1.stored o.stackList = [.list ⟨o.stackList, []⟩] := by
  have hfree : p.find? o.stackList = none := by
    cases hfind : p.find? o.stackList with
    | none => rfl
    | some taken => simp [compileStage, hmethods, hfind] at hclean
  have hdeclared : p.declarations.find? (·.name == o.stackList) = none := by
    simpa [Project.find?] using hfree
  rw [stored_compileStage, hdeclared]
  simp [hmethods]

theorem compile_diagnostics (o : Options) (p : Project) (r : Report) :
    (compile o p r).2.diagnostics =
      r.diagnostics ++ ((compileStage o p).2 ++ p.sprites.flatMap (Sprite.reports o p)) := by
  obtain ⟨r', hrun, hreports⟩ := compile_adds o p r
  rw [hrun, hreports]

-- When names that are meant for the stage find it, in a project that compiles without problems. A
-- sprite with methods finds the empty stack exactly if it has no list of that name, and a variable of
-- the project exactly if none of its results is stored under the name. Neither clash is reported. A
-- list of the project is always found.
theorem compile_captures_iff (o : Options) (p : Project) (r : Report) :
    ∃ c r' ds, compile o p r = (.ok c, r') ∧ r'.diagnostics = r.diagnostics ++ ds ∧
      (ds = [] → List.Forall₂ (fun s out => s.methods ≠ [] →
        (c.findList? out o.stackList = some (.stage, ⟨o.stackList, []⟩) ↔
          ¬ ∃ l, s.find? o.stackList = some (.globalList l)) ∧
        ∀ (t : ScopeTree) (scope : Option Nat) (x : String), s.find? x = none →
          let ctx : Context := { s.context p with scope }
          (∀ v, ctx.resolve t x = .ok (some (.globalVariable v)) →
            (c.findVariable? out x = some (.stage, ⟨x, v.value.getD v.type.default⟩) ↔
              ¬ s.ReturnsIn o x)) ∧
          ∀ l, ctx.resolve t x = .ok (some (.globalList l)) →
            c.findList? out x = some (.stage, ⟨x, l.items⟩)) p.sprites c.sprites) := by
  obtain ⟨r', hrun, hreports⟩ := compile_adds o p r
  refine ⟨_, r', _, hrun, hreports, fun hclean => ?_⟩
  rw [List.forall₂_map_right_iff]
  refine List.forall₂_same.mpr fun s hs hmethods => ⟨?_, fun t scope x hx => ?_⟩
  · have hneeded : p.hasMethods = true :=
      List.any_eq_true.mpr ⟨s, hs, by simpa using hmethods⟩
    have hstack := stored_stack_of_clean o p hneeded (List.append_eq_nil_iff.mp hclean).1
    rw [Compilation.findList?_eq_stage_iff hstack, s.list_mem_stored_compiled]
  · obtain ⟨hvariable, hlist⟩ := s.findsStorage o p t scope x
    simp only [hx, Option.isSome_none, Bool.false_eq_true, if_false] at hvariable hlist
    refine ⟨fun v hv => ?_, fun l hl => ?_⟩
    · rw [Compilation.findVariable?_eq_stage_iff (hvariable v hv),
        s.variable_mem_stored_compiled o p x hx]
    · rw [Compilation.findList?_eq_stage_iff (hlist l hl), s.list_mem_stored_compiled, hx]
      simp

theorem compile_captures_iff_shared :
    ∃ c r' out, compile {} .shared {} = (.ok c, r') ∧ r'.diagnostics = [] ∧ c.sprites = [out] ∧
      c.findList? out "stack" = some (.stage, ⟨"stack", []⟩) ∧
      c.findVariable? out "score" = some (.stage, ⟨"score", .number 3.0⟩) := by
  have hclean : (compile {} .shared {}).2.diagnostics = [] := by
    rw [compile_diagnostics]
    rfl
  obtain ⟨c, r', ds, hrun, hds, hfinds⟩ := compile_captures_iff {} .shared {}
  rw [hrun] at hclean
  obtain rfl : ds = [] := by simpa [hds] using hclean
  obtain ⟨out, rest, hfinds, hrest, hout⟩ := List.forall₂_cons_left_iff.mp (hfinds rfl)
  rw [List.forall₂_nil_left_iff.mp hrest] at hout
  obtain ⟨hstack, hnames⟩ := hfinds (by simp)
  refine ⟨c, r', out, hrun, hclean, hout, hstack.mpr ?_, ((hnames {} none "score" rfl).1 _ rfl).mpr ?_⟩
  · rintro ⟨l, ⟨⟩⟩
  · rintro ⟨m, hm, _, hname⟩
    obtain rfl := List.mem_singleton.mp hm
    exact absurd hname (by decide)

-- A sprite with a list that has the name of the stack, and with a result in the variable that has
-- the name of one of the project. Nothing is reported.
def Project.captured : Project :=
  let at0 : Location := ⟨0, ⟨0, 0⟩⟩
  { name := "captured"
    declarations := [.variable ⟨"return area", .number, some (.number 3.0), at0⟩]
    sprites := [
      { name := "cat"
        declarations := [.list ⟨"stack", .number, [.number 7.0], at0⟩]
        methods := [
          { name := "area"
            returnType := some .number
            params := []
            body := [.ret (some (.lookup "return area" at0)) at0]
            inline := false
            atomic := false
            isUnsafe := false
            loc := at0 }]
        loc := at0 }] }

theorem compile_captured_clean :
    ∃ c r' out, compile {} .captured {} = (.ok c, r') ∧ r'.diagnostics = [] ∧ c.sprites = [out] ∧
      c.findList? out "stack" = some (.sprite, ⟨"stack", [.number 7.0]⟩) ∧
      c.findVariable? out "return area" = some (.sprite, ⟨"return area", .number 0.0⟩) ∧
      ∀ s ∈ Project.captured.sprites, ∀ m ∈ s.methods,
        (s.context .captured).resolve { method := some m } "return area" =
          .ok (some (.globalVariable ⟨"return area", .number, some (.number 3.0), ⟨0, ⟨0, 0⟩⟩⟩)) := by
  obtain ⟨r', hrun, hreports⟩ := compile_adds {} .captured {}
  have hclean : r'.diagnostics = [] := by
    rw [hreports]
    rfl
  refine ⟨_, r', _, hrun, hclean, rfl, rfl, rfl, ?_⟩
  simp only [Project.captured, List.forall_mem_singleton]
  rfl

end SpriteCompiler
