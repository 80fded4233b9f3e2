import SpriteCompiler.Proofs.Diagnostic.Ranking
import SpriteCompiler.Proofs.Code.Growth
import SpriteCompiler.Proofs.Scope.Refinement

namespace SpriteCompiler

namespace Sprite

def bindings (s : Sprite) : List Binding :=
  s.declarations.map Global.binding ++ s.methods.map .method

end Sprite

namespace Context

-- What is visible besides locals.
def outerBindings (ctx : Context) (m : Option Method) : List Binding :=
  m.elim [] (·.params.map .parameter) ++ ctx.sprite.elim [] Sprite.bindings ++
    ctx.project.declarations.map Global.binding

def bindings (ctx : Context) (t : ScopeTree) : List Binding :=
  ctx.scope.elim [] (fun id => (t.latestFirst id).map Local.binding) ++ ctx.outerBindings t.method

end Context

variable {ctx : Context} {t : ScopeTree} {x : String}

-- Of each level the list has the names, and finds what the level finds.

theorem Local.map_name_binding (ls : List Local) :
    (ls.map Local.binding).map Binding.name = ls.map Local.name := by
  simp only [List.map_map, Function.comp_def, Context.name_binding]

theorem Local.find?_binding (ls : List Local) (x : String) :
    (ls.map Local.binding).find? (·.name == x) = (ls.find? (·.name == x)).map Local.binding := by
  simp only [List.find?_map, Function.comp_def, Context.name_binding]

theorem Global.map_name_binding (gs : List Global) :
    (gs.map Global.binding).map Binding.name = gs.map Global.name := by
  simp only [List.map_map, Function.comp_def, Context.Global.name_binding]

theorem Global.find?_binding (gs : List Global) (x : String) :
    (gs.map Global.binding).find? (·.name == x) = (gs.find? (·.name == x)).map Global.binding := by
  simp only [List.find?_map, Function.comp_def, Context.Global.name_binding]

theorem Sprite.map_name_bindings (s : Sprite) : s.bindings.map Binding.name = s.names := by
  rw [bindings, List.map_append, Global.map_name_binding, List.map_map]
  rfl

theorem Sprite.find?_bindings (s : Sprite) (x : String) :
    s.bindings.find? (·.name == x) = s.find? x := by
  rw [bindings, List.find?_append, Global.find?_binding, List.find?_map]
  rfl

namespace ScopeTree

-- In a list without two locals of one name it does not matter from which end one is looked for.
theorem find?_reverse {ls : List Local} (h : (ls.map Local.name).Nodup) (x : String) :
    ls.reverse.find? (·.name == x) = ls.find? (·.name == x) := by
  cases hfirst : ls.find? (·.name == x) with
  | none => simpa using hfirst
  | some l =>
      have hl := List.mem_of_find?_eq_some hfirst
      have hname : l.name = x := by simpa using List.find?_some hfirst
      cases hlast : ls.reverse.find? (·.name == x) with
      | none =>
          rw [List.find?_eq_none] at hlast
          exact absurd (by simpa using hname) (hlast l (List.mem_reverse.mpr hl))
      | some l' =>
          have hl' := List.mem_reverse.mp (List.mem_of_find?_eq_some hlast)
          have hname' : l'.name = x := by simpa using List.find?_some hlast
          rw [List.inj_on_of_nodup_map h hl' hl (hname'.trans hname.symm)]

theorem Valid.search?_eq_find? (hv : t.Valid) (id : Nat) (x : String) :
    t.search? id x = (t.latestFirst id).find? (·.name == x) := by
  rw [search?_eq_findSome?, latestFirst, List.find?_flatMap]
  congr 1
  funext i
  exact (find?_reverse (hv.names_nodup i) x).symm

-- Which of several locals is found is another matter, but one is found if there is one.
theorem search?_eq_none_iff (t : ScopeTree) (id : Nat) (x : String) :
    t.search? id x = none ↔ x ∉ (t.latestFirst id).map Local.name := by
  rw [search?_eq_findSome?, List.findSome?_eq_none_iff]
  simp only [List.find?_eq_none, latestFirst, List.mem_flatMap, List.mem_map, List.mem_reverse,
    beq_iff_eq]
  grind

end ScopeTree

namespace Context

theorem map_name_outerBindings (ctx : Context) (m : Option Method) :
    (ctx.outerBindings m).map Binding.name =
      ctx.outerNames m := by
  have hparams : (m.elim [] (·.params.map Binding.parameter)).map Binding.name =
      m.elim [] (·.params.map (·.name)) := by
    cases m with
    | none => rfl
    | some m => exact List.map_map
  have hsprite : (ctx.sprite.elim [] Sprite.bindings).map Binding.name =
      ctx.sprite.elim [] Sprite.names := by
    cases ctx.sprite with
    | none => rfl
    | some s => exact s.map_name_bindings
  rw [outerBindings, List.map_append, List.map_append, hparams, hsprite, Global.map_name_binding]
  rfl

theorem find?_outerBindings (ctx : Context) (m : Option Method) (x : String) :
    (ctx.outerBindings m).find? (·.name == x) = ctx.outer? m x := by
  have hparams : (m.elim [] (·.params.map Binding.parameter)).find? (·.name == x) =
      (m.bind fun m => m.param? x).map .parameter := by
    cases m with
    | none => rfl
    | some m => exact List.find?_map
  have hsprite : (ctx.sprite.elim [] Sprite.bindings).find? (·.name == x) =
      ctx.sprite.bind fun s => s.find? x := by
    cases ctx.sprite with
    | none => rfl
    | some s => exact s.find?_bindings x
  rw [outerBindings, List.find?_append, List.find?_append, hparams, hsprite, Global.find?_binding,
    Option.or_assoc]
  rfl

theorem names_eq_map (ctx : Context) (t : ScopeTree) :
    ctx.names t = (ctx.bindings t).map Binding.name := by
  rw [bindings, List.map_append, map_name_outerBindings, names]
  cases ctx.scope with
  | none => rfl
  | some id => rw [Option.elim_some, Option.elim_some, Local.map_name_binding]

theorem resolve?_eq_find? (hv : t.Valid) (ctx : Context) (x : String) :
    ctx.resolve? t x = (ctx.bindings t).find? (·.name == x) := by
  rw [bindings, List.find?_append, find?_outerBindings]
  cases hscope : ctx.scope with
  | none => exact resolve?_of_no_scope hscope t x
  | some id =>
      have hhere : ctx.here = id := by rw [here, hscope, Option.getD_some]
      rw [resolve?_eq (scope_eq_here hscope), hhere, hv.search?_eq_find?, Option.elim_some,
        Local.find?_binding]

theorem outer?_eq_none_iff (ctx : Context) (m : Option Method) (x : String) :
    ctx.outer? m x = none ↔ x ∉ (ctx.outerBindings m).map Binding.name := by
  simp [← find?_outerBindings]

-- A name stands for something exactly if it is visible, whatever the tree is.
theorem resolve?_eq_none_iff (ctx : Context) (t : ScopeTree) (x : String) :
    ctx.resolve? t x = none ↔ x ∉ ctx.names t := by
  have houter := ctx.outer?_eq_none_iff t.method x
  rw [names_eq_map, bindings, List.map_append, List.mem_append, not_or, ← houter]
  cases hscope : ctx.scope with
  | none => simp [resolve?_of_no_scope hscope]
  | some id =>
      have hhere : ctx.here = id := by rw [here, hscope, Option.getD_some]
      rw [resolve?_eq (scope_eq_here hscope), hhere, Option.or_eq_none_iff, Option.map_eq_none_iff,
        ScopeTree.search?_eq_none_iff, Option.elim_some, Local.map_name_binding]

end Context

-- What is suggested for a name is another of the candidates.
theorem mem_of_mem_suggest {x y : String} {names : List String} (h : y ∈ suggest x names) :
    y ∈ names ∧ y ≠ x := by
  rw [suggest_eq_take] at h
  obtain ⟨hcandidate, hne, -⟩ :=
    ((ranking_rankedNames x names).mem_iff y).mp (List.mem_of_mem_take h)
  exact ⟨hcandidate, hne⟩

-- So a suggestion stands for something where the name stands for nothing.
theorem Context.resolve_of_mem_suggest {names : List String} {y : String}
    (hnames : ctx.visibleNames t = .ok names) (h : y ∈ suggest x names) :
    y ≠ x ∧ ∃ b, ctx.resolve t y = .ok (some b) := by
  obtain ⟨hvisible, hne⟩ := mem_of_mem_suggest h
  have hin := within_of_visibleNames hnames
  rw [hin.visibleNames_eq] at hnames
  obtain rfl := Except.ok.inj hnames
  obtain ⟨b, hb⟩ := Option.ne_none_iff_exists'.mp fun hnone =>
    (ctx.resolve?_eq_none_iff t y).mp hnone hvisible
  exact ⟨hne, b, by rw [hin.resolve_eq, hb]⟩

end SpriteCompiler
