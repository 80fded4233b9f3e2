import SpriteCompiler.Proofs.Scope.Tree

namespace SpriteCompiler

namespace Local

-- The innermost local of a name.
def searchIn? (x : String) (F : List (List Local)) : Option Local :=
  F.findSome? fun f => f.find? (·.name == x)

-- The number of slots after those of the first local of a name.
def slotsAfter? (x : String) : List Local → Option Nat
  | [] => none
  | l :: rest => if l.name == x then some (slotCount rest) else slotsAfter? x rest

-- The number of slots after those of a name.
def depthIn? (x : String) : List (List Local) → Option Nat
  | [] => none
  | f :: outer =>
    match slotsAfter? x f with
    | some later => some later
    | none => (depthIn? x outer).map (slotCount f + ·)

-- The number of slots of all locals in scope.
def slotTotal : List (List Local) → Nat
  | [] => 0
  | f :: outer => slotCount f + slotTotal outer

theorem slotCount_append (f g : List Local) : slotCount (f ++ g) = slotCount f + slotCount g := by
  induction f with
  | nil => simp [slotCount]
  | cons l f ih => simp only [List.cons_append, slotCount, ih, Nat.add_assoc]

theorem slotsAfter?_eq_none {x : String} {f : List Local} (h : f.find? (·.name == x) = none) :
    slotsAfter? x f = none := by
  induction f with
  | nil => rfl
  | cons l f ih =>
      by_cases hl : l.name == x
      · rw [List.find?_cons_of_pos (by simpa using hl)] at h
        cases h
      · rw [List.find?_cons_of_neg (by simpa using hl)] at h
        simp only [slotsAfter?, hl, Bool.false_eq_true, if_false, ih h]

theorem find?_eq_none_of_ne {x : String} {f : List Local} (h : ∀ l ∈ f, l.name ≠ x) :
    f.find? (·.name == x) = none := by
  simpa using h

-- The slots after those of a name, together with its own, are some of all slots.

theorem slotsAfter?_le {x : String} {f : List Local} {l : Local}
    (h : f.find? (·.name == x) = some l) :
    ∃ d, slotsAfter? x f = some d ∧ d + l.slots ≤ slotCount f := by
  induction f with
  | nil => cases h
  | cons l₁ f ih =>
      by_cases hl : l₁.name == x
      · rw [List.find?_cons_of_pos (by simpa using hl)] at h
        obtain rfl := Option.some.inj h
        exact ⟨slotCount f, by simp only [slotsAfter?, hl, if_true], by rw [slotCount]; omega⟩
      · rw [List.find?_cons_of_neg (by simpa using hl)] at h
        obtain ⟨d, hd, hle⟩ := ih h
        refine ⟨d, ?_, by rw [slotCount]; omega⟩
        simp only [slotsAfter?, hl, Bool.false_eq_true, if_false, hd]

theorem depthIn?_le {x : String} {F : List (List Local)} {l : Local}
    (h : searchIn? x F = some l) :
    ∃ d, depthIn? x F = some d ∧ d + l.slots ≤ slotTotal F := by
  induction F with
  | nil => cases h
  | cons f outer ih =>
      rw [depthIn?, slotTotal]
      cases hfind : f.find? (·.name == x) with
      | some found =>
          obtain rfl : found = l := by simpa [searchIn?, hfind] using h
          obtain ⟨d, hd, hle⟩ := slotsAfter?_le hfind
          exact ⟨d, by rw [hd], by omega⟩
      | none =>
          have houter : searchIn? x outer = some l := by simpa [searchIn?, hfind] using h
          obtain ⟨d, hd, hle⟩ := ih houter
          refine ⟨slotCount f + d, ?_, by omega⟩
          rw [slotsAfter?_eq_none hfind, hd]
          rfl

theorem name_of_searchIn? {x : String} {F : List (List Local)} {l : Local}
    (h : searchIn? x F = some l) : l.name = x := by
  obtain ⟨f, _, hf⟩ := List.exists_of_findSome?_eq_some h
  simpa using List.find?_some hf

end Local

-- Found through the index of names, the place of a name says the same as a walk over the locals.
theorem Scope.slotsAfter?_eq (s : Scope) (x : String) :
    s.slotsAfter? x = Local.slotsAfter? x s.locals := by
  rw [slotsAfter?, s.lookup_names]
  induction s.locals with
  | nil => rfl
  | cons l rest ih =>
      rw [List.findIdx?_cons, Local.slotsAfter?]
      by_cases hl : l.name == x
      · simp [hl]
      · simp only [hl, Bool.false_eq_true, if_false, Option.map_map]
        exact ih

-- Locals with what their slots hold.
abbrev Frames (α : Type) := List (List (Local × List α))

namespace Frames

variable {α : Type} {F : Frames α} {f : List (Local × List α)} {x : String} {l : Local}
  {vs : List α}

def find? (F : Frames α) (x : String) : Option (Local × List α) :=
  F.findSome? fun f => f.find? (·.1.name == x)

-- The slots of all locals, in the order in which they were pushed.
def stack : Frames α → List α
  | [] => []
  | f :: outer => stack outer ++ f.flatMap Prod.snd

def locals (F : Frames α) : List (List Local) :=
  F.map (·.map Prod.fst)

-- Every local has all its slots.
def Filled (F : Frames α) : Prop :=
  ∀ f ∈ F, ∀ p ∈ f, p.2.length = p.1.slots

-- Something else in the slots of the innermost local of a name.

def updateFrame (x : String) (vs : List α) : List (Local × List α) → List (Local × List α)
  | [] => []
  | p :: f => if p.1.name == x then (p.1, vs) :: f else p :: updateFrame x vs f

def update (x : String) (vs : List α) : Frames α → Frames α
  | [] => []
  | f :: outer =>
    if (f.find? (·.1.name == x)).isSome then updateFrame x vs f :: outer
    else f :: update x vs outer

theorem length_flatMap (hf : ∀ p ∈ f, p.2.length = p.1.slots) :
    (f.flatMap Prod.snd).length = Local.slotCount (f.map Prod.fst) := by
  induction f with
  | nil => rfl
  | cons p f ih =>
      have hp := hf p (by simp)
      have hrest := ih fun q hq => hf q (by simp [hq])
      simp only [List.flatMap_cons, List.length_append, List.map_cons, Local.slotCount, hp, hrest]

theorem length_stack (hF : F.Filled) : F.stack.length = Local.slotTotal F.locals := by
  induction F with
  | nil => rfl
  | cons f outer ih =>
      have hf := length_flatMap fun p hp => hF f (by simp) p hp
      have hrest := ih fun g hg => hF g (by simp [hg])
      simp only [stack, List.length_append, locals, List.map_cons, Local.slotTotal, hf] at hrest ⊢
      rw [hrest, Nat.add_comm]

-- Within one frame, the slots of a name are followed by as many others as its depth says, and
-- updating the name changes them and no others.
theorem frame_split (hf : ∀ p ∈ f, p.2.length = p.1.slots)
    (h : f.find? (·.1.name == x) = some (l, vs)) :
    ∃ before after, f.flatMap Prod.snd = before ++ vs ++ after ∧
      Local.slotsAfter? x (f.map Prod.fst) = some after.length ∧
      ∀ us, (updateFrame x us f).flatMap Prod.snd = before ++ us ++ after := by
  induction f with
  | nil => simp at h
  | cons p f ih =>
      have hrest : ∀ q ∈ f, q.2.length = q.1.slots := fun q hq => hf q (by simp [hq])
      by_cases hp : p.1.name == x
      · rw [List.find?_cons_of_pos (by simpa using hp)] at h
        obtain rfl := Option.some.inj h
        refine ⟨[], f.flatMap Prod.snd, by simp, ?_, fun us => by simp [updateFrame, hp]⟩
        simp only [List.map_cons, Local.slotsAfter?, hp, if_true, length_flatMap hrest]
      · rw [List.find?_cons_of_neg (by simpa using hp)] at h
        obtain ⟨before, after, hsplit, hafter, hupdate⟩ := ih hrest h
        refine ⟨p.2 ++ before, after, by simp [hsplit], ?_, fun us => by
          simp [updateFrame, hp, hupdate]⟩
        simp only [List.map_cons, Local.slotsAfter?, hp, Bool.false_eq_true, if_false, hafter]

theorem slotsAfter?_eq_none (h : f.find? (·.1.name == x) = none) :
    Local.slotsAfter? x (f.map Prod.fst) = none := by
  refine Local.slotsAfter?_eq_none ?_
  rw [List.find?_map, Option.map_eq_none_iff]
  exact h

-- The slots of a name stand on the stack, and as many others after them as its depth says.
theorem stack_split (hF : F.Filled) (h : F.find? x = some (l, vs)) :
    ∃ before after, F.stack = before ++ vs ++ after ∧
      Local.depthIn? x F.locals = some after.length ∧
      ∀ us, (F.update x us).stack = before ++ us ++ after := by
  induction F with
  | nil => simp [find?] at h
  | cons f outer ih =>
      have hf : ∀ p ∈ f, p.2.length = p.1.slots := fun p hp => hF f (by simp) p hp
      cases hfind : f.find? (·.1.name == x) with
      | some found =>
          obtain rfl : found = (l, vs) := by simpa [find?, hfind] using h
          obtain ⟨before, after, hsplit, hafter, hupdate⟩ := frame_split hf hfind
          refine ⟨stack outer ++ before, after, by simp [stack, hsplit], ?_, fun us => by
            simp [update, hfind, stack, hupdate]⟩
          simp only [locals, List.map_cons, Local.depthIn?, hafter]
      | none =>
          have houter : find? outer x = some (l, vs) := by simpa [find?, hfind] using h
          obtain ⟨before, after, hsplit, hafter, hupdate⟩ :=
            ih (fun g hg => hF g (by simp [hg])) houter
          refine ⟨before, after ++ f.flatMap Prod.snd, by simp [stack, hsplit], ?_, fun us => by
            simp [update, hfind, stack, hupdate]⟩
          simp only [locals] at hafter
          simp only [locals, List.map_cons, Local.depthIn?, slotsAfter?_eq_none hfind, hafter,
            Option.map_some, List.length_append, length_flatMap hf, Nat.add_comm]

-- The same with other items before and after the slots of all locals.
theorem list_split (base begun : List α) (hF : F.Filled) (h : F.find? x = some (l, vs)) :
    ∃ before after, base ++ F.stack ++ begun = before ++ vs ++ after ∧
      (Local.depthIn? x F.locals).map (· + begun.length) = some after.length ∧
      after.length + vs.length ≤ Local.slotTotal F.locals + begun.length ∧
      ∀ us, base ++ (F.update x us).stack ++ begun = before ++ us ++ after := by
  obtain ⟨before, after, hsplit, hdepth, hupdate⟩ := stack_split hF h
  have hlen := length_stack hF
  rw [hsplit] at hlen
  refine ⟨base ++ before, after ++ begun, ?_, ?_, ?_, fun us => ?_⟩
  · rw [hsplit]
    simp only [List.append_assoc]
  · rw [hdepth, Option.map_some, List.length_append]
  · simp only [List.length_append] at hlen ⊢
    omega
  · rw [hupdate]
    simp only [List.append_assoc]

theorem find?_fst (F : Frames α) (x : String) :
    (F.find? x).map Prod.fst = Local.searchIn? x F.locals := by
  induction F with
  | nil => rfl
  | cons f outer ih =>
      have hf : (f.map Prod.fst).find? (·.name == x) =
          (f.find? (·.1.name == x)).map Prod.fst := List.find?_map ..
      simp only [find?, locals, Local.searchIn?, List.map_cons, List.findSome?_cons] at ih ⊢
      rw [hf]
      cases f.find? (·.1.name == x) with
      | some found => rfl
      | none => exact ih

theorem Filled.length_eq (hF : F.Filled) (h : F.find? x = some (l, vs)) :
    vs.length = l.slots := by
  obtain ⟨f, hf, hfind⟩ := List.exists_of_findSome?_eq_some h
  exact hF f hf _ (List.mem_of_find?_eq_some hfind)

-- Updating a name keeps the locals as they are, and their slots filled.

theorem updateFrame_fst (x : String) (us : List α) (f : List (Local × List α)) :
    (updateFrame x us f).map Prod.fst = f.map Prod.fst := by
  induction f with
  | nil => rfl
  | cons p f ih =>
      rw [updateFrame]
      split
      · rfl
      · rw [List.map_cons, ih, List.map_cons]

theorem locals_update (x : String) (us : List α) (F : Frames α) :
    (F.update x us).locals = F.locals := by
  induction F with
  | nil => rfl
  | cons f outer ih =>
      simp only [locals] at ih
      rw [update]
      split
      · simp only [locals, List.map_cons, updateFrame_fst]
      · simp only [locals, List.map_cons, ih]

theorem updateFrame_filled (hf : ∀ p ∈ f, p.2.length = p.1.slots)
    (h : f.find? (·.1.name == x) = some (l, vs)) {us : List α} (hus : us.length = vs.length) :
    ∀ p ∈ updateFrame x us f, p.2.length = p.1.slots := by
  induction f with
  | nil => simp at h
  | cons p f ih =>
      have hrest : ∀ q ∈ f, q.2.length = q.1.slots := fun q hq => hf q (by simp [hq])
      rw [updateFrame]
      by_cases hp : p.1.name == x
      · rw [List.find?_cons_of_pos (by simpa using hp)] at h
        obtain rfl := Option.some.inj h
        have hlen := hf _ List.mem_cons_self
        simpa [hp, hus, hlen] using hrest
      · rw [List.find?_cons_of_neg (by simpa using hp)] at h
        have hlen := hf p List.mem_cons_self
        simpa [hp, hlen] using ih hrest h

theorem Filled.update (hF : F.Filled) (h : F.find? x = some (l, vs)) {us : List α}
    (hus : us.length = vs.length) : (F.update x us).Filled := by
  induction F with
  | nil => simp [find?] at h
  | cons f outer ih =>
      have hf : ∀ p ∈ f, p.2.length = p.1.slots := fun p hp => hF f (by simp) p hp
      have houter : Filled outer := fun g hg => hF g (by simp [hg])
      cases hfind : f.find? (·.1.name == x) with
      | some found =>
          obtain rfl : found = (l, vs) := by simpa [find?, hfind] using h
          have hframe := updateFrame_filled hf hfind hus
          intro g hg
          simp only [Frames.update, hfind, Option.isSome_some, if_true, List.mem_cons] at hg
          obtain rfl | hg := hg
          · exact hframe
          · exact houter g hg
      | none =>
          have hrest := ih houter (by simpa [find?, hfind] using h)
          intro g hg
          simp only [Frames.update, hfind, Option.isSome_none, Bool.false_eq_true, if_false,
            List.mem_cons] at hg
          obtain rfl | hg := hg
          · exact hf
          · exact hrest g hg

end Frames

namespace ScopeTree

variable {t t' : ScopeTree} {id i j : Nat} {l : Local} {x : String}

-- The scopes outside a scope, the nearest first.
def outer (t : ScopeTree) (id : Nat) : List Nat :=
  (t.parent? id).elim [] t.lineage

def frames (t : ScopeTree) (id : Nat) : List (List Local) :=
  (t.lineage id).map t.locals

theorem map_locals_path (t : ScopeTree) (id : Nat) :
    (t.path id).map (·.2.locals) = t.frames id :=
  map_path (fun ls => ls) t id

-- What the scopes find through their indexes, they find among their locals.

theorem search?_eq (t : ScopeTree) (id : Nat) (x : String) :
    t.search? id x = Local.searchIn? x (t.frames id) := by
  simp only [search?, Scope.find?_eq]
  rw [Local.searchIn?, ← map_locals_path, List.findSome?_map]
  rfl

theorem search?_eq_findSome? (t : ScopeTree) (id : Nat) (x : String) :
    t.search? id x = (t.lineage id).findSome? fun i => (t.locals i).find? (·.name == x) := by
  rw [search?_eq, Local.searchIn?, frames, List.findSome?_map]
  rfl

theorem depthAlong?_eq (x : String) (path : List Scope) :
    depthAlong? x path = Local.depthIn? x (path.map (·.locals)) := by
  induction path with
  | nil => rfl
  | cons s path ih =>
      simp only [depthAlong?, List.map_cons, Local.depthIn?, s.slotsAfter?_eq, ih]
      rfl

theorem depth?_eq (t : ScopeTree) (id : Nat) (x : String) :
    t.depth? id x = Local.depthIn? x (t.frames id) := by
  rw [depth?, depthAlong?_eq, List.map_map, ← map_locals_path]
  rfl

theorem frames_eq (h : id < t.size) :
    t.frames id = t.locals id :: (t.outer id).map t.locals := by
  rw [frames, lineage_eq h]
  rfl

theorem Grows.outer_eq (h : Grows t t' id) (hj : j < t.size) :
    t'.outer j = t.outer j := by
  rw [outer, outer, h.parent_eq hj]
  cases hp : t.parent? j with
  | none => rfl
  | some p => exact h.lineage_eq (by have := lt_of_parent? hp; omega)

-- One slot of a local, which belongs to a scope.
structure Slot where
  scope : Nat
  owner : Local
  number : Nat
  deriving DecidableEq

-- The slots of a local, in the order in which they are pushed.
def cells (i : Nat) (l : Local) : List Slot :=
  (List.range l.slots).map fun k => ⟨i, l, k⟩

-- The locals of a scope, each with its slots.
def scopeCells (t : ScopeTree) (i : Nat) : List (Local × List Slot) :=
  (t.locals i).map fun l => (l, cells i l)

-- All locals in scope, each with its slots.
def tagged (t : ScopeTree) (id : Nat) : Frames Slot :=
  (t.lineage id).map t.scopeCells

-- What the end of the stack looks like while code of a scope runs.
def layout (t : ScopeTree) (id : Nat) : List Slot :=
  (t.tagged id).stack

-- The scope that declares the innermost local of a name.
def owner? (t : ScopeTree) (id : Nat) (x : String) : Option Nat :=
  (t.lineage id).find? fun i => ((t.locals i).find? (·.name == x)).isSome

theorem length_cells (i : Nat) (l : Local) : (cells i l).length = l.slots := by
  simp [cells]

theorem filled_tagged (t : ScopeTree) (id : Nat) : (t.tagged id).Filled := by
  intro f hf p hp
  obtain ⟨i, _, rfl⟩ := List.mem_map.mp hf
  obtain ⟨l, _, rfl⟩ := List.mem_map.mp hp
  exact length_cells i l

theorem locals_tagged (t : ScopeTree) (id : Nat) : (t.tagged id).locals = t.frames id := by
  simp [Frames.locals, tagged, frames, scopeCells, Function.comp_def]

theorem length_layout (t : ScopeTree) (id : Nat) :
    (t.layout id).length = Local.slotTotal (t.frames id) := by
  rw [layout, Frames.length_stack (filled_tagged t id), locals_tagged]

-- A local that is found has an owner, and its slots carry the owner's number.
theorem find?_tagged (h : t.search? id x = some l) :
    ∃ i, t.owner? id x = some i ∧ (t.tagged id).find? x = some (l, cells i l) := by
  have hfind (ids : List Nat)
      (h : ids.findSome? (fun i => (t.locals i).find? (·.name == x)) = some l) :
      ∃ i, ids.find? (fun i => ((t.locals i).find? (·.name == x)).isSome) = some i ∧
        (ids.map t.scopeCells).findSome? (fun f => f.find? (·.1.name == x)) =
          some (l, cells i l) := by
    induction ids with
    | nil => simp at h
    | cons i ids ih =>
        have hcells : (t.scopeCells i).find? (·.1.name == x) =
            ((t.locals i).find? (·.name == x)).map fun l => (l, cells i l) := List.find?_map ..
        cases hloc : (t.locals i).find? (·.name == x) with
        | some found =>
            obtain rfl : found = l := by simpa [hloc] using h
            exact ⟨i, by simp [hloc], by simp [hcells, hloc]⟩
        | none =>
            obtain ⟨k, hk, hcell⟩ := ih (by simpa [hloc] using h)
            exact ⟨k, by simpa [hloc] using hk, by simpa [hcells, hloc] using hcell⟩
  exact hfind (t.lineage id) ((search?_eq_findSome? t id x).symm.trans h)

-- The slots of a local that is found are on the stack, and its depth counts those after them.
theorem layout_split (h : t.search? id x = some l) :
    ∃ i before after, t.owner? id x = some i ∧ t.layout id = before ++ cells i l ++ after ∧
      t.depth? id x = some after.length := by
  obtain ⟨i, howner, hfind⟩ := find?_tagged h
  obtain ⟨before, after, hsplit, hdepth, _⟩ := Frames.stack_split (filled_tagged t id) hfind
  rw [locals_tagged, ← depth?_eq] at hdepth
  exact ⟨i, before, after, howner, hsplit, hdepth⟩

theorem name_of_search? (h : t.search? id x = some l) : l.name = x :=
  Local.name_of_searchIn? ((search?_eq t id x).symm.trans h)

theorem mem_stack_tagged {ids : List Nat} {s : Slot} (h : s ∈ Frames.stack (ids.map t.scopeCells)) :
    s.scope ∈ ids ∧ s.owner ∈ t.locals s.scope := by
  induction ids with
  | nil => simp [Frames.stack] at h
  | cons i ids ih =>
      simp only [List.map_cons, Frames.stack, List.mem_append] at h
      obtain h | h := h
      · exact ⟨List.mem_cons_of_mem i (ih h).1, (ih h).2⟩
      · simp only [scopeCells, List.mem_flatMap, List.mem_map] at h
        obtain ⟨_, ⟨l, hl, rfl⟩, hs⟩ := h
        obtain ⟨k, _, rfl⟩ := List.mem_map.mp hs
        exact ⟨by simp, hl⟩

theorem nodup_cells (i : Nat) (l : Local) : (cells i l).Nodup := by
  refine List.Nodup.map (fun a b h => ?_) List.nodup_range
  exact congrArg Slot.number h

-- No slot stands on the stack twice.
theorem nodup_layout (hv : t.Valid) (h : id < t.size) : (t.layout id).Nodup := by
  have hstack (ids : List Nat) (hids : ids.Nodup) : (Frames.stack (ids.map t.scopeCells)).Nodup := by
    induction ids with
    | nil => exact List.nodup_nil
    | cons i ids ih =>
        obtain ⟨hnot, hids⟩ := List.nodup_cons.mp hids
        simp only [List.map_cons, Frames.stack, List.nodup_append]
        refine ⟨ih hids, ?_, ?_⟩
        · simp only [scopeCells, List.flatMap_map, List.nodup_flatMap]
          refine ⟨fun l _ => nodup_cells i l, ?_⟩
          refine (List.Nodup.of_map _ (hv.names_nodup i)).imp fun hne => ?_
          intro s hs hs'
          obtain ⟨_, _, rfl⟩ := List.mem_map.mp hs
          obtain ⟨_, _, heq⟩ := List.mem_map.mp hs'
          exact hne (congrArg Slot.owner heq).symm
        · intro s hs s' hs' heq
          have hscope : s'.scope = i := by
            simp only [scopeCells, List.mem_flatMap, List.mem_map] at hs'
            obtain ⟨_, ⟨l, _, rfl⟩, hs'⟩ := hs'
            obtain ⟨_, _, rfl⟩ := List.mem_map.mp hs'
            rfl
          rw [← heq] at hscope
          exact hnot (hscope ▸ (mem_stack_tagged hs).1)
  exact hstack _ (nodup_lineage h)

-- How the stack looks follows the way outward: first the scopes outside, then the scope itself.
theorem layout_eq (h : id < t.size) :
    t.layout id = Frames.stack ((t.outer id).map t.scopeCells) ++
      (t.scopeCells id).flatMap Prod.snd := by
  rw [layout, tagged, lineage_eq h]
  rfl

theorem scopeCells_congr (h : t'.locals i = t.locals i) : t'.scopeCells i = t.scopeCells i := by
  rw [scopeCells, scopeCells, h]

-- Compiling inside a scope leaves the part of the stack below that scope as it is.
theorem Grows.outer_cells (h : Grows t t' id) (hid : id < t.size) :
    (t'.outer id).map t'.scopeCells = (t.outer id).map t.scopeCells := by
  rw [h.outer_eq hid]
  refine List.map_congr_left fun j hj => scopeCells_congr ?_
  have hlt := lt_of_mem_outer hid hj
  exact h.locals_eq (by omega) (by omega)

theorem Grows.outer_locals (h : Grows t t' id) (hid : id < t.size) :
    (t'.outer id).map t'.locals = (t.outer id).map t.locals := by
  rw [h.outer_eq hid]
  refine List.map_congr_left fun j hj => ?_
  have hlt := lt_of_mem_outer hid hj
  exact h.locals_eq (by omega) (by omega)

-- Compiling inside a new scope leaves all that could be seen before as it is.
theorem Grows.frames_eq (h : Grows t t' id) (hid : t.size ≤ id)
    (hj : j < t.size) : t'.frames j = t.frames j := by
  rw [frames, frames, h.lineage_eq hj]
  refine List.map_congr_left fun i hi => ?_
  have hle := le_of_mem_lineage hj hi
  exact h.locals_eq (by omega) (by omega)

theorem Grows.tagged_eq (h : Grows t t' id) (hid : t.size ≤ id)
    (hj : j < t.size) : t'.tagged j = t.tagged j := by
  rw [tagged, tagged, h.lineage_eq hj]
  refine List.map_congr_left fun i hi => scopeCells_congr ?_
  have hle := le_of_mem_lineage hj hi
  exact h.locals_eq (by omega) (by omega)

-- A new scope starts with the stack as it is.
theorem lineage_child (h : id < t.size) :
    (t.child id).lineage t.size = t.size :: t.lineage id := by
  rw [lineage_eq (by rw [child_size h]; omega), child_parent? h, if_pos rfl]
  exact congrArg (t.size :: ·) ((grows_child h 0).lineage_eq h)

theorem frames_child (h : id < t.size) :
    (t.child id).frames t.size = [] :: t.frames id := by
  rw [frames, lineage_child h, List.map_cons, child_locals h, if_pos rfl]
  refine congrArg ([] :: ·) (List.map_congr_left fun j hj => ?_)
  have hle := le_of_mem_lineage h hj
  rw [child_locals h, if_neg (by omega)]

theorem scopeCells_child (h : id < t.size) :
    (t.child id).scopeCells t.size = [] := by
  rw [scopeCells, child_locals h, if_pos rfl, List.map_nil]

theorem layout_child (h : id < t.size) :
    (t.child id).layout t.size = t.layout id := by
  rw [layout, tagged, lineage_child h, List.map_cons, Frames.stack, scopeCells_child h]
  have hrest : (t.lineage id).map (t.child id).scopeCells = (t.lineage id).map t.scopeCells := by
    refine List.map_congr_left fun j hj => scopeCells_congr ?_
    have hle := le_of_mem_lineage h hj
    rw [child_locals h, if_neg (by omega)]
  rw [hrest]
  simp [layout, tagged]

-- The stack at the end of a nested scope: as it was outside, and the new scope's slots.
theorem layout_nested (h : id < t.size) (hg : Grows (t.child id) t' t.size) :
    t'.layout t.size = t.layout id ++ (t'.scopeCells t.size).flatMap Prod.snd := by
  have hsize : t.size < (t.child id).size := by rw [child_size h]; omega
  rw [layout_eq (hsize.trans_le hg.size_le), hg.outer_cells hsize, ← layout_child h,
    layout_eq hsize, scopeCells_child h]
  simp

-- A declared local is the last of its frame, and its slots are the last ones.
theorem Declared.frames_eq (h : Declared t t' id l) :
    t'.frames id = (t.locals id ++ [l]) :: (t.outer id).map t.locals := by
  rw [ScopeTree.frames_eq (h.size_eq ▸ h.lt_size), h.locals_self, h.grows.outer_locals h.lt_size]

theorem Declared.layout_eq (h : Declared t t' id l) :
    t'.layout id = t.layout id ++ cells id l := by
  rw [ScopeTree.layout_eq (h.size_eq ▸ h.lt_size), h.grows.outer_cells h.lt_size,
    ScopeTree.layout_eq h.lt_size, scopeCells, scopeCells, h.locals_self]
  simp

end ScopeTree

end SpriteCompiler
