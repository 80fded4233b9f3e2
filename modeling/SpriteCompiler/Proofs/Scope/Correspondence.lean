import SpriteCompiler.Proofs.Program.Renaming
import SpriteCompiler.Proofs.Scope.Frames

namespace SpriteCompiler

namespace Local

variable {ρ : String → String} {F F' : List (List Local)} {x : String}

-- The names in scope, innermost first and latest first within a scope.
def namesIn (F : List (List Local)) : List String :=
  F.flatMap fun f => f.reverse.map (·.name)

-- The slots of the locals in scope, in the order in which they are released.
def slotsIn (F : List (List Local)) : List Nat :=
  F.flatMap fun f => f.reverse.map (·.slots)

-- All that compiling asks of the locals in scope is the same up to the names.
structure Corresponds (ρ : String → String) (F F' : List (List Local)) : Prop where
  search_eq : ∀ x, searchIn? (ρ x) F' = (searchIn? x F).map (rename ρ)
  depth_eq : ∀ x, depthIn? (ρ x) F' = depthIn? x F
  names_eq : namesIn F' = (namesIn F).map ρ
  slots_eq : slotsIn F' = slotsIn F

theorem corresponds_nil : Corresponds ρ [] [] :=
  ⟨fun _ => rfl, fun _ => rfl, rfl, rfl⟩

theorem slotCount_rename (f : List Local) : slotCount (f.map (rename ρ)) = slotCount f := by
  induction f with
  | nil => rfl
  | cons l f ih => simp only [List.map_cons, slotCount, slots_rename, ih]

section Frame

variable (hρ : Function.Injective ρ)

include hρ

theorem find?_rename (f : List Local) (x : String) :
    (f.map (rename ρ)).find? (·.name == ρ x) = (f.find? (·.name == x)).map (rename ρ) := by
  rw [List.find?_map]
  congr 2
  funext l
  rw [Function.comp_apply, name_rename, beq_rename hρ]

theorem slotsAfter?_rename (f : List Local) (x : String) :
    slotsAfter? (ρ x) (f.map (rename ρ)) = slotsAfter? x f := by
  induction f with
  | nil => rfl
  | cons l f ih =>
      simp only [List.map_cons, slotsAfter?, name_rename, beq_rename hρ, slotCount_rename, ih]

-- One more scope on both sides, with the same locals under other names.
theorem Corresponds.cons (h : Corresponds ρ F F') (f : List Local) :
    Corresponds ρ (f :: F) (f.map (rename ρ) :: F') where
  search_eq x := by
    simp only [searchIn?, List.findSome?_cons, find?_rename hρ]
    cases hf : f.find? (·.name == x) with
    | some l => rfl
    | none => exact h.search_eq x
  depth_eq x := by
    simp only [depthIn?, slotsAfter?_rename hρ, slotCount_rename, h.depth_eq x]
  names_eq := by
    have hnames := h.names_eq
    simp only [namesIn] at hnames
    simp only [namesIn, List.flatMap_cons, hnames, List.map_append, ← List.map_reverse, List.map_map,
      Function.comp_def, name_rename]
  slots_eq := by
    have hslots := h.slots_eq
    simp only [slotsIn] at hslots
    simp only [slotsIn, List.flatMap_cons, hslots, ← List.map_reverse, List.map_map,
      Function.comp_def, slots_rename]

end Frame

theorem slotsAfter?_append (a b : List Local) (x : String) :
    slotsAfter? x (a ++ b) =
      match slotsAfter? x a with
      | some later => some (later + slotCount b)
      | none => slotsAfter? x b := by
  induction a with
  | nil => rfl
  | cons l a ih =>
      rw [List.cons_append, slotsAfter?, slotsAfter?]
      by_cases hl : l.name == x
      · simp only [hl, if_true, slotCount_append]
      · simp only [hl, Bool.false_eq_true, if_false, ih]

-- Where the names of two scopes are different, it makes no difference whether the later locals have a
-- scope of their own.
theorem corresponds_split {a b : List Local}
    (hdisjoint : ∀ l ∈ a, ∀ l' ∈ b, l.name ≠ l'.name) (F : List (List Local)) :
    Corresponds id ((a ++ b) :: F) (b :: a :: F) where
  search_eq x := by
    simp only [searchIn?, List.findSome?_cons, List.find?_append, id, rename_id, Option.map_id]
    by_cases hx : ∃ l ∈ a, l.name = x
    · obtain ⟨l, hl, rfl⟩ := hx
      rw [find?_eq_none_of_ne fun l' hl' => (hdisjoint l hl l' hl').symm]
      cases a.find? (·.name == l.name) <;> rfl
    · rw [find?_eq_none_of_ne (f := a) fun l hl hname => hx ⟨l, hl, hname⟩]
      cases b.find? (·.name == x) <;> rfl
  depth_eq x := by
    have hshift : (slotCount b + ·) ∘ (slotCount a + ·) = (slotCount a + slotCount b + ·) := by
      funext n
      simp only [Function.comp_apply]
      omega
    simp only [depthIn?, slotsAfter?_append, slotCount_append, id]
    by_cases hx : ∃ l ∈ a, l.name = x
    · obtain ⟨l, hl, rfl⟩ := hx
      rw [slotsAfter?_eq_none (find?_eq_none_of_ne fun l' hl' => (hdisjoint l hl l' hl').symm)]
      cases slotsAfter? l.name a with
      | some later => simp only [Option.map_some, Nat.add_comm]
      | none => simp only [Option.map_map, hshift]
    · rw [slotsAfter?_eq_none (find?_eq_none_of_ne (f := a) fun l hl hname => hx ⟨l, hl, hname⟩)]
      cases slotsAfter? x b with
      | some later => rfl
      | none => simp only [Option.map_map, hshift]
  names_eq := by simp [namesIn]
  slots_eq := by simp [slotsIn]

end Local

end SpriteCompiler
