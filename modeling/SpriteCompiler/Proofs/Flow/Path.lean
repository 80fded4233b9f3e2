import Mathlib.Tactic

namespace SpriteCompiler

-- Control flow with its choices left open. Since every loop may be left, each beginning of a way that
-- goes on forever is the beginning of a path.
inductive Flow (α : Type) where
  | act (a : α)
  -- ends everything
  | stop
  -- the guard happens before each round and before the loop is left
  | loop (times : Option Nat) (guard : List α) (body : List (Flow α))
  | branch (first second : List (Flow α))

inductive Ending where
  | finished
  | stopped
  deriving DecidableEq

-- What happens on a way through, and how it ends. What follows a branch or a round is added to it, so
-- that a stop inside ends the whole way.
inductive Path {α : Type} : List (Flow α) → List α → Ending → Prop where
  | nil : Path [] [] .finished
  | act {a fs L e} : Path fs L e → Path (.act a :: fs) (a :: L) e
  | stop {fs} : Path (.stop :: fs) [] .stopped
  | first {f g fs L e} : Path (f ++ fs) L e → Path (.branch f g :: fs) L e
  | second {f g fs L e} : Path (g ++ fs) L e → Path (.branch f g :: fs) L e
  | leave {guard body fs L e} : Path fs L e → Path (.loop none guard body :: fs) (guard ++ L) e
  | round {guard body fs L e} : Path (body ++ .loop none guard body :: fs) L e →
      Path (.loop none guard body :: fs) (guard ++ L) e
  | exhausted {guard body fs L e} : Path fs L e → Path (.loop (some 0) guard body :: fs) (guard ++ L) e
  | again {n guard body fs L e} : Path (body ++ .loop (some n) guard body :: fs) L e →
      Path (.loop (some (n + 1)) guard body :: fs) (guard ++ L) e

namespace Flow

variable {α β : Type}

mutual

def map (f : α → β) : Flow α → Flow β
  | .act a => .act (f a)
  | .stop => .stop
  | .loop times guard body => .loop times (guard.map f) (mapAll f body)
  | .branch first second => .branch (mapAll f first) (mapAll f second)

def mapAll (f : α → β) : List (Flow α) → List (Flow β)
  | [] => []
  | x :: rest => x.map f :: mapAll f rest

end

-- Things that happen one after the other.
def acts (L : List α) : List (Flow α) :=
  L.map .act

theorem mapAll_append (f : α → β) (a b : List (Flow α)) :
    mapAll f (a ++ b) = mapAll f a ++ mapAll f b := by
  induction a with
  | nil => rfl
  | cons x a ih => simp only [List.cons_append, mapAll, ih]

theorem mapAll_acts (f : α → β) (L : List α) : mapAll f (acts L) = acts (L.map f) := by
  induction L with
  | nil => rfl
  | cons a L ih => simpa only [acts, List.map_cons, mapAll, map, List.cons.injEq, true_and] using ih

-- What relabels to a given piece of flow is of the same kind.

variable {f : α → β} {x : Flow α} {fs : List (Flow α)}

theorem mapAll_eq_cons {y : Flow β} {gs : List (Flow β)} (h : mapAll f fs = y :: gs) :
    ∃ x rest, fs = x :: rest ∧ x.map f = y ∧ mapAll f rest = gs := by
  cases fs with
  | nil => cases h
  | cons x rest =>
      obtain ⟨hx, hrest⟩ := List.cons.inj h
      exact ⟨x, rest, rfl, hx, hrest⟩

theorem map_eq_act {b : β} (h : x.map f = .act b) : ∃ a, x = .act a ∧ f a = b := by
  cases x <;> simp_all [map]

theorem map_eq_stop (h : x.map f = .stop) : x = .stop := by
  cases x <;> simp_all [map]

theorem map_eq_loop {times : Option Nat} {guard : List β} {body : List (Flow β)}
    (h : x.map f = .loop times guard body) :
    ∃ guard' body', x = .loop times guard' body' ∧ guard'.map f = guard ∧ mapAll f body' = body := by
  cases x <;> simp_all [map]

theorem map_eq_branch {first second : List (Flow β)} (h : x.map f = .branch first second) :
    ∃ first' second', x = .branch first' second' ∧ mapAll f first' = first ∧
      mapAll f second' = second := by
  cases x <;> simp_all [map]

end Flow

namespace Path

open SpriteCompiler.Flow

-- The paths of relabelled flow are the relabelled paths.

theorem map {α β : Type} {fs : List (Flow α)} {L : List α} {e : Ending} (h : Path fs L e)
    (f : α → β) : Path (mapAll f fs) (L.map f) e := by
  induction h with
  | nil => exact .nil
  | act _ ih => exact .act ih
  | stop => exact .stop
  | first _ ih =>
      rw [mapAll_append] at ih
      exact .first ih
  | second _ ih =>
      rw [mapAll_append] at ih
      exact .second ih
  | leave _ ih =>
      rw [List.map_append]
      exact .leave ih
  | round _ ih =>
      rw [mapAll_append] at ih
      rw [List.map_append]
      exact .round ih
  | exhausted _ ih =>
      rw [List.map_append]
      exact .exhausted ih
  | again _ ih =>
      rw [mapAll_append] at ih
      rw [List.map_append]
      exact .again ih

theorem of_mapAll {α β : Type} {f : α → β} {gs : List (Flow β)} {E : List β} {e : Ending}
    (h : Path gs E e) {fs : List (Flow α)} (hfs : mapAll f fs = gs) :
    ∃ L, L.map f = E ∧ Path fs L e := by
  induction h generalizing fs with
  | nil =>
      cases fs with
      | nil => exact ⟨[], rfl, .nil⟩
      | cons x fs => cases hfs
  | act h ih =>
      obtain ⟨x, rest, rfl, hx, hrest⟩ := mapAll_eq_cons hfs
      obtain ⟨a, rfl, rfl⟩ := map_eq_act hx
      obtain ⟨L, rfl, hL⟩ := ih hrest
      exact ⟨a :: L, rfl, .act hL⟩
  | stop =>
      obtain ⟨x, rest, rfl, hx, hrest⟩ := mapAll_eq_cons hfs
      obtain rfl := map_eq_stop hx
      exact ⟨[], rfl, .stop⟩
  | first h ih =>
      obtain ⟨x, rest, rfl, hx, rfl⟩ := mapAll_eq_cons hfs
      obtain ⟨first, second, rfl, rfl, rfl⟩ := map_eq_branch hx
      obtain ⟨L, rfl, hL⟩ := ih (mapAll_append f first rest)
      exact ⟨L, rfl, .first hL⟩
  | second h ih =>
      obtain ⟨x, rest, rfl, hx, rfl⟩ := mapAll_eq_cons hfs
      obtain ⟨first, second, rfl, rfl, rfl⟩ := map_eq_branch hx
      obtain ⟨L, rfl, hL⟩ := ih (mapAll_append f second rest)
      exact ⟨L, rfl, .second hL⟩
  | leave h ih =>
      obtain ⟨x, rest, rfl, hx, hrest⟩ := mapAll_eq_cons hfs
      obtain ⟨guard, body, rfl, rfl, rfl⟩ := map_eq_loop hx
      obtain ⟨L, rfl, hL⟩ := ih hrest
      exact ⟨guard ++ L, List.map_append, .leave hL⟩
  | round h ih =>
      obtain ⟨x, rest, rfl, hx, rfl⟩ := mapAll_eq_cons hfs
      obtain ⟨guard, body, rfl, rfl, rfl⟩ := map_eq_loop hx
      obtain ⟨L, rfl, hL⟩ := ih (mapAll_append f body (.loop none guard body :: rest))
      exact ⟨guard ++ L, List.map_append, .round hL⟩
  | exhausted h ih =>
      obtain ⟨x, rest, rfl, hx, hrest⟩ := mapAll_eq_cons hfs
      obtain ⟨guard, body, rfl, rfl, rfl⟩ := map_eq_loop hx
      obtain ⟨L, rfl, hL⟩ := ih hrest
      exact ⟨guard ++ L, List.map_append, .exhausted hL⟩
  | @again n _ _ _ _ _ h ih =>
      obtain ⟨x, rest, rfl, hx, rfl⟩ := mapAll_eq_cons hfs
      obtain ⟨guard, body, rfl, rfl, rfl⟩ := map_eq_loop hx
      obtain ⟨L, rfl, hL⟩ := ih (mapAll_append f body (.loop (some n) guard body :: rest))
      exact ⟨guard ++ L, List.map_append, .again hL⟩

end Path

end SpriteCompiler
