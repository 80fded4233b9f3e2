import SpriteCompiler.Program.Encode
import Mathlib.Tactic

namespace SpriteCompiler.Json

mutual

def written : Json → Json
  | .float x => if Number.isFinite x then .float x else .null
  | .arr items => .arr (writtenItems items)
  | .obj fields => .obj (writtenFields fields)
  | .null => .null
  | .bool b => .bool b
  | .int n => .int n
  | .str s => .str s

def writtenItems : List Json → List Json
  | [] => []
  | item :: items => item.written :: writtenItems items

def writtenFields : List (String × Json) → List (String × Json)
  | [] => []
  | (name, value) :: fields => (name, value.written) :: writtenFields fields

end

attribute [simp] written writtenFields

theorem floatText?_of_not_finite {x : Float} (h : Number.isFinite x = false) :
    Number.floatText? x = none := by
  rw [Number.isFinite] at h
  rw [Number.floatText?]
  cases hkind : Number.kind x with
  | finite b => simp [hkind] at h
  | nan | infinite => rfl

mutual

-- The text is that of the value as it is written.
theorem render_written : ∀ j : Json, j.written.render = j.render
  | .float x => by
      cases hx : Number.isFinite x with
      | true => simp [written, hx]
      | false => simp [written, hx, render, floatText?_of_not_finite hx]
  | .arr items => by simp only [written, render, renderItems_written items]
  | .obj fields => by simp only [written, render, renderFields_written fields]
  | .null | .bool _ | .int _ | .str _ => by simp only [written]

theorem renderItems_written : ∀ items, renderItems (writtenItems items) = renderItems items
  | [] => rfl
  | item :: items => by
      simp only [writtenItems, renderItems, render_written item, renderItems_written items]

theorem renderFields_written : ∀ fields, renderFields (writtenFields fields) = renderFields fields
  | [] => rfl
  | (_, value) :: fields => by
      simp only [writtenFields, renderFields, render_written value, renderFields_written fields]

end

theorem writtenItems_map {α : Type} {f : α → Json} {xs : List α}
    (h : ∀ x ∈ xs, (f x).written = f x) : writtenItems (xs.map f) = xs.map f := by
  induction xs with
  | nil => rfl
  | cons x xs ih =>
      rw [List.forall_mem_cons] at h
      rw [List.map_cons, writtenItems, h.1, ih h.2]

theorem written_ofOption {α : Type} {f : α → Json} {v : Option α}
    (h : ∀ a ∈ v, (f a).written = f a) : (ofOption f v).written = ofOption f v := by
  cases v with
  | none => simp only [ofOption, written]
  | some a => exact h a rfl

-- Each accessor gives back what was put in.

@[simp]
theorem word?_word (n : UInt32) : (word n).word? = some n := by
  have hlt : (n.toNat : Int) < UInt32.size := by exact_mod_cast n.toNat_lt
  rw [word, word?, if_pos ⟨Int.natCast_nonneg _, hlt⟩]
  simp

@[simp]
theorem record?_obj (names : List String) (fields : List (String × Json)) :
    (obj fields).record? names = some (.obj fields) :=
  rfl

@[simp]
theorem field?_obj_cons (name x : String) (value : Json) (fields : List (String × Json)) :
    (obj ((name, value) :: fields)).field? x =
      if x = name then some value else (obj fields).field? x := by
  by_cases hx : x = name
  · simp [field?, hx]
  · have hne : (x == name) = false := by simpa using hx
    simp [field?, List.lookup_cons, hx, hne]

@[simp]
theorem str?_str (s : String) : (str s).str? = some s :=
  rfl

@[simp]
theorem bool?_bool (b : Bool) : (bool b).bool? = some b :=
  rfl

-- The kind of a variant is known, so that of all kinds only this one is looked at.
@[simp]
theorem bind_variant?_tagged {β : Type} (tag : String) (payload : Json)
    (k : String × Json → Option β) : ((tagged tag payload).variant? >>= k) = k (tag, payload) :=
  rfl

theorem bind_eq_some {α β : Type} {x : Option α} {a : α} {k : α → Option β} {b : β}
    (hx : x = some a) (hk : k a = some b) : (x >>= k) = some b := by
  rw [hx]
  exact hk

-- A variant with a payload has no tag alone, unless the payload is null.
theorem tag?_tagged {payload : Json} (h : payload ≠ .null) (tag : String) :
    (tagged tag payload).tag? = none := by
  cases payload with
  | null => contradiction
  | _ => rfl

section Decode

variable {α : Type} {f : α → Json} {g : Json → Option α}

theorem list?_cons {j : Json} {items : List Json} {x : α} {xs : List α} (hfirst : g j = some x)
    (hrest : (arr items).list? g = some xs) : (arr (j :: items)).list? g = some (x :: xs) := by
  change items.mapM g = some xs at hrest
  change (j :: items).mapM g = some (x :: xs)
  simp [hfirst, hrest]

theorem list?_map (xs : List α) (h : ∀ x ∈ xs, g (f x) = some x) :
    (arr (xs.map f)).list? g = some xs := by
  induction xs with
  | nil => rfl
  | cons x xs ih =>
      rw [List.forall_mem_cons] at h
      exact list?_cons h.1 (ih h.2)

-- A value that is there is not null, so that it is told from one that is not.
theorem optional?_ofOption {j : Json} {name : String} {v : Option α}
    (hfield : j.field? name = some (ofOption f v)) (hnull : ∀ a, f a ≠ .null)
    (h : ∀ a, g (f a) = some a) : j.optional? name g = some v := by
  rw [optional?, hfield]
  cases v with
  | none => rfl
  | some a =>
      have hread := h a
      have hvalue := hnull a
      rw [ofOption]
      generalize f a = value at hread hvalue ⊢
      cases value with
      | null => exact absurd rfl hvalue
      | _ => simp only [hread, Option.map_some]

end Decode

end SpriteCompiler.Json
