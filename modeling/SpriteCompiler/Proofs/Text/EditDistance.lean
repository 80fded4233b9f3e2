import SpriteCompiler.Text.EditDistance
import Mathlib.Order.Bounds.Basic
import Mathlib.Tactic

namespace SpriteCompiler.Text

-- A change of one character, at a place counted from the beginning of the text.
inductive Edit where
  | insert (place : Nat) (c : Char)
  | delete (place : Nat)
  | replace (place : Nat) (c : Char)
  deriving DecidableEq

namespace Edit

-- The text after the edit, if the text has such a place.
def perform? (cs : List Char) : Edit → Option (List Char)
  | .insert place c => if place ≤ cs.length then some (cs.insertIdx place c) else none
  | .delete place => if place < cs.length then some (cs.eraseIdx place) else none
  | .replace place c => if place < cs.length then some (cs.set place c) else none

-- The text after all edits of a script, in order.
def performAll? (cs : List Char) (script : List Edit) : Option (List Char) :=
  script.foldlM perform? cs

end Edit

-- The rows of distances speak of alignments, which go through both texts once from left to right, while
-- edits are made anywhere and in any order.

-- The texts can be laid side by side, each character against one of the other text or against
-- nothing, such that there are `n` places where they differ.
inductive Aligned : List Char → List Char → Nat → Prop
  | nil : Aligned [] [] 0
  | pair {s t : List Char} {n : Nat} (c d : Char) :
      Aligned s t n → Aligned (s ++ [c]) (t ++ [d]) (n + if c = d then 0 else 1)
  | delete {s t : List Char} {n : Nat} (c : Char) : Aligned s t n → Aligned (s ++ [c]) t (n + 1)
  | insert {s t : List Char} {n : Nat} (d : Char) : Aligned s t n → Aligned s (t ++ [d]) (n + 1)

-- The best alignment has `n` such places.
def Nearest (s t : List Char) (n : Nat) : Prop :=
  IsLeast {n | Aligned s t n} n

variable {s t u : List Char} {c d : Char} {n : Nat}

-- The best alignment with a text that is empty, or with a text that has one character more.

theorem Aligned.length_target_le (h : Aligned s t n) : t.length ≤ s.length + n := by
  induction h with
  | nil => simp
  | pair c d _ ih => simp only [List.length_append, List.length_singleton]; omega
  | delete c _ ih => simp only [List.length_append, List.length_singleton]; omega
  | insert d _ ih => simp only [List.length_append, List.length_singleton]; omega

theorem nearest_nil_left (t : List Char) : Nearest [] t t.length := by
  constructor
  · induction t using List.reverseRecOn with
    | nil => exact .nil
    | append_singleton t d ih => simpa using ih.insert d
  · intro n hn
    simpa using hn.length_target_le

theorem Nearest.snoc_nil (h : Nearest s [] n) (c : Char) : Nearest (s ++ [c]) [] (n + 1) := by
  refine ⟨h.1.delete c, fun m hm => ?_⟩
  generalize hs : s ++ [c] = s' at hm
  generalize ht : [] = t at hm
  cases hm with
  | nil => simp at hs
  | pair => simp at ht
  | insert => simp at ht
  | delete c' hm =>
      obtain ⟨rfl, -⟩ := List.append_inj' hs rfl
      subst ht
      exact Nat.succ_le_succ (h.2 hm)

-- One entry of a row from its three neighbours.
theorem Nearest.snoc {above left diagonal : Nat} (habove : Nearest s (t ++ [d]) above)
    (hleft : Nearest (s ++ [c]) t left) (hdiagonal : Nearest s t diagonal) :
    Nearest (s ++ [c]) (t ++ [d])
      (min (min (above + 1) (left + 1)) (diagonal + if c = d then 0 else 1)) := by
  constructor
  · rcases min_choice (min (above + 1) (left + 1)) (diagonal + if c = d then 0 else 1) with h | h
    · rw [h]
      rcases min_choice (above + 1) (left + 1) with h | h
      · rw [h]
        exact habove.1.delete c
      · rw [h]
        exact hleft.1.insert d
    · rw [h]
      exact hdiagonal.1.pair c d
  · intro m hm
    generalize hs : s ++ [c] = s' at hm
    generalize ht : t ++ [d] = t' at hm
    cases hm with
    | nil => simp at hs
    | pair c' d' hm =>
        obtain ⟨rfl, hc⟩ := List.append_inj' hs rfl
        obtain ⟨rfl, hd⟩ := List.append_inj' ht rfl
        obtain rfl : c = c' := by simpa using hc
        obtain rfl : d = d' := by simpa using hd
        have := hdiagonal.2 hm
        omega
    | delete c' hm =>
        obtain ⟨rfl, -⟩ := List.append_inj' hs rfl
        subst ht
        have := habove.2 hm
        omega
    | insert d' hm =>
        obtain ⟨rfl, -⟩ := List.append_inj' ht rfl
        subst hs
        have := hleft.2 hm
        omega

-- The numbers are the distances of `s` from `t` with one, two, ... characters of `rest` after it.
inductive Row (s : List Char) : List Char → List Char → List Nat → Prop
  | nil {t : List Char} : Row s t [] []
  | cons {t : List Char} {d : Char} {rest : List Char} {n : Nat} {row : List Nat} :
      Nearest s (t ++ [d]) n → Row s (t ++ [d]) rest row → Row s t (d :: rest) (n :: row)

theorem Row.range (t rest : List Char) : Row [] t rest (List.range' (t.length + 1) rest.length) := by
  induction rest generalizing t with
  | nil => exact .nil
  | cons d rest ih =>
      have hd : Nearest [] (t ++ [d]) (t.length + 1) := by
        simpa using nearest_nil_left (t ++ [d])
      exact .cons hd (by simpa using ih (t ++ [d]))

-- Filling in a row from left to right.
theorem Row.rowTail {rest : List Char} {row : List Nat} {diagonal left : Nat}
    (h : Row s t rest row) (hdiagonal : Nearest s t diagonal) (hleft : Nearest (s ++ [c]) t left) :
    Row (s ++ [c]) t rest (rowTail c rest diagonal row left) := by
  induction h generalizing diagonal left with
  | nil => exact .nil
  | cons habove _ ih =>
      have hentry := habove.snoc hleft hdiagonal
      exact .cons hentry (ih habove hentry)

theorem Row.nearest_getLastD {rest : List Char} {row : List Nat} (h : Row s t rest row)
    (hn : Nearest s t n) : Nearest s (t ++ rest) (row.getLastD n) := by
  induction h generalizing n with
  | nil => simpa using hn
  | cons hd _ ih =>
      rw [List.getLastD_cons, List.append_cons]
      exact ih hd

-- The first of the distances is that from the empty text, and the others follow it.
theorem distanceRow_eq (s t : List Char) :
    ∃ first row, distanceRow s t = first :: row ∧ Nearest s [] first ∧ Row s [] t row := by
  induction s using List.reverseRecOn with
  | nil =>
      refine ⟨0, List.range' 1 t.length, ?_, nearest_nil_left [], Row.range [] t⟩
      simp [distanceRow, List.range_eq_range', List.range'_succ]
  | append_singleton s c ih =>
      obtain ⟨first, row, hrow, hfirst, htail⟩ := ih
      have hnext : distanceRow (s ++ [c]) t = nextRow t (distanceRow s t) c := by
        simp [distanceRow]
      rw [hnext, hrow]
      exact ⟨_, _, rfl, hfirst.snoc_nil c, htail.rowTail hfirst (hfirst.snoc_nil c)⟩

theorem nearest_editDistance (source target : String) :
    Nearest source.toList target.toList (editDistance source target) := by
  obtain ⟨first, row, hrow, hfirst, htail⟩ := distanceRow_eq source.toList target.toList
  rw [editDistance, hrow, List.getLastD_cons]
  simpa using htail.nearest_getLastD hfirst

namespace Edit

variable {e : Edit} {script : List Edit} {place : Nat}

theorem perform?_insert :
    (insert place c).perform? s = some t ↔ place ≤ s.length ∧ s.insertIdx place c = t := by
  rw [perform?, Option.ite_none_right_eq_some, Option.some.injEq]

theorem perform?_delete :
    (delete place).perform? s = some t ↔ place < s.length ∧ s.eraseIdx place = t := by
  rw [perform?, Option.ite_none_right_eq_some, Option.some.injEq]

theorem perform?_replace :
    (replace place c).perform? s = some t ↔ place < s.length ∧ s.set place c = t := by
  rw [perform?, Option.ite_none_right_eq_some, Option.some.injEq]

theorem insertIdx_append (h : place ≤ s.length) (c : Char) (rest : List Char) :
    (s ++ rest).insertIdx place c = s.insertIdx place c ++ rest := by
  induction s generalizing place with
  | nil =>
      obtain rfl : place = 0 := by simpa using h
      rfl
  | cons x s ih =>
      cases place with
      | zero => rfl
      | succ place => simp [ih (by simpa using h)]

-- An edit of a text does not look at what follows it.
theorem perform?_append (h : e.perform? s = some t) (rest : List Char) :
    e.perform? (s ++ rest) = some (t ++ rest) := by
  cases e with
  | insert place c =>
      obtain ⟨hplace, rfl⟩ := perform?_insert.mp h
      have hlength : place ≤ (s ++ rest).length := by rw [List.length_append]; omega
      exact perform?_insert.mpr ⟨hlength, insertIdx_append hplace c rest⟩
  | delete place =>
      obtain ⟨hplace, rfl⟩ := perform?_delete.mp h
      have hlength : place < (s ++ rest).length := by rw [List.length_append]; omega
      exact perform?_delete.mpr ⟨hlength, List.eraseIdx_append_of_lt_length hplace rest⟩
  | replace place c =>
      obtain ⟨hplace, rfl⟩ := perform?_replace.mp h
      have hlength : place < (s ++ rest).length := by rw [List.length_append]; omega
      exact perform?_replace.mpr ⟨hlength, List.set_append_left _ _ hplace⟩

theorem performAll?_append (h : performAll? s script = some t) (rest : List Char) :
    performAll? (s ++ rest) script = some (t ++ rest) := by
  induction script generalizing s with
  | nil =>
      obtain rfl : s = t := by simpa [performAll?] using h
      rfl
  | cons e script ih =>
      obtain ⟨u, hu, hrest⟩ := Option.bind_eq_some_iff.mp h
      exact Option.bind_eq_some_iff.mpr ⟨u ++ rest, perform?_append hu rest, ih hrest⟩

theorem performAll?_snoc (h : performAll? s script = some u) (he : e.perform? u = some t) :
    performAll? s (script ++ [e]) = some t := by
  have hlast : performAll? s (script ++ [e]) = (performAll? s script).bind (performAll? · [e]) :=
    List.foldlM_append
  rw [hlast, h]
  simpa [performAll?] using he

-- An alignment is carried out from left to right, at the end of what is done already.
theorem exists_script (h : Aligned s t n) :
    ∃ script, performAll? s script = some t ∧ script.length = n := by
  induction h with
  | nil => exact ⟨[], rfl, rfl⟩
  | @pair s t n c d _ ih =>
      obtain ⟨script, hscript, rfl⟩ := ih
      have hdone := performAll?_append hscript [c]
      by_cases hcd : c = d
      · subst hcd
        exact ⟨script, hdone, by simp⟩
      · exact ⟨script ++ [.replace t.length d], performAll?_snoc hdone (by simp [perform?]),
          by simp [hcd]⟩
  | @delete s t n c _ ih =>
      obtain ⟨script, hscript, rfl⟩ := ih
      have hdone := performAll?_append hscript [c]
      refine ⟨script ++ [.delete t.length], performAll?_snoc hdone ?_, by simp⟩
      simp [perform?, List.eraseIdx_append_of_length_le]
  | @insert s t n d _ ih =>
      obtain ⟨script, hscript, rfl⟩ := ih
      exact ⟨script ++ [.insert t.length d], performAll?_snoc hscript (by simp [perform?]), by simp⟩

-- An edit changes the text before the last character, or it concerns the end of the text.
theorem perform?_snoc (h : e.perform? (u ++ [d]) = some t) :
    (∃ v, e.perform? u = some v ∧ t = v ++ [d]) ∨ t = u ∨ (∃ c, t = u ++ [c]) ∨
      ∃ c, t = u ++ [d] ++ [c] := by
  cases e with
  | insert place c =>
      obtain ⟨hplace, rfl⟩ := perform?_insert.mp h
      by_cases hinside : place ≤ u.length
      · exact .inl ⟨_, perform?_insert.mpr ⟨hinside, rfl⟩, insertIdx_append hinside c [d]⟩
      · obtain rfl : place = (u ++ [d]).length := by simp at hplace ⊢; omega
        exact .inr (.inr (.inr ⟨c, List.insertIdx_length_self⟩))
  | delete place =>
      obtain ⟨hplace, rfl⟩ := perform?_delete.mp h
      by_cases hinside : place < u.length
      · exact .inl ⟨_, perform?_delete.mpr ⟨hinside, rfl⟩,
          List.eraseIdx_append_of_lt_length hinside [d]⟩
      · obtain rfl : place = u.length := by simp at hplace; omega
        exact .inr (.inl (by simp [List.eraseIdx_append_of_length_le]))
  | replace place c =>
      obtain ⟨hplace, rfl⟩ := perform?_replace.mp h
      by_cases hinside : place < u.length
      · exact .inl ⟨_, perform?_replace.mpr ⟨hinside, rfl⟩, List.set_append_left _ _ hinside⟩
      · obtain rfl : place = u.length := by simp at hplace; omega
        exact .inr (.inr (.inl ⟨c, by simp⟩))

end Edit

-- One more edit makes an alignment worse by at most one. The induction is on the alignment, since it
-- is the last character of the text that an edit leaves alone or not.
theorem Aligned.edit {e : Edit} (h : Aligned s u n) (he : e.perform? u = some t) :
    ∃ m ≤ n + 1, Aligned s t m := by
  induction h generalizing t with
  | nil =>
      cases e with
      | insert place c =>
          obtain ⟨hplace, rfl⟩ := Edit.perform?_insert.mp he
          obtain rfl : place = 0 := by simpa using hplace
          exact ⟨1, le_rfl, Aligned.nil.insert c⟩
      | delete place => simp [Edit.perform?] at he
      | replace place c => simp [Edit.perform?] at he
  | @pair s u n c d h ih =>
      obtain ⟨v, hv, rfl⟩ | rfl | ⟨c', rfl⟩ | ⟨c', rfl⟩ := Edit.perform?_snoc he
      · obtain ⟨m, hm, hv⟩ := ih hv
        exact ⟨_, by omega, hv.pair c d⟩
      · exact ⟨_, by omega, h.delete c⟩
      · exact ⟨_, by split <;> omega, h.pair c c'⟩
      · exact ⟨_, le_rfl, (h.pair c d).insert c'⟩
  | @delete s u n c h ih =>
      obtain ⟨m, hm, ht⟩ := ih he
      exact ⟨_, by omega, ht.delete c⟩
  | @insert s u n d h ih =>
      obtain ⟨v, hv, rfl⟩ | rfl | ⟨c', rfl⟩ | ⟨c', rfl⟩ := Edit.perform?_snoc he
      · obtain ⟨m, hm, hv⟩ := ih hv
        exact ⟨_, by omega, hv.insert d⟩
      · exact ⟨_, by omega, h⟩
      · exact ⟨_, by omega, h.insert c'⟩
      · exact ⟨_, le_rfl, (h.insert d).insert c'⟩

theorem Aligned.script {script : List Edit} (h : Aligned s u n)
    (hscript : Edit.performAll? u script = some t) : ∃ m ≤ n + script.length, Aligned s t m := by
  induction script generalizing u n with
  | nil =>
      obtain rfl : u = t := by simpa [Edit.performAll?] using hscript
      exact ⟨n, le_rfl, h⟩
  | cons e script ih =>
      obtain ⟨v, hv, hrest⟩ := Option.bind_eq_some_iff.mp hscript
      obtain ⟨k, hk, hsv⟩ := h.edit hv
      obtain ⟨m, hm, ht⟩ := ih hsv hrest
      exact ⟨m, by simp only [List.length_cons]; omega, ht⟩

theorem aligned_self (s : List Char) : Aligned s s 0 := by
  induction s using List.reverseRecOn with
  | nil => exact .nil
  | append_singleton s c ih => simpa using ih.pair c c

-- Some script of as many edits as the distance turns the source into the target, and no script of
-- fewer edits does.
theorem editDistance_isLeast (source target : String) :
    IsLeast {n | ∃ script : List Edit,
      Edit.performAll? source.toList script = some target.toList ∧ script.length = n}
      (editDistance source target) := by
  have hnearest := nearest_editDistance source target
  refine ⟨Edit.exists_script hnearest.1, ?_⟩
  rintro n ⟨script, hscript, rfl⟩
  obtain ⟨m, hm, haligned⟩ := (aligned_self source.toList).script hscript
  have := hnearest.2 haligned
  omega

end SpriteCompiler.Text
