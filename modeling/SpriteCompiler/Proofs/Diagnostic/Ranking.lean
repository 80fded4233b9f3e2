import SpriteCompiler.Diagnostic.Suggestion
import Mathlib.Tactic

namespace SpriteCompiler

open Text

-- `a` is nearer to `name` than `b`, or as near and given first.
def Precedes (name : String) (candidates : List String) (a b : String) : Prop :=
  editDistance name a < editDistance name b ∨
    editDistance name a = editDistance name b ∧ candidates.idxOf a < candidates.idxOf b

-- The candidates that may be suggested, in the order of preference.
structure Ranking (name : String) (candidates ranked : List String) : Prop where
  mem_iff : ∀ c, c ∈ ranked ↔ c ∈ candidates ∧ c ≠ name ∧ editDistance name c ≤ 3
  ordered : ranked.Pairwise (Precedes name candidates)

-- What the search for near names knows after the candidates `seen`.
structure NearAmong (name : String) (seen : List String) (near : List (String × Nat)) : Prop where
  mem_iff : ∀ c n, (c, n) ∈ near ↔ c ∈ seen ∧ c ≠ name ∧ editDistance name c = n ∧ n ≤ 3
  ordered : near.Pairwise fun a b => seen.idxOf a.1 < seen.idxOf b.1

variable {name : String} {seen candidates : List String} {near : List (String × Nat)} {c : String}

theorem NearAmong.any_iff (h : NearAmong name seen near) :
    near.any (·.1 == c) ↔ c ∈ seen ∧ c ≠ name ∧ editDistance name c ≤ 3 := by
  simp [h.mem_iff]

-- Places of names that were seen stay what they were.
theorem NearAmong.ordered_snoc (h : NearAmong name seen near) (c : String) :
    near.Pairwise fun a b => (seen ++ [c]).idxOf a.1 < (seen ++ [c]).idxOf b.1 := by
  refine h.ordered.imp_of_mem fun {a b} ha hb hab => ?_
  have hseen {a : String × Nat} (ha : a ∈ near) : a.1 ∈ seen := ((h.mem_iff a.1 a.2).mp ha).1
  rwa [List.idxOf_append_of_mem (hseen ha), List.idxOf_append_of_mem (hseen hb)]

theorem NearAmong.addNearName (h : NearAmong name seen near) (c : String) :
    NearAmong name (seen ++ [c]) (addNearName name near c) := by
  rw [SpriteCompiler.addNearName]
  split
  · -- the candidate is passed over, being the name itself or already kept
    next hskip =>
      refine ⟨fun x n => ?_, h.ordered_snoc c⟩
      rw [Bool.or_eq_true, beq_iff_eq, h.any_iff] at hskip
      rw [h.mem_iff]
      grind
  · next hskip =>
      rw [Bool.or_eq_true, beq_iff_eq, h.any_iff, not_or] at hskip
      dsimp only
      split
      · next hnear =>
          have hnew : c ∉ seen := fun hc => hskip.2 ⟨hc, hskip.1, hnear⟩
          refine ⟨fun x n => ?_,
            List.pairwise_append.mpr ⟨h.ordered_snoc c, List.pairwise_singleton _ _, ?_⟩⟩
          · rw [List.mem_append, h.mem_iff]
            simp only [maxSuggestionDistance] at hnear
            grind
          · intro a ha b hb
            obtain rfl := List.mem_singleton.mp hb
            have hseen : a.1 ∈ seen := ((h.mem_iff a.1 a.2).mp ha).1
            rw [List.idxOf_append_of_mem hseen, List.idxOf_append_of_notMem hnew]
            have := List.idxOf_lt_length_iff.mpr hseen
            omega
      · next hfar =>
          refine ⟨fun x n => ?_, h.ordered_snoc c⟩
          simp only [maxSuggestionDistance] at hfar
          rw [h.mem_iff]
          grind

theorem nearAmong_nearNames (name : String) (candidates : List String) :
    NearAmong name candidates (nearNames name candidates) := by
  induction candidates using List.reverseRecOn with
  | nil => exact ⟨by simp [nearNames], .nil⟩
  | append_singleton seen c ih =>
      rw [nearNames, List.foldl_append]
      exact ih.addNearName c

section StableSort

variable {α : Type} (key : α → Nat)

-- Sorting by a key leaves the items of each key as they were.
theorem filter_mergeSort (l : List α) (k : Nat) :
    (l.mergeSort fun a b => key a ≤ key b).filter (key · = k) = l.filter (key · = k) := by
  have hsame : (l.filter (key · = k)).Pairwise fun a b => decide (key a ≤ key b) = true := by
    refine List.pairwise_of_forall_mem_list fun a ha b hb => ?_
    simp only [List.mem_filter, decide_eq_true_eq] at ha hb ⊢
    omega
  have hsublist := List.sublist_mergeSort (fun a b c => by simpa using Nat.le_trans)
    (fun a b => by simpa using Nat.le_total _ _) hsame List.filter_sublist
  have hkept := hsublist.filter (key · = k)
  rw [List.filter_filter, List.filter_congr fun a _ => Bool.and_self _] at hkept
  have hlength := ((List.mergeSort_perm l fun a b => key a ≤ key b).filter (key · = k)).length_eq
  exact (hkept.eq_of_length hlength.symm).symm

theorem pairwise_mergeSort_of_pairwise {R : α → α → Prop} {l : List α} (h : l.Pairwise R) :
    (l.mergeSort fun a b => key a ≤ key b).Pairwise fun a b =>
      key a < key b ∨ key a = key b ∧ R a b := by
  have hsorted : (l.mergeSort fun a b => key a ≤ key b).Pairwise fun a b => decide (key a ≤ key b) :=
    List.pairwise_mergeSort (fun a b c => by simpa using Nat.le_trans)
      (fun a b => by simpa using Nat.le_total _ _) l
  rw [List.pairwise_iff_forall_sublist] at hsorted ⊢
  intro a b hab
  have hle : key a ≤ key b := by simpa using hsorted hab
  obtain hlt | heq := Nat.lt_or_eq_of_le hle
  · exact .inl hlt
  · -- the two are among the items of one key, whose order is that of `l`
    have hpair := hab.filter (key · = key b)
    rw [filter_mergeSort] at hpair
    simp only [heq, decide_true, List.filter_cons_of_pos, List.filter_nil] at hpair
    exact .inr ⟨heq, List.pairwise_iff_forall_sublist.mp h (hpair.trans List.filter_sublist)⟩

end StableSort

theorem Precedes.asymm {a b : String} (h : Precedes name candidates a b) :
    ¬ Precedes name candidates b a := by
  unfold Precedes at h ⊢
  omega

theorem Ranking.nodup {ranked : List String} (h : Ranking name candidates ranked) : ranked.Nodup :=
  h.ordered.imp fun hab heq => (heq ▸ hab).asymm (heq ▸ hab)

theorem Ranking.unique {ranked ranked' : List String} (h : Ranking name candidates ranked)
    (h' : Ranking name candidates ranked') : ranked = ranked' := by
  have hperm : ranked.Perm ranked' :=
    (List.perm_ext_iff_of_nodup h.nodup h'.nodup).mpr fun c => by rw [h.mem_iff, h'.mem_iff]
  exact hperm.eq_of_pairwise (fun a b _ _ hab hba => absurd hba hab.asymm) h.ordered h'.ordered

-- All near names, the nearest first.
def rankedNames (name : String) (candidates : List String) : List String :=
  ((nearNames name candidates).mergeSort fun a b => a.2 ≤ b.2).map (·.1)

theorem suggest_eq_take (name : String) (candidates : List String) :
    suggest name candidates = (rankedNames name candidates).take 3 :=
  List.map_take

theorem ranking_rankedNames (name : String) (candidates : List String) :
    Ranking name candidates (rankedNames name candidates) := by
  have hnear := nearAmong_nearNames name candidates
  constructor
  · intro c
    simp [rankedNames, hnear.mem_iff]
  · rw [rankedNames, List.pairwise_map]
    have hordered := pairwise_mergeSort_of_pairwise Prod.snd hnear.ordered
    refine hordered.imp_of_mem fun {a b} ha hb hab => ?_
    have hdistance {a : String × Nat}
        (ha : a ∈ (nearNames name candidates).mergeSort fun a b => a.2 ≤ b.2) :
        editDistance name a.1 = a.2 :=
      ((hnear.mem_iff a.1 a.2).mp (List.mem_mergeSort.mp ha)).2.2.1
    rwa [Precedes, hdistance ha, hdistance hb]

-- A name that is ranked and not suggested comes after all that are.
theorem Ranking.precedes_of_not_mem_take {ranked : List String} (h : Ranking name candidates ranked)
    {n : Nat} {a b : String} (ha : a ∈ ranked.take n) (hb : b ∈ ranked) (hout : b ∉ ranked.take n) :
    Precedes name candidates a b := by
  have hsplit := h.ordered
  rw [← List.take_append_drop n ranked, List.pairwise_append] at hsplit
  refine hsplit.2.2 a ha b ?_
  rw [← List.take_append_drop n ranked, List.mem_append] at hb
  exact hb.resolve_left hout

-- There is one ranking of the near candidates, and what is suggested is its beginning, three names or
-- all if there are fewer. So no name is suggested twice and never the name itself, and every other
-- candidate that is left out comes after those that are kept.
theorem suggest_takes_nearest (name : String) (candidates : List String) :
    ∃ ranked, Ranking name candidates ranked ∧ ranked.Nodup ∧
      (∀ other, Ranking name candidates other → other = ranked) ∧
      suggest name candidates = ranked.take (min 3 ranked.length) ∧
      (suggest name candidates).length = min 3 ranked.length ∧
      (suggest name candidates).Nodup ∧ name ∉ suggest name candidates ∧
      ∀ kept ∈ suggest name candidates, ∀ c ∈ candidates, c ≠ name →
        c ∉ suggest name candidates → Precedes name candidates kept c := by
  have hranking := ranking_rankedNames name candidates
  have hmem {c : String} (hc : c ∈ suggest name candidates) :
      c ≠ name ∧ editDistance name c ≤ 3 := by
    rw [suggest_eq_take] at hc
    exact ((hranking.mem_iff c).mp (List.mem_of_mem_take hc)).2
  refine ⟨_, hranking, hranking.nodup, fun other hother => hother.unique hranking, ?_, ?_, ?_, ?_, ?_⟩
  · rw [suggest_eq_take, ← List.take_eq_take_min]
  · rw [suggest_eq_take, List.length_take]
  · rw [suggest_eq_take]
    exact hranking.nodup.sublist (List.take_sublist _ _)
  · exact fun hname => (hmem hname).1 rfl
  · intro kept hkept c hc hne hout
    by_cases hnear : editDistance name c ≤ 3
    · rw [suggest_eq_take] at hkept hout
      exact hranking.precedes_of_not_mem_take hkept ((hranking.mem_iff c).mpr ⟨hc, hne, hnear⟩) hout
    · have hkept := (hmem hkept).2
      exact .inl (by omega)

end SpriteCompiler
