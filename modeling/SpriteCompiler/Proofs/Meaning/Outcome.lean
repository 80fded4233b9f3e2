import Mathlib.Tactic.Common

namespace SpriteCompiler

-- How a run ends. Loops without a count are given a number of rounds, so that two ways to run can be
-- compared side by side.
inductive Outcome (σ : Type) where
  -- what comes next is run
  | next (s : σ)
  -- nothing more is run
  | done (s : σ)
  -- a loop was cut off
  | cut (s : σ)
  -- there is nothing that could be run
  | stuck

namespace Outcome

variable {σ τ : Type}

def bind (a : Outcome σ) (f : σ → Outcome σ) : Outcome σ :=
  match a with
  | .next s => f s
  | .done s => .done s
  | .cut s => .cut s
  | .stuck => .stuck

-- Something that is run with a value, if there is one.
def given {α : Type} (a : Option α) (f : α → Outcome σ) : Outcome σ :=
  a.elim .stuck f

-- A body as often as a count says.
def times (body : σ → Outcome σ) : Nat → σ → Outcome σ
  | 0, s => .next s
  | k + 1, s => (body s).bind (times body k)

-- A body as long as a test holds, and for a number of rounds at most.
def loop (test : σ → Option Bool) (body : σ → Outcome σ) : Nat → σ → Outcome σ
  | 0, s => .cut s
  | k + 1, s => given (test s) fun holds => if holds then (body s).bind (loop test body k) else .next s

@[simp]
theorem bind_next (a : Outcome σ) : a.bind .next = a := by
  cases a <;> rfl

theorem bind_assoc (a : Outcome σ) (f g : σ → Outcome σ) :
    (a.bind f).bind g = a.bind fun s => (f s).bind g := by
  cases a <;> rfl

-- Two runs end in the same way, with states that belong together.
inductive Related (next done cut : σ → τ → Prop) : Outcome σ → Outcome τ → Prop
  | next {s : σ} {w : τ} (h : next s w) : Related next done cut (.next s) (.next w)
  | done {s : σ} {w : τ} (h : done s w) : Related next done cut (.done s) (.done w)
  | cut {s : σ} {w : τ} (h : cut s w) : Related next done cut (.cut s) (.cut w)

namespace Related

variable {next next' done cut : σ → τ → Prop} {a : Outcome σ} {b : Outcome τ}
  {f : σ → Outcome σ} {g : τ → Outcome τ}

theorem bind (h : Related next done cut a b)
    (hnext : ∀ s w, next s w → Related next' done cut (f s) (g w)) :
    Related next' done cut (a.bind f) (b.bind g) := by
  cases h with
  | next h => exact hnext _ _ h
  | done h => exact .done h
  | cut h => exact .cut h

theorem mono (h : Related next done cut a b) (hnext : ∀ s w, next s w → next' s w) :
    Related next' done cut a b := by
  cases h with
  | next h => exact .next (hnext _ _ h)
  | done h => exact .done h
  | cut h => exact .cut h

-- What one round keeps, a loop keeps.

theorem times (h : ∀ s w, next s w → Related next done cut (f s) (g w)) (k : Nat) {s : σ} {w : τ}
    (hs : next s w) : Related next done cut (times f k s) (times g k w) := by
  induction k generalizing s w with
  | zero => exact .next hs
  | succ k ih => exact (h s w hs).bind fun s w hs => ih hs

theorem loop {test : σ → Bool} {test' : τ → Option Bool}
    (htest : ∀ s w, next s w → test' w = some (test s))
    (h : ∀ s w, next s w → Related next done cut (f s) (g w))
    (hcut : ∀ s w, next s w → cut s w) (k : Nat) {s : σ} {w : τ} (hs : next s w) :
    Related next done cut (loop (fun s => some (test s)) f k s) (loop test' g k w) := by
  induction k generalizing s w with
  | zero => exact .cut (hcut s w hs)
  | succ k ih =>
      simp only [Outcome.loop, htest s w hs, given, Option.elim_some]
      by_cases hholds : test s
      · simp only [hholds, if_true]
        exact (h s w hs).bind fun s w hs => ih hs
      · simp only [hholds, Bool.false_eq_true, if_false]
        exact .next hs

end Related

end Outcome

end SpriteCompiler
