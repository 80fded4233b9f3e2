import Mathlib.Tactic

namespace SpriteCompiler.Number

open Float.Model

theorem compare_swap (a b : UnpackedFloat) : b.compare a = (a.compare b).map Ordering.swap := by
  have hfinite (m m' : Nat) (e e' : Int) : (compare e' e).then (compare m' m) =
      ((compare e e').then (compare m m')).swap := by
    rw [Ordering.swap_then, Std.OrientedOrd.eq_swap (a := e') (b := e),
      Std.OrientedOrd.eq_swap (a := m') (b := m)]
  -- only two finite numbers of one sign are compared by what they hold
  obtain (_ | _) | _ | (_ | _) | ⟨_ | _, m, e, hm⟩ := a <;>
    obtain (_ | _) | _ | (_ | _) | ⟨_ | _, m', e', hm'⟩ := b <;>
      first
      | rfl
      | exact congrArg some (hfinite m m' e e')
      | exact congrArg (fun order => some order.swap) (hfinite m m' e e')

theorem exists_compare {a b : UnpackedFloat} (ha : a.isNaN = false) (hb : b.isNaN = false) :
    ∃ order, a.compare b = some order := by
  obtain (_ | _) | _ | (_ | _) | ⟨_ | _, m, e, hm⟩ := a <;>
    obtain (_ | _) | _ | (_ | _) | ⟨_ | _, m', e', hm'⟩ := b <;>
      first
      | exact ⟨_, rfl⟩
      | exact absurd ha (by decide)
      | exact absurd hb (by decide)

theorem le_eq_not_lt {x y : Float} (hx : x.isNaN = false) (hy : y.isNaN = false) :
    decide (x ≤ y) = !decide (y < x) := by
  obtain ⟨order, horder⟩ := exists_compare hx hy
  have hswap := compare_swap x.toModel.unpack y.toModel.unpack
  have hle : decide (x ≤ y) = x.toModel.unpack.le y.toModel.unpack := by
    rw [Bool.eq_iff_iff, decide_eq_true_iff]
    exact decide_eq_true_iff
  have hlt : decide (y < x) = y.toModel.unpack.lt x.toModel.unpack := by
    rw [Bool.eq_iff_iff, decide_eq_true_iff]
    exact decide_eq_true_iff
  rw [hle, hlt, UnpackedFloat.le, UnpackedFloat.lt, hswap, horder]
  cases order <;> rfl

end SpriteCompiler.Number
