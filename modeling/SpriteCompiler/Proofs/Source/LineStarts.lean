import SpriteCompiler.Source.SourceMap
import Mathlib.Tactic

namespace SpriteCompiler

section Search

variable {xs : Array Nat} {x : Nat}

end Search

namespace SourceFile

variable {f : SourceFile} {offset line : Nat}

end SourceFile

-- The bytes that characters take up.
def byteLength : List Char → Nat
  | [] => 0
  | c :: cs => c.utf8Size + byteLength cs

section Bytes

variable {cs ds : List Char}

theorem byteLength_append (cs ds : List Char) :
    byteLength (cs ++ ds) = byteLength cs + byteLength ds := by
  induction cs with
  | nil => simp [byteLength]
  | cons c cs ih => simp only [List.cons_append, byteLength, ih]; omega

theorem length_le_byteLength (cs : List Char) : cs.length ≤ byteLength cs := by
  induction cs with
  | nil => simp
  | cons c cs ih =>
      have := c.utf8Size_pos
      simp only [List.length_cons, byteLength]
      omega

theorem utf8ByteSize_eq_byteLength (s : String) : s.utf8ByteSize = byteLength s.toList := by
  suffices h : ∀ cs, (String.ofList cs).utf8ByteSize = byteLength cs by
    rw [← h, String.ofList_toList]
  intro cs
  induction cs with
  | nil => simp [byteLength]
  | cons c cs ih =>
      rw [← List.singleton_append, String.ofList_append, String.utf8ByteSize_append, ih]
      simp [byteLength]

-- Beginnings of one text are told apart by their bytes.
theorem append_of_byteLength_le {cs' ds' : List Char} (h : cs ++ ds = cs' ++ ds')
    (hle : byteLength cs ≤ byteLength cs') : ∃ mid, cs' = cs ++ mid := by
  obtain ⟨mid, hcs, -⟩ | ⟨mid, hcs, -⟩ := List.append_eq_append_iff.mp h
  · exact ⟨mid, hcs⟩
  · have hmid := length_le_byteLength mid
    rw [hcs, byteLength_append] at hle
    obtain rfl : mid = [] := List.length_eq_zero_iff.mp (by omega)
    exact ⟨[], by simp [hcs]⟩

end Bytes

section LineStarts

variable {o : Nat} {cs ds : List Char}

end LineStarts

end SpriteCompiler
