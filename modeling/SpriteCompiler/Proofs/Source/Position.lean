import SpriteCompiler.Proofs.Source.LineStarts

namespace SpriteCompiler

-- A text taken apart at an offset: the lines that are over before it, the characters after them that
-- end at or before it, and the rest, whose first character ends after it.
structure Cut (text : List Char) (offset : Nat) where
  lines : List Char
  current : List Char
  rest : List Char
  eq_append : text = lines ++ current ++ rest
  lines_end : lines = [] ∨ ∃ cs, lines = cs ++ ['\n']
  newline_notMem : '\n' ∉ current
  byteLength_le : byteLength (lines ++ current) ≤ offset
  lt_byteLength : ∀ c ∈ rest.head?, offset < byteLength (lines ++ current) + c.utf8Size

-- The characters that end at or before the offset.
def Cut.before {text : List Char} {offset : Nat} (cut : Cut text offset) : List Char :=
  cut.lines ++ cut.current

namespace Cut

variable {text : List Char} {offset : Nat} (cut : Cut text offset)

end Cut

namespace SourceFile

variable {offset : Nat} {text : String} (name : String) (cut : Cut text.toList offset)

end SourceFile

namespace Cut

-- If some beginning of the text ends at the offset, it is what lies before the cut.
theorem before_eq {text pre post : List Char} {offset : Nat} (cut : Cut text offset)
    (h : text = pre ++ post) (hoffset : byteLength pre = offset) : cut.before = pre := by
  have heq : cut.before ++ cut.rest = pre ++ post := cut.eq_append.symm.trans h
  have hle : byteLength cut.before ≤ offset := cut.byteLength_le
  obtain ⟨mid, rfl⟩ := append_of_byteLength_le heq (hoffset ▸ hle)
  cases mid with
  | nil => simp
  | cons c mid =>
      rw [List.append_assoc] at heq
      have hrest : cut.rest = c :: mid ++ post := List.append_cancel_left heq
      have hlt : offset < byteLength cut.before + c.utf8Size :=
        cut.lt_byteLength c (by rw [hrest]; rfl)
      rw [byteLength_append, byteLength] at hoffset
      omega

-- An offset lies between two characters if the characters before it fill the bytes up to it.
theorem isValid_iff {text : String} {offset : Nat} (cut : Cut text.toList offset) :
    String.Pos.Raw.IsValid text ⟨offset⟩ ↔ byteLength cut.before = offset := by
  rw [String.Pos.Raw.isValid_iff_exists_append]
  constructor
  · rintro ⟨s, t, htext, hoffset⟩
    have hbytes : byteLength s.toList = offset := by
      rw [← utf8ByteSize_eq_byteLength]
      exact (congrArg String.Pos.Raw.byteIdx hoffset).symm
    rw [cut.before_eq (by rw [htext, String.toList_append]) hbytes, hbytes]
  · intro hboundary
    refine ⟨.ofList cut.before, .ofList cut.rest, ?_, ?_⟩
    · rw [← String.ofList_append, before, ← cut.eq_append, String.ofList_toList]
    · rw [String.Pos.Raw.ext_iff, String.byteIdx_rawEndPos, utf8ByteSize_eq_byteLength,
        String.toList_ofList, hboundary]

end Cut

namespace Cut

-- The numbers of an offset's line and column are what one counts in the text: for the line, the newlines
-- that end at or before the offset; for the column, the characters after the last of them, or the bytes
-- if the offset lies inside a character. Both are counted from 1.
structure IsAt {text : String} {offset : Nat} (cut : Cut text.toList offset) (line column : Nat) :
    Prop where
  line_eq : line = 1 + cut.before.count '\n'
  column_of_isValid : String.Pos.Raw.IsValid text ⟨offset⟩ → column = 1 + cut.current.length
  column_of_not_isValid : ¬ String.Pos.Raw.IsValid text ⟨offset⟩ →
    column = 1 + (offset - byteLength cut.lines)

variable {text : String} {offset line column : Nat} {cut : Cut text.toList offset}

theorem IsAt.line_le (h : cut.IsAt line column) : line ≤ offset + 1 := by
  have hcount : cut.before.count '\n' ≤ cut.before.length := List.count_le_length
  have hlength := length_le_byteLength cut.before
  have hle : byteLength cut.before ≤ offset := cut.byteLength_le
  rw [h.line_eq]
  omega

theorem IsAt.column_le (h : cut.IsAt line column) : column ≤ offset + 1 := by
  by_cases hvalid : String.Pos.Raw.IsValid text ⟨offset⟩
  · have hlength := length_le_byteLength cut.current
    have hle := cut.byteLength_le
    rw [byteLength_append] at hle
    rw [h.column_of_isValid hvalid]
    omega
  · rw [h.column_of_not_isValid hvalid]
    omega

theorem IsAt.lt_size (h : cut.IsAt line column) (hoffset : offset + 1 < UInt32.size) :
    line < UInt32.size ∧ column < UInt32.size :=
  ⟨h.line_le.trans_lt hoffset, h.column_le.trans_lt hoffset⟩

end Cut

-- A part without newlines at the end of complete lines is empty.
theorem eq_nil_of_lines_end {cs ds : List Char} (h : cs ++ ds = [] ∨ ∃ es, cs ++ ds = es ++ ['\n'])
    (hds : '\n' ∉ ds) : ds = [] := by
  obtain h | ⟨es, h⟩ := h
  · exact (List.append_eq_nil_iff.mp h).2
  · obtain rfl | ⟨ds, d, rfl⟩ := List.eq_nil_or_concat' ds
    · rfl
    · rw [← List.append_assoc] at h
      obtain ⟨-, hd⟩ := List.append_inj' h rfl
      simp_all

-- There is one way to set off the last line.
theorem split_line_unique {lines current lines' current' : List Char}
    (h : lines ++ current = lines' ++ current')
    (hlines : lines = [] ∨ ∃ cs, lines = cs ++ ['\n'])
    (hlines' : lines' = [] ∨ ∃ cs, lines' = cs ++ ['\n'])
    (hcurrent : '\n' ∉ current) (hcurrent' : '\n' ∉ current') :
    lines = lines' ∧ current = current' := by
  obtain ⟨mid, rfl, rfl⟩ | ⟨mid, rfl, rfl⟩ := List.append_eq_append_iff.mp h
  · obtain rfl := eq_nil_of_lines_end hlines' (fun hmid => hcurrent (List.mem_append_left _ hmid))
    simp
  · obtain rfl := eq_nil_of_lines_end hlines (fun hmid => hcurrent' (List.mem_append_left _ hmid))
    simp

-- Reading on from one boundary to another moves the numbers on.
theorem Cut.IsAt.before {text : String} {offset offset' line line' column column' : Nat}
    {cut : Cut text.toList offset} {cut' : Cut text.toList offset'} (h : cut.IsAt line column)
    (h' : cut'.IsAt line' column') (hvalid : String.Pos.Raw.IsValid text ⟨offset⟩)
    (hvalid' : String.Pos.Raw.IsValid text ⟨offset'⟩) (hlt : offset < offset') :
    line < line' ∨ line = line' ∧ column < column' := by
  have hbytes := cut.isValid_iff.mp hvalid
  have hbytes' := cut'.isValid_iff.mp hvalid'
  have heq : cut.before ++ cut.rest = cut'.before ++ cut'.rest :=
    cut.eq_append.symm.trans cut'.eq_append
  obtain ⟨mid, hmid⟩ := append_of_byteLength_le heq (by omega)
  have hcount : cut'.before.count '\n' = cut.before.count '\n' + mid.count '\n' := by
    rw [hmid, List.count_append]
  rw [h.line_eq, h'.line_eq, h.column_of_isValid hvalid, h'.column_of_isValid hvalid']
  by_cases hnewline : '\n' ∈ mid
  · have := List.count_pos_iff.mpr hnewline
    omega
  · -- both are on one line, which is longer before the later offset
    have hcurrent : '\n' ∉ cut.current ++ mid := by
      simpa [cut.newline_notMem] using hnewline
    have hsplit : cut'.lines ++ cut'.current = cut.lines ++ (cut.current ++ mid) := by
      rw [← List.append_assoc]
      exact hmid
    obtain ⟨-, hlonger⟩ := split_line_unique hsplit cut'.lines_end cut.lines_end
      cut'.newline_notMem hcurrent
    have hne : mid ≠ [] := by
      rintro rfl
      rw [List.append_nil] at hmid
      rw [hmid] at hbytes'
      omega
    have hlength := List.length_pos_iff.mpr hne
    have hzero := List.count_eq_zero.mpr hnewline
    rw [hlonger, List.length_append]
    omega

namespace SourceMap

end SourceMap

end SpriteCompiler
