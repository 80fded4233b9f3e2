namespace SpriteCompiler.Text

-- The ranges of such characters, in increasing order, ends included.
def invisibleRanges : List (Nat × Nat) :=
  [ -- controls
    (0x00, 0x1F), (0x7F, 0x9F),
    -- the no-break space and the soft hyphen
    (0xA0, 0xA0), (0xAD, 0xAD),
    -- combining marks of the European scripts
    (0x300, 0x36F), (0x483, 0x489), (0x591, 0x5BD), (0x5BF, 0x5BF), (0x5C1, 0x5C2), (0x5C4, 0x5C5),
    (0x5C7, 0x5C7),
    -- marks of the Arabic script
    (0x600, 0x605), (0x610, 0x61A), (0x61C, 0x61C), (0x64B, 0x65F), (0x670, 0x670), (0x6D6, 0x6DD),
    (0x6DF, 0x6E4), (0x6E7, 0x6E8), (0x6EA, 0x6ED), (0x70F, 0x70F), (0x711, 0x711), (0x730, 0x74A),
    -- vowel signs of the Indic scripts
    (0x900, 0x902), (0x93A, 0x93A), (0x93C, 0x93C), (0x941, 0x948), (0x94D, 0x94D), (0x951, 0x957),
    (0xE31, 0xE31), (0xE34, 0xE3A), (0xE47, 0xE4E),
    -- blanks, joiners and directional marks
    (0x1680, 0x1680), (0x180B, 0x180F), (0x1AB0, 0x1ACE), (0x1DC0, 0x1DFF), (0x2000, 0x200F),
    (0x2028, 0x202F), (0x205F, 0x206F), (0x20D0, 0x20F0), (0x3000, 0x3000), (0x302A, 0x302F),
    (0x3099, 0x309A),
    -- surrogates and the private use area
    (0xD800, 0xF8FF),
    -- variation selectors, half marks, the byte order mark and the noncharacters
    (0xFB1E, 0xFB1E), (0xFE00, 0xFE0F), (0xFE20, 0xFE2F), (0xFEFF, 0xFEFF), (0xFFF0, 0xFFFB),
    (0xFFFE, 0xFFFF), (0x1D165, 0x1D165), (0x1D167, 0x1D169), (0x1D16E, 0x1D182),
    -- tags and supplementary private use
    (0xE0000, 0xE0FFF), (0xF0000, 0x10FFFF) ]

def isInvisible (c : Char) : Bool :=
  invisibleRanges.any fun (low, high) => low ≤ c.toNat && c.toNat ≤ high

end SpriteCompiler.Text
