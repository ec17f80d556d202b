/-!
# Encodings of ranges of code points

UTF-8 writes a code point as a leading byte and up to three more bytes of six bits each. A range of code points
is a sequence of ranges of bytes where all its bytes but the last run through the whole of their values behind
the first one that varies; any other range is cut into such pieces.
-/

namespace Relength.Unicode

/-- A range for each byte of an encoding. -/
abbrev ByteRanges := List (Nat × Nat)

/-- The codes from `first` to `last` with `n` bytes behind the leading one, in increasing order. The leading
byte holds `lead` and what does not go into the others. -/
def encodePiece (lead : Nat) : Nat → Nat → Nat → List ByteRanges
  | 0, first, last => [[(lead + first, lead + last)]]
  | n + 1, first, last =>
    let size := Nat.pow 64 (n + 1)
    let under (byte first last : Nat) : List ByteRanges :=
      (encodePiece 0x80 n first last).map ((lead + byte, lead + byte) :: ·)
    let low := first / size
    let high := last / size
    if low = high then under low (first % size) (last % size)
    else
      let (opening, low) :=
        if first % size = 0 then ([], low) else (under low (first % size) (size - 1), low + 1)
      let (closing, stop) :=
        if last % size = size - 1 then ([], high + 1) else (under high 0 (last % size), high)
      let whole :=
        if low < stop then [(lead + low, lead + stop - 1) :: List.replicate (n + 1) (0x80, 0xBF)] else []
      opening ++ whole ++ closing

/-- The encodings of the characters from `first` to `last`, in increasing order. Surrogates have none. -/
def encodings (first last : Nat) : List ByteRanges :=
  let piece (low high lead n : Nat) : List ByteRanges :=
    if max first low ≤ min last high then encodePiece lead n (max first low) (min last high) else []
  piece 0 0x7F 0 0 ++ piece 0x80 0x7FF 0xC0 1 ++ piece 0x800 0xD7FF 0xE0 2 ++ piece 0xE000 0xFFFF 0xE0 2 ++
    piece 0x10000 0x10FFFF 0xF0 3

end Relength.Unicode
