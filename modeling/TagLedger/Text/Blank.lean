import TagLedger.Text.Basic

/-!
The blank characters of running text, and trimming. The set is the `White_Space` property: 25
characters, more than the six that `Char.isWhitespace` knows.
-/

namespace TagLedger.Text

/-- The characters of the `White_Space` property. -/
def isBlank (c : Char) : Bool :=
  let n := c.val.toNat
  (9 ≤ n && n ≤ 13) || n == 0x20 || n == 0x85 || n == 0xA0 || n == 0x1680 ||
    (0x2000 ≤ n && n ≤ 0x200A) || n == 0x2028 || n == 0x2029 || n == 0x202F || n == 0x205F ||
    n == 0x3000

/-- The blanks that may stand inside markup tags. -/
def isAsciiBlank (c : Char) : Bool :=
  c == ' ' || c == '\t' || c == '\n' || c == '\x0c' || c == '\r'

def trimLeft (t : Text) : Text := t.dropWhile isBlank

theorem trimLeft_cons {c : Char} (h : isBlank c = false) (t : Text) :
    trimLeft (c :: t) = c :: t := by
  simp [trimLeft, h]

def trimRight (t : Text) : Text := (t.reverse.dropWhile isBlank).reverse

theorem trimRight_cons {c : Char} (h : isBlank c = false) (t : Text) :
    trimRight (c :: t) = c :: trimRight t := by
  rw [trimRight, List.reverse_cons, List.dropWhile_append]
  split
  · rename_i hblank
    simp [trimRight, List.isEmpty_iff.mp hblank, h]
  · simp [trimRight]

/-- The text without the blanks at both ends. -/
def trim (t : Text) : Text := trimRight (trimLeft t)

/-- Nothing but blanks, or nothing at all. -/
def allBlank (t : Text) : Bool := t.all isBlank

end TagLedger.Text
