import TagLedger.Text.Basic

/-!
Cutting a text into pieces: at a separating text, or into pieces of the same length.
-/

namespace TagLedger.Text

/-- What stands before and after the first place where `sep` stands. -/
def breakOn? (sep : Text) : Text → Option (Text × Text)
  | [] => none
  | c :: t =>
    match dropPrefix? sep (c :: t) with
    | some rest => some ([], rest)
    | none => (breakOn? sep t).map fun cut => (c :: cut.1, cut.2)

/-- The first pieces between the places where `sep` stands, at most `count` of them. -/
def pieces (sep : Text) : (count : Nat) → Text → List Text
  | 0, _ => []
  | count + 1, t =>
    match breakOn? sep t with
    | none => [t]
    | some cut => cut.1 :: pieces sep count cut.2

/-- Cuts a text while a piece, whose characters so far are `begun` in reverse, has room for `room`
more. -/
def fillChunk (size : Nat) : (room : Nat) → (begun : Text) → Text → List Text
  | _, begun, [] => if begun.isEmpty then [] else [begun.reverse]
  | 0, begun, c :: t => begun.reverse :: fillChunk size (size - 1) [c] t
  | room + 1, begun, c :: t => fillChunk size room (c :: begun) t

/-- Pieces of `size` characters, the last of which may be shorter. -/
def chunksOf (size : Nat) (t : Text) : List Text := fillChunk size size [] t

theorem flatten_fillChunk (size room : Nat) (begun t : Text) :
    (fillChunk size room begun t).flatten = begun.reverse ++ t := by
  fun_induction fillChunk size room begun t with
  | case1 room begun h => simp [List.isEmpty_iff.1 h]
  | case2 => simp
  | case3 begun c t ih => simp [ih]
  | case4 room begun c t ih => simp [ih]

/-- Cutting loses nothing. -/
theorem flatten_chunksOf (size : Nat) (t : Text) : (chunksOf size t).flatten = t := by
  simp [chunksOf, flatten_fillChunk]

end TagLedger.Text
