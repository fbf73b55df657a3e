namespace ClassSchema.Text

/-- The pieces between the occurrences of `sep`. There is always one more piece than separators. -/
def pieces (sep : Char) : List Char → List (List Char)
  | [] => [[]]
  | c :: cs =>
    if c = sep then [] :: pieces sep cs
    else
      match pieces sep cs with
      | [] => [[c]]
      | p :: ps => (c :: p) :: ps

def splitFirst (sep : Char) (cs : List Char) : List Char × List Char :=
  (cs.takeWhile (· ≠ sep), (cs.dropWhile (· ≠ sep)).drop 1)

/-- What stands before the last occurrence of `sep` and after it. Without one, nothing stands
before. -/
def splitLast (sep : Char) (cs : List Char) : List Char × List Char :=
  let after := (cs.reverse.takeWhile (· ≠ sep)).reverse
  ((cs.reverse.drop (after.length + 1)).reverse, after)

example : pieces '.' "a..b".toList = ["a".toList, [], "b".toList] := by decide

end ClassSchema.Text
