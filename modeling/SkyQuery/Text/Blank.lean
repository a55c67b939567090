/-!
# Blanks

The white space of Unicode, and the two ways in which text is read around it: `trim` cuts it from
both ends, `words` cuts a text into the pieces that it separates.
-/

namespace SkyQuery.Text

/-- The characters with the Unicode property `White_Space`. -/
def isBlank (c : Char) : Bool :=
  let n := c.toNat
  (9 ≤ n && n ≤ 13) || n == 0x20 || n == 0x85 || n == 0xA0 || n == 0x1680 ||
    (0x2000 ≤ n && n ≤ 0x200A) || n == 0x2028 || n == 0x2029 || n == 0x202F || n == 0x205F ||
    n == 0x3000

/-- The characters from the first that is not blank. -/
def trimLeft (cs : List Char) : List Char := cs.dropWhile isBlank

/-- The characters up to the last that is not blank. -/
def trimRight (cs : List Char) : List Char := (trimLeft cs.reverse).reverse

/-- The text without the blanks at its two ends. -/
def trim (s : String) : String := String.ofList (trimRight (trimLeft s.toList))

/-- The longest runs of characters that are not blank, in order. -/
def cutWords : List Char → List (List Char)
  | [] => []
  | c :: rest =>
    if isBlank c then cutWords rest
    else
      match rest with
      | [] => [[c]]
      | d :: _ =>
        if isBlank d then [c] :: cutWords rest
        else
          match cutWords rest with
          | [] => [[c]]
          | w :: ws => (c :: w) :: ws

/-- The words of a text: what its blanks separate. -/
def words (s : String) : List String := (cutWords s.toList).map String.ofList

end SkyQuery.Text
