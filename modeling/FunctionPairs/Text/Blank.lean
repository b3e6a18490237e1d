/-!
White space in the sense of Unicode's `White_Space` property, and trimming by it.
`trim` keeps what lies between the first and the last character that is not blank.
-/
namespace FunctionPairs

/-- The 25 code points of the property. -/
def isBlank (c : Char) : Bool :=
  let n := c.toNat
  (9 ≤ n && n ≤ 13) || n = 32 || n = 0x85 || n = 0xA0 || n = 0x1680 ||
    (0x2000 ≤ n && n ≤ 0x200A) || n = 0x2028 || n = 0x2029 || n = 0x202F ||
    n = 0x205F || n = 0x3000

namespace Text

def dropEndWhile (p : Char → Bool) (s : List Char) : List Char :=
  (s.reverse.dropWhile p).reverse

def trimEndChars (s : List Char) : List Char := dropEndWhile isBlank s

def trimChars (s : List Char) : List Char := trimEndChars (s.dropWhile isBlank)

def trim (s : String) : String := String.ofList (trimChars s.toList)

def trimEnd (s : String) : String := String.ofList (trimEndChars s.toList)

def isAllBlank (s : String) : Bool := s.toList.all isBlank

def strip (p : Char → Bool) (s : String) : String :=
  String.ofList (dropEndWhile p (s.toList.dropWhile p))

def splitChars (sep : Char) : List Char → List (List Char)
  | [] => [[]]
  | c :: cs =>
    if c = sep then [] :: splitChars sep cs
    else match splitChars sep cs with
      | [] => [[c]]
      | piece :: pieces => (c :: piece) :: pieces

def split (sep : Char) (s : String) : List String :=
  (splitChars sep s.toList).map String.ofList

def byteLength (s : String) : Nat := s.utf8ByteSize

end Text
end FunctionPairs
