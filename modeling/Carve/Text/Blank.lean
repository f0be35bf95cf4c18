/-!
Blank characters and the trimming and squeezing of text. A character is blank when it has the
Unicode property White_Space; every text of the library is trimmed by this one class.
-/

namespace Carve.Text

def isBlank (c : Char) : Bool :=
  let n := c.toNat
  (9 ≤ n && n ≤ 13) || n == 0x20 || n == 0x85 || n == 0xA0 || n == 0x1680 ||
    (0x2000 ≤ n && n ≤ 0x200A) || n == 0x2028 || n == 0x2029 || n == 0x202F ||
    n == 0x205F || n == 0x3000

/-- The list without its longest tail of elements satisfying `p`. -/
def dropEndWhile {α : Type} (p : α → Bool) (xs : List α) : List α :=
  (xs.reverse.dropWhile p).reverse

def trimStart (cs : List Char) : List Char := cs.dropWhile isBlank

def trimEnd (cs : List Char) : List Char := dropEndWhile isBlank cs

def trim (cs : List Char) : List Char := trimEnd (trimStart cs)

def squeeze (cs : List Char) : List Char := cs.filter (!isBlank ·)

def trimmed (s : String) : String := String.ofList (trim s.toList)

def trimmedEnd (s : String) : String := String.ofList (trimEnd s.toList)

def trimmedStart (s : String) : String := String.ofList (trimStart s.toList)

end Carve.Text
