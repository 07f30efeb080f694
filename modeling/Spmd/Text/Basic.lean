/-!
# Text

Blank characters, words, lines, and the 16-bit units that lengths are counted in.
-/

namespace Spmd.Text

/-! ## Blanks -/

/-- The characters that separate words: the Unicode space separators, the line and paragraph
separators, the ASCII controls from tab to carriage return, and the byte order mark. -/
def isBlank (c : Char) : Bool :=
  let n := c.toNat
  (9 ≤ n && n ≤ 13) || n == 32 || n == 0xA0 || n == 0x1680 || (0x2000 ≤ n && n ≤ 0x200A) ||
    n == 0x2028 || n == 0x2029 || n == 0x202F || n == 0x205F || n == 0x3000 || n == 0xFEFF

def trim (s : String) : String :=
  let front := s.toList.dropWhile isBlank
  String.ofList (front.reverse.dropWhile isBlank).reverse

/-- The non-empty pieces between separators. -/
def pieces (separates : Char → Bool) (s : List Char) : List (List Char) :=
  let (last, done) := s.foldr (fun c (word, rest) =>
    if separates c then ([], if word.isEmpty then rest else word :: rest) else (c :: word, rest)) ([], [])
  if last.isEmpty then done else last :: done

def words (s : String) : List String := (pieces isBlank s.toList).map String.ofList

/-- The pieces between separators, empty ones included. -/
def split (separator : Char) (s : String) : List String :=
  let (last, done) := s.toList.foldr (fun c (word, rest) =>
    if c = separator then ([], String.ofList word :: rest) else (c :: word, rest)) ([], [])
  String.ofList last :: done

/-! ## Lines -/

/-- Every line after the first moves `depth` steps of two spaces to the right. -/
def indent (s : String) (depth : Nat) : String :=
  String.ofList (s.toList.flatMap fun c =>
    if c = '\n' then '\n' :: List.replicate (2 * depth) ' ' else [c])

def commas (parts : List String) : String := ", ".intercalate parts

def quoted (s : String) : String := "\"" ++ s ++ "\""

/-! ## 16-bit units -/

/-- Characters beyond the basic plane count as two units. -/
def units (s : String) : List Nat :=
  s.toList.flatMap fun c =>
    let n := c.toNat
    if n < 0x10000 then [n] else [0xD800 + (n - 0x10000) / 0x400, 0xDC00 + (n - 0x10000) % 0x400]

end Spmd.Text
