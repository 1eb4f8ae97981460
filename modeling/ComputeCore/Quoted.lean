import ComputeCore.Quoted.Hidden
/-!
# Quoted text

Names are quoted in logs so that they can be read back: quotes and backslashes are escaped, and so
are characters that would not show, such as control characters, unusual blanks, formatting marks
and marks that combine with the character before them.
-/

namespace ComputeCore.Quoted

/-- Whether a character shows by itself. -/
def shows (c : Char) : Bool :=
  !hidden.any fun range => range.1 ≤ c.toNat && c.toNat ≤ range.2

/-- A character as it stands between quotes. -/
def escape (c : Char) : String :=
  match c.toNat with
  | 0 => "\\0"
  | 9 => "\\t"
  | 10 => "\\n"
  | 13 => "\\r"
  | 34 => "\\\""
  | 92 => "\\\\"
  | code =>
    if shows c then c.toString
    else "\\u\x7b" ++ String.ofList (Nat.toDigits 16 code) ++ "\x7d"

/-- A text between quotes. -/
def quote (text : String) : String :=
  "\"" ++ String.join (text.toList.map escape) ++ "\""

end ComputeCore.Quoted
