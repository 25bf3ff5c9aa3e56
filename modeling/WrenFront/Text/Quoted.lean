import WrenFront.Text.CombiningMark
import WrenFront.Text.Unprintable

/-! Text between quotes on one line: quotes, backslashes and line breaks are written as escapes,
and so is every character that would not show by itself. -/

namespace WrenFront.Text.Quoted

def codePoint (char : Char) : List Char :=
  ['\\', 'u', '\x7b'] ++ Nat.toDigits 16 char.toNat ++ ['\x7d']

/-- Characters from `' '` to `'~'` always show. -/
def shows (char : Char) : Bool :=
  if char.toNat < 0x7F then 0x20 ≤ char.toNat
  else !CombiningMark.contains char && !Unprintable.contains char

def escape (quote : Char) (char : Char) : List Char :=
  if char = '\x00' then ['\\', '0']
  else if char = '\t' then ['\\', 't']
  else if char = '\r' then ['\\', 'r']
  else if char = '\n' then ['\\', 'n']
  else if char = '\\' ∨ char = quote then ['\\', char]
  else if shows char then [char]
  else codePoint char

def string (text : String) : String :=
  String.ofList ('"' :: text.toList.flatMap (escape '"') ++ ['"'])

def character (char : Char) : String :=
  String.ofList ('\'' :: escape '\'' char ++ ['\''])

end WrenFront.Text.Quoted
