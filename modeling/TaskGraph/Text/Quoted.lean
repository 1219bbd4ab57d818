import TaskGraph.Text.Unprintable

/-!
# Texts between quotation marks

How a message shows a text: between quotation marks, with escapes for the quotation mark, the
backslash and every character that would not show as itself.
-/
namespace TaskGraph

def hexDigits (n : Nat) : List Char := Nat.toDigits 16 n

/-- A character as it stands between quotation marks. -/
def quotedChar (c : Char) : List Char :=
  match c with
  | '\x00' => ['\\', '0']
  | '\t' => ['\\', 't']
  | '\n' => ['\\', 'n']
  | '\r' => ['\\', 'r']
  | '"' => ['\\', '"']
  | '\\' => ['\\', '\\']
  | c =>
    if isUnprintable c then ['\\', 'u', '\x7b'] ++ hexDigits c.toNat ++ ['\x7d'] else [c]

def quoted (s : String) : String :=
  String.ofList (['"'] ++ s.toList.flatMap quotedChar ++ ['"'])

end TaskGraph
