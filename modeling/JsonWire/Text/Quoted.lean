/-
  JsonWire.Text.Quoted — a string as a log line shows it.

  Between quotes, with the quote, the backslash and the common controls escaped by a
  letter. Every other character that would not show by itself is written as its code in
  hexadecimal: the invisible ones, and the marks that would combine with the character
  before them.
-/

import JsonWire.Text.Combining
import JsonWire.Text.Invisible

namespace JsonWire.Text

def shows (c : Char) : Bool := !isInvisible c && !isCombining c

def quotedChar (c : Char) : List Char :=
  match c with
  | '"' => ['\\', '"']
  | '\\' => ['\\', '\\']
  | '\n' => ['\\', 'n']
  | '\r' => ['\\', 'r']
  | '\t' => ['\\', 't']
  | '\x00' => ['\\', '0']
  | c => if shows c then [c] else '\\' :: 'u' :: '\x7b' :: Nat.toDigits 16 c.toNat ++ ['\x7d']

def quoted (text : String) : String :=
  String.ofList ('"' :: text.toList.flatMap quotedChar ++ ['"'])

end JsonWire.Text
