import AnonymousTypes.Text.Hidden

/-!
# Quoted text

How diagnostics and debug output show a text unambiguously: between double
quotes, with a backslash before the quote and the backslash itself, the short
spellings `\0`, `\t`, `\r` and `\n`, and every other hidden character by its
hexadecimal number in braces after `\u`. A single quote needs no escape.
-/

namespace AnonymousTypes.Text

/-- The number in lower-case hexadecimal, without leading zeros. -/
def hexDigits (code : Nat) : List Char := Nat.toDigits 16 code

/-- How one character is written between the quotes. -/
def quoteChar (c : Char) : List Char :=
  if c = '\x00' then ['\\', '0']
  else if c = '\t' then ['\\', 't']
  else if c = '\r' then ['\\', 'r']
  else if c = '\n' then ['\\', 'n']
  else if c = '"' then ['\\', '"']
  else if c = '\\' then ['\\', '\\']
  else if isHidden c then ['\\', 'u', '\x7b'] ++ hexDigits c.toNat ++ ['\x7d']
  else [c]

/-- The text between double quotes, escaped. -/
def quote (text : String) : String :=
  String.ofList ('"' :: text.toList.flatMap quoteChar ++ ['"'])

end AnonymousTypes.Text
