/-
  ProgramHost.Text.Quoted

  Text between quotation marks, on one line, with every character visible.

  Five characters have short escapes beside the zero character: tab, carriage
  return, line feed, the quotation mark and the backslash. Every other concealed
  character is written by its number in hexadecimal. All else is kept.
-/

import ProgramHost.Text.Concealed

namespace ProgramHost
namespace Quoted

/-- The quotation mark. -/
def mark : Char := '\x22'

/-- The character that starts an escape. -/
def backslash : Char := '\x5c'

/-- The escape of a character by its number: lowercase hexadecimal digits without
    leading zeros, in braces. -/
def byNumber (c : Char) : List Char :=
  [backslash, 'u', '\x7b'] ++ Nat.toDigits 16 c.toNat ++ ['\x7d']

/-- The written form of a character. -/
def escape (c : Char) : List Char :=
  if c = '\x00' then [backslash, '0']
  else if c = '\x09' then [backslash, 't']
  else if c = '\x0d' then [backslash, 'r']
  else if c = '\x0a' then [backslash, 'n']
  else if c = mark ∨ c = backslash then [backslash, c]
  else if isConcealed c then byNumber c
  else [c]

/-- The written form of a text. -/
def quote (cs : List Char) : List Char := [mark] ++ cs.flatMap escape ++ [mark]

end Quoted
end ProgramHost
