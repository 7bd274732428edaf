/-
  ProgramHost.Linkage

  The calls that compiled code makes, by the symbols it is linked against, and
  the steps that they stand for. Compiled code has checked its indices, so the
  calls make the unchecked requests.
-/

import ProgramHost.Program

namespace ProgramHost

/-- Calls on strings and arrays. -/
inductive MemoryCall where
  | toString (n : Int64)
  | stringLength (s : Handle)
  | substring (s : Handle) (left right : Int64)
  | parseInt (s : Handle)
  | ord (s : Handle) (index : Int64)
  | concat (s t : Handle)
  | compare (s t : Handle)
  | arraySize (words : List Int64)
  deriving DecidableEq, Repr

namespace MemoryCall

/-- The symbol of a call. -/
def symbol : MemoryCall → String
  | .toString _ => "__toString"
  | .stringLength _ => "__string_length"
  | .substring .. => "__string_substring"
  | .parseInt _ => "__string_parseInt"
  | .ord .. => "__string_ord"
  | .concat .. => "__string_concat"
  | .compare .. => "__string_compare"
  | .arraySize _ => "__array_size"

/-- The request that a call makes. -/
def request : MemoryCall → Request
  | .toString n => .construct (.ofInt n)
  | .stringLength s => .query (.length s)
  | .substring s left right => .construct (.rangeUnchecked s left right)
  | .parseInt s => .query (.toInt s)
  | .ord s index => .query (.byteAtUnchecked s index)
  | .concat s t => .construct (.append s t)
  | .compare s t => .query (.compare s t)
  | .arraySize words => .query (.arrayLength words)

end MemoryCall

/-- Calls on the console. -/
inductive ConsoleCall where
  | print (s : Handle)
  | println (s : Handle)
  | getString
  | getInt
  deriving DecidableEq, Repr

namespace ConsoleCall

/-- The symbol of a call. -/
def symbol : ConsoleCall → String
  | .print _ => "__print"
  | .println _ => "__println"
  | .getString => "__getString"
  | .getInt => "__getInt"

/-- The step that a call takes. -/
def step : ConsoleCall → Program.Step
  | .print s => .print s false
  | .println s => .print s true
  | .getString => .getString
  | .getInt => .getInt

end ConsoleCall

end ProgramHost
