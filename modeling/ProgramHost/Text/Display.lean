/-
  ProgramHost.Text.Display

  How a string in memory is shown to people: as plain text (`display`) and in
  quotes for inspection (`debug`). Both are given as UTF-8.
-/

import ProgramHost.Block
import ProgramHost.Text.Quoted
import ProgramHost.Text.Utf8

namespace ProgramHost
namespace Block

/-- The content as well-formed text. -/
def display (s : Block) : Bytes := Utf8.repair s.content

/-- The content as quoted text, under the name of the type. -/
def debug (s : Block) : Bytes :=
  Utf8.encode ("RtStr(".toList ++ Quoted.quote (Utf8.decode s.content) ++ [')'])

end Block
end ProgramHost
