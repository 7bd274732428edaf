/-
  ProgramHost.Settings

  The bounds that a host works under, and the rule that a process fixes them at
  most once.
-/

import ProgramHost.Refusal

namespace ProgramHost

/-- The bounds that a host works under. -/
structure Bounds where
  /-- The longest token that a string request accepts, in bytes. -/
  tokenLimit : Nat
  deriving DecidableEq, Repr

namespace Bounds

/-- The bounds in force when none were fixed: tokens of up to 1 MiB. -/
def standard : Bounds := ⟨1048576⟩

/-- The same bounds with another token limit. -/
def withTokenLimit (b : Bounds) (limit : Nat) : Bounds := { b with tokenLimit := limit }

/-- The standard bounds with each of some token limits set in turn. -/
def build (limits : List Nat) : Bounds := limits.foldl withTokenLimit standard

/-- Whether these are the standard bounds. -/
def isStandard (b : Bounds) : Bool := b == standard

end Bounds

/-- What a process has fixed: nothing, or bounds that last. -/
structure Settings where
  fixed : Option Bounds := none
  deriving DecidableEq, Repr

namespace Settings

/-- The bounds in force. -/
def active (s : Settings) : Bounds := s.fixed.getD Bounds.standard

/-- Fixes the bounds; refused when that was done before. -/
def fix (s : Settings) (b : Bounds) : Except Refusal Settings :=
  match s.fixed with
  | none => .ok { fixed := some b }
  | some _ => .error .alreadyConfigured

end Settings

end ProgramHost
