import Orynx.Lib.Regex

/-! # Patterns

What the patterns of the services are made of.
-/

namespace Orynx

open Lib

/-- The long s, which `(?i)` takes for an s. -/
def longS : Char := Char.ofNat 0x17f

/-- The Kelvin sign, which `(?i)` takes for a k. -/
def kelvin : Char := Char.ofNat 0x212a

/-- The small letter that stands for a letter in all its cases. -/
def foldChar (c : Char) : Char :=
  if c = longS then 's' else if c = kelvin then 'k' else c.toLower

/-- A word under `(?i)`. -/
def literal : List Char → Regex
  | [] => .empty
  | c :: cs => .seq (.set fun d => foldChar d == c) (literal cs)

/-- `\s`. -/
def isBlank (c : Char) : Bool :=
  c == '\t' || c == '\n' || c == Char.ofNat 12 || c == '\r' || c == ' '

end Orynx
