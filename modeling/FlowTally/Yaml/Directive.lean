import FlowTally.Yaml.Property
import FlowTally.Yaml.Token

/-!
# Directives

A line that starts with a percent sign names a version or gives a meaning to the handle
of a tag. Nothing but a comment may follow on it.
-/

namespace FlowTally.Yaml

/-- A number of at most nine digits, and the place behind it. -/
def versionNumber? (p : Place) : Option (Nat × Place) :=
  let digits := p.front Char.isDigit
  if digits.isEmpty || 9 < digits.length then none
  else some (digits.foldl (fun n c => 10 * n + (c.toNat - 48)) 0, p.behind digits)

/-- A version, which is two numbers with a point between them. -/
def version? (p : Place) : Option (Token × Place) := do
  let (major, p) ← versionNumber? p
  if p.rest.head? ≠ some '.' then none
  let (minor, p) ← versionNumber? (p.skip 1)
  some (.version major minor, p)

/-- The meaning of a handle. The handle is an exclamation mark alone or a name between
two. -/
def handleMeaning? (fuel : Nat) (p : Place) : Option (Token × Place) := do
  let (handle, p) ← tagHandle? p
  if handle.getLast? ≠ some '!' then none
  if !p.rest.head?.any isGap then none
  let p := p.skipWhile isGap
  let (bytes, next) ← tagBytes? true fuel [] p
  if next.offset = p.offset ∨ !atBlank next.rest then none
  some (.tagHandle handle (tagPart bytes), next)

/-- The directive at a place and the place behind its line. -/
def directive? (fuel : Nat) (p : Place) : Option (Token × Place) := do
  let name := (p.skip 1).front isNameChar
  let p := (p.skip 1).behind name
  if name.isEmpty || !atBlank p.rest then none
  let p := p.skipWhile isGap
  let (token, p) ←
    if name = ['Y', 'A', 'M', 'L'] then version? p
    else if name = ['T', 'A', 'G'] then handleMeaning? fuel p
    else none
  some (token, ← p.endLine?)

end FlowTally.Yaml
