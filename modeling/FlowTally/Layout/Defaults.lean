import FlowTally.FieldId
import FlowTally.Value.Merge

/-!
# What fields do by themselves

The aggregation that a field has when none is asked for, and the fields that a
derived field is computed from.
-/

namespace FlowTally.FieldId

/-- The fields computed from other columns, in an order in which each one follows
those it is computed from. -/
def derived : List FieldId := [duration, bitRate, packetRate, packetSize]

/-- Whether a field is computed from other columns. -/
def isDerived (f : FieldId) : Bool := f ∈ derived

/-- The fields that a derived field is computed from, in the order it reads them. -/
def inputs (f : FieldId) : List FieldId :=
  if f = duration then [first, last]
  else if f = bitRate then [bytes, duration]
  else if f = packetRate then [packets, duration]
  else if f = packetSize then [packets, bytes]
  else []

/-- All fields that a field needs, each in front of its own inputs. Inputs of inputs
are never derived. -/
def requirements (f : FieldId) : List FieldId :=
  f.inputs.flatMap fun g => g :: g.inputs

/-- The aggregation of a field when none is asked for. -/
def defaultKind (f : FieldId) : Aggregation :=
  if f ∈ [first, eventTime] then .min
  else if f ∈ [last, received] then .max
  else if f ∈ [bytes, packets, outBytes, outPackets, flows, sequenceFailures,
      duration, bitRate, packetRate, packetSize] then .sum
  else if f = tcpFlags then .or
  else .key

/-- The aggregation that `auto` stands for. An address with a length to truncate to
is a key. -/
def autoKind (f : FieldId) (type : ValueType) (v4Bits v6Bits : UInt8) : Aggregation :=
  if type = .addr ∧ (0 < v4Bits ∨ 0 < v6Bits) then .key else f.defaultKind

/-- What a field needs is closed under inputs. -/
theorem inputs_subset_requirements (f g : FieldId) (hg : g ∈ f.requirements) :
    ∀ h ∈ g.inputs, h ∈ f.requirements := by
  by_cases h₁ : f = duration
  · subst h₁
    revert g
    decide
  by_cases h₂ : f = bitRate
  · subst h₂
    revert g
    decide
  by_cases h₃ : f = packetRate
  · subst h₃
    revert g
    decide
  by_cases h₄ : f = packetSize
  · subst h₄
    revert g
    decide
  simp [requirements, inputs, h₁, h₂, h₃, h₄] at hg

end FlowTally.FieldId
