import TektonPipeline.Library.Assoc

/-! Amounts of compute resources. -/

namespace TektonPipeline.ComputeResources

inductive ResourceName where
  | cpu
  | memory
  | ephemeralStorage
  | other (name : String)
  deriving DecidableEq

/-- In billionths of a unit, the smallest amount that a quantity is rounded up to. -/
abbrev Quantity := Int

/-- `map[ResourceName]Quantity` -/
abbrev ResourceList := List (ResourceName × Quantity)

/-- An entry that is not there reads as zero. -/
def ResourceList.get (l : ResourceList) (name : ResourceName) : Int := (l.lookup name).getD 0

/-- Lists that are not set are nil. -/
structure ResourceRequirements where
  requests : Option ResourceList := none
  limits : Option ResourceList := none
  deriving DecidableEq

/-- What `Value` and `MilliValue` count: bytes, or thousandths. -/
def ResourceName.unit : ResourceName → Int
  | .memory | .ephemeralStorage => 1000000000
  | .cpu | .other _ => 1000000

/-- The amount in units, rounded away from zero. -/
def roundUp (unit : Int) (q : Int) : Int := if 0 ≤ q then -(-q / unit) else q / unit

/-- `ScaledValue`. Past an int64 it is zero, as it is of ten with the suffix `P`, whose digits are
multiplied by ten for each power of the suffix until they overflow. A quantity that is held as a
decimal of many digits wraps around instead. -/
def scaledValue (unit : Int) (q : Int) : Int :=
  if Int64.minValue.toInt ≤ roundUp unit q ∧ roundUp unit q ≤ Int64.maxValue.toInt then
    roundUp unit q
  else 0

/-- `NewQuantity(v.Value() / n)` or `NewMilliQuantity(v.MilliValue() / n)` -/
def share (name : ResourceName) (q : Int) (n : Nat) : Int :=
  (scaledValue name.unit q).tdiv n * name.unit

/-- A zero request is considered the smallest. -/
def maxRequest (quantities : List Int) : Int :=
  quantities.foldl (fun max q => if max < q then q else max) 0

/-- A zero limit is considered higher than any other, but only as the one that is held. -/
def minLimit (quantities : List Int) : Int :=
  quantities.foldl (fun min q => if min = 0 then q else if q < min then q else min) 0

end TektonPipeline.ComputeResources
