import Mathlib.Algebra.Order.Ring.Rat
import Mathlib.Data.Rat.Floor
import LlmGateway.Lib.AssocMap

/-!
# Base types

* `std::string` is a list of bytes, `Str`; `str` gives the bytes of a source literal.
* `std::unordered_map` from strings is an association list, `UMap`.  The order of its entries is
  the iteration order of the map, on which no result depends.
* `double` is a type `ν` with the operations that the gateway applies to doubles (`Double ν`).  The
  results hold for every such type.
* The two clocks of the standard library are read together (`Clock`): the wall clock
  (`system_clock`) and the steady clock, in milliseconds.
-/

namespace LlmGateway

/-- The bytes of a `std::string`. -/
abbrev Str := List UInt8

/-- The bytes of a literal of the source. -/
def str (s : String) : Str := s.toByteArray.data.toList

theorem str_eq_flatMap (s : String) : str s = s.toList.flatMap String.utf8EncodeChar := by
  rw [str, ← String.utf8Encode_toList, List.utf8Encode, List.toList_data_toByteArray]

theorem str_append (s t : String) : str (s ++ t) = str s ++ str t := by
  rw [str_eq_flatMap, str_eq_flatMap, str_eq_flatMap, String.toList_append, List.flatMap_append]

theorem str_injective : Function.Injective str := by
  intro s t h
  rw [← String.toByteArray_inj]
  exact ByteArray.ext (Array.toList_inj.1 h)

/-- A map from strings. -/
abbrev UMap (α : Type) := AList fun _ : Str => α

/-- The `double` operations that the gateway uses. -/
class Double (ν : Type) where
  /-- A literal of the source, or an integer converted to `double`. -/
  lit : ℚ → ν
  mul : ν → ν → ν
  sub : ν → ν → ν
  div : ν → ν → ν
  pow : ν → ν → ν
  lt : ν → ν → Bool
  /-- The integer part, as a cast to an integer type takes it. -/
  trunc : ν → ℤ
  /-- `std::to_string`. -/
  toString : ν → Str

/-- The digits of `n` below the point, `k` of them. -/
def fraction (n : ℚ) : ℕ → Str
  | 0 => []
  | k + 1 => str (toString (10 * n).floor) ++ fraction (10 * n - (10 * n).floor) k

/-- Exact rational arithmetic, with the power by the whole part of the exponent. -/
instance : Double ℚ where
  lit q := q
  mul := (· * ·)
  sub := (· - ·)
  div := (· / ·)
  pow x y := x ^ y.floor
  lt x y := x < y
  trunc x := if x < 0 then x.ceil else x.floor
  toString x :=
    (if x < 0 then str "-" else []) ++ str (toString |x|.floor) ++ str "." ++
      fraction (|x| - |x|.floor) 6

/-- What the clocks show when an operation runs. -/
structure Clock where
  /-- `system_clock::now()`, in milliseconds. -/
  wall : Int64
  /-- `steady_clock::now()`, in milliseconds. -/
  steady : Int64
  deriving DecidableEq

/-- Neither clock goes backwards. -/
def Clock.Le (c c' : Clock) : Prop :=
  c.wall.toInt ≤ c'.wall.toInt ∧ c.steady.toInt ≤ c'.steady.toInt

instance (c c' : Clock) : Decidable (c.Le c') := inferInstanceAs (Decidable (_ ∧ _))

end LlmGateway
