import Mathlib.Data.UInt
import Mathlib.Tactic.Common

/-!
# The start of `transpose_server`

How many worker threads `main` lets the dispatcher use.
-/

namespace MatrixTransposer

/-- `isspace`: the blank, and the control characters from the tabulator to the carriage return. -/
def isSpace (c : Char) : Bool := c.toNat = 32 || (9 ≤ c.toNat && c.toNat ≤ 13)

def digitsValue (text : List Char) : Int :=
  (text.takeWhile Char.isDigit).foldl (fun value c => value * 10 + (c.toNat - 48)) 0

/-- `std::atoi`: what does not start with a number has the value 0. The conversion goes through
`strtol`, which does not leave the range of `long`, and keeps the low bits. -/
def atoi (text : String) : Int32 :=
  let value := match text.toList.dropWhile isSpace with
    | '-' :: digits => -digitsValue digits
    | '+' :: digits => digitsValue digits
    | digits => digitsValue digits
  Int32.ofInt (max (-2 ^ 63) (min value (2 ^ 63 - 1)))

/-- The arguments begin with the name of the program. -/
def requestedWorkerThreads (hardwareConcurrency : UInt32) (arguments : List String) : UInt32 :=
  match arguments with
  | _ :: text :: _ => (atoi text).toUInt32
  | _ => hardwareConcurrency

/-- The value `numWorkerThreads` that `main` goes on with. -/
def numWorkerThreads (hardwareConcurrency : UInt32) (arguments : List String) :
    Except String UInt32 :=
  let numWorkerThreads := requestedWorkerThreads hardwareConcurrency arguments
  if numWorkerThreads &&& (numWorkerThreads - 1) ≠ 0 then
    .error "Number of worker threads must be a power of 2"
  else .ok numWorkerThreads

variable {hardwareConcurrency count : UInt32} {arguments : List String}

theorem and_sub_one_of_numWorkerThreads
    (h : numWorkerThreads hardwareConcurrency arguments = .ok count) :
    count = requestedWorkerThreads hardwareConcurrency arguments ∧ count &&& (count - 1) = 0 := by
  simp only [numWorkerThreads] at h
  split at h
  case isTrue => cases h
  case isFalse hand =>
    cases h
    exact ⟨rfl, not_not.mp hand⟩

/-- Of the counts that `main` accepts only 0 is not a power of two. -/
theorem isPowerOfTwo_of_numWorkerThreads
    (h : numWorkerThreads hardwareConcurrency arguments = .ok count) :
    count.toNat.isPowerOfTwo ↔ count ≠ 0 := by
  obtain ⟨-, hand⟩ := and_sub_one_of_numWorkerThreads h
  constructor
  · rintro hpow rfl
    exact Nat.not_isPowerOfTwo_zero hpow
  · intro hne
    have hpos : 0 < count.toNat := UInt32.lt_iff_toNat_lt.mp (UInt32.pos_iff_ne_zero.mpr hne)
    have hsub : (count - 1).toNat = count.toNat - 1 :=
      UInt32.toNat_sub_of_le _ _ (UInt32.le_iff_toNat_le.mpr hpos)
    rw [← Nat.and_sub_one_eq_zero_iff_isPowerOfTwo (Nat.ne_of_gt hpos), ← hsub,
      ← UInt32.toNat_and, hand]
    rfl

example : numWorkerThreads 16 ["transpose_server", " 8 threads"] = .ok 8 := by decide

example : numWorkerThreads 16 ["transpose_server", "-1"] =
    .error "Number of worker threads must be a power of 2" := by decide

end MatrixTransposer
