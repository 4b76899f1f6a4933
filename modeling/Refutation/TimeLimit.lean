import Refutation.Number.Shortest

/-!
Time limits: how long a query may take, given in seconds and kept in nanoseconds.
-/

namespace Refutation

structure TimeLimit where
  nanoseconds : Nat
deriving DecidableEq

inductive TimeLimit.Error where
  | notANumber (text : String)
  | invalid (seconds : Binary64)
  /-- From `2 ^ 64` seconds on there is no time limit to keep. -/
  | tooLong

namespace TimeLimit

/-- How many nanoseconds make a second. -/
def billion : Nat := 1000000000

def ofSeconds (seconds : Nat) : TimeLimit := ⟨seconds * billion⟩

def seconds (limit : TimeLimit) : Nat := limit.nanoseconds / billion

def subsecond (limit : TimeLimit) : Nat := limit.nanoseconds % billion

/-- The limit of a finite number of seconds that is not below zero, to the nearest nanosecond. -/
def ofNumber : Binary64 → Except Error TimeLimit
  | .finite negative units =>
      if negative ∧ units ≠ 0 then .error (.invalid (.finite negative units))
      else if Nat.pow 2 64 * Binary64.one ≤ units then .error .tooLong
      else .ok ⟨roundDiv (units * billion) Binary64.one⟩
  | number => .error (.invalid number)

def read (text : String) : Except Error TimeLimit :=
  match Binary64.read? text with
  | none => .error (.notANumber text)
  | some number => ofNumber number

def Error.message : Error → String
  | .notANumber text => s!"{text}: not a number of seconds"
  | .invalid seconds => s!"{seconds.text}: not a valid time limit"
  | .tooLong => "time limit too long"

end TimeLimit

end Refutation
