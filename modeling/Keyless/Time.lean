/-
Points in time: whole seconds since 1970-01-01, in the proleptic Gregorian calendar.

The legal range runs from the first second of the year -262143 to the last of
the year 262142.  It is part of the type, so whatever holds a `Time` holds a
legal one.
-/

namespace Keyless

/-- A second, counted from the first of January 1970; negative before it. -/
structure Time where
  seconds : Int
  earliest_le : -8334601228800 ≤ seconds
  le_latest : seconds ≤ 8210266876799
deriving DecidableEq

namespace Time

/-- The time with the given count of seconds, if it is legal. -/
def ofSeconds? (seconds : Int) : Option Time :=
  if h : -8334601228800 ≤ seconds ∧ seconds ≤ 8210266876799 then some ⟨seconds, h.1, h.2⟩
  else none

/-- A time in the first 136 years from 1970 on. -/
def ofUInt32 (seconds : UInt32) : Time where
  seconds := seconds.toNat
  earliest_le := by omega
  le_latest := by
    have := seconds.toNat_lt
    omega

instance : LE Time := ⟨fun a b => a.seconds ≤ b.seconds⟩
instance : LT Time := ⟨fun a b => a.seconds < b.seconds⟩
instance (a b : Time) : Decidable (a ≤ b) := inferInstanceAs (Decidable (a.seconds ≤ b.seconds))
instance (a b : Time) : Decidable (a < b) := inferInstanceAs (Decidable (a.seconds < b.seconds))

theorem le_iff {a b : Time} : a ≤ b ↔ a.seconds ≤ b.seconds := Iff.rfl
theorem lt_iff {a b : Time} : a < b ↔ a.seconds < b.seconds := Iff.rfl

@[ext] theorem ext {a b : Time} (h : a.seconds = b.seconds) : a = b := by
  cases a; cases b; simp_all

@[simp] theorem ofSeconds?_seconds (t : Time) : ofSeconds? t.seconds = some t := by
  simp [ofSeconds?, t.earliest_le, t.le_latest]

end Time

end Keyless
