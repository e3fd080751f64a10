/-
Calendar shapes are in bijection with the seconds of the calendar.

That no two shapes arrive at one second is known (`Descent.walk_inj`).  What is
missing is a shape for every second, and it is the obvious one: above every part of
the calendar, go to the side on which the second is (`Descent.route`).  The descent
along it keeps the second inside its interval, and the interval shrinks to a single
second, which is that one (`walk_route`).

So directions arrive at a second exactly when the second is in the interval and they
are the route to it (`walk_eq_ok_iff`), and a chain registers a time exactly when the
time is in the calendar and the chain has the shape for it
(`CalendarChain.registrationTime_eq_ok_iff_shape`).
-/
import Mathlib.Logic.ExistsUnique
import Keyless.Proofs.Calendar.Words
import Keyless.Proofs.Imprint

namespace Keyless

namespace Descent

/-! ### The route to a second -/

/-- The directions, root first, from where a descent stands to a second. -/
def route (second : Nat) (d : Descent) : List Direction :=
  if _h : d.remaining = 0 then []
  else if second < d.passed + highBit d.remaining then .left :: route second (d.step .left)
  else .right :: route second (d.step .right)
termination_by d.remaining
decreasing_by
  · exact (step_inside _h .left).2.2
  · exact (step_inside _h .right).2.2

theorem route_of_remaining_eq_zero {second : Nat} {d : Descent} (h : d.remaining = 0) :
    d.route second = [] := by
  rw [route, dif_pos h]

theorem route_of_lt {second : Nat} {d : Descent} (h : d.remaining ≠ 0)
    (side : second < d.passed + highBit d.remaining) :
    d.route second = .left :: (d.step .left).route second := by
  rw [route, dif_neg h, if_pos side]

theorem route_of_le {second : Nat} {d : Descent} (h : d.remaining ≠ 0)
    (side : d.passed + highBit d.remaining ≤ second) :
    d.route second = .right :: (d.step .right).route second := by
  rw [route, dif_neg h, if_neg (Nat.not_lt.mpr side)]

/-- **The route to a second of the interval arrives there.** -/
theorem walk_route {second : Nat} {d : Descent} (low : d.passed ≤ second)
    (high : second ≤ d.passed + d.remaining) : d.walk (d.route second) = .ok second := by
  fun_induction route second d with
  | case1 d hzero =>
      rw [walk, if_pos hzero]
      exact congrArg Except.ok (by omega)
  | case2 d hmore side ih =>
      rw [walk, if_neg hmore]
      refine ih low ?_
      simp only [step]
      omega
  | case3 d hmore side ih =>
      have hle := highBit_le hmore
      rw [walk, if_neg hmore]
      refine ih ?_ ?_
      · simp only [step]
        omega
      · simp only [step]
        omega

/-- **Directions arrive at a second exactly when it is in the interval and they are the route to
it.** -/
theorem walk_eq_ok_iff {d : Descent} {directions : List Direction} {second : Nat} :
    d.walk directions = .ok second ↔
      d.passed ≤ second ∧ second ≤ d.passed + d.remaining ∧ directions = d.route second := by
  refine ⟨fun h => ?_, ?_⟩
  · obtain ⟨low, high⟩ := walk_mem h
    exact ⟨low, high, walk_inj h (walk_route low high)⟩
  · rintro ⟨low, high, rfl⟩
    exact walk_route low high

end Descent

/-! ### The shape of a chain -/

/-- The shape, input first, of a chain from a time to the calendar root of a later one. -/
def calendarShape (publication time : Time) : List Direction :=
  (Descent.route time.seconds.toNat
    { remaining := publication.seconds.toNat, passed := 0 }).reverse

namespace CalendarChain

/-- **A chain registers a time exactly when the calendar has the time and the chain has its
shape.** -/
theorem registrationTime_eq_ok_iff_shape {c : CalendarChain} {time : Time} :
    c.registrationTime = .ok time ↔ 0 ≤ time.seconds ∧ time ≤ c.publicationTime ∧
      c.directions = calendarShape c.publicationTime time := by
  rw [registrationTime_eq_ok_iff, registeredSecond_eq_ok_iff, Descent.walk_eq_ok_iff,
    List.reverse_eq_iff, Time.le_iff]
  refine ⟨?_, ?_⟩
  · rintro ⟨published, begun, -, within, shape⟩
    simp only at within
    exact ⟨begun, by omega, shape⟩
  · rintro ⟨begun, within, shape⟩
    refine ⟨by omega, begun, Nat.zero_le _, ?_, shape⟩
    simp only
    omega

theorem registrationTime_of_publicationTime_neg {c : CalendarChain}
    (h : c.publicationTime.seconds < 0) :
    c.registrationTime = .error (.computation .publicationBeforeEpoch) := by
  rw [registrationTime, registeredSecond, if_pos h]

end CalendarChain

/-- A descent fails only where its directions end too late or too early. -/
theorem Descent.fault_of_walk {directions : List Direction} :
    ∀ {d : Descent} {fault : ComputationFault}, d.walk directions = .error fault →
      fault = .calendarTooLong ∨ fault = .calendarTooShort := by
  induction directions with
  | nil =>
      intro d fault h
      unfold walk at h
      split at h
      · exact absurd h (by simp)
      · exact Or.inr (Except.error.inj h).symm
  | cons direction rest ih =>
      intro d fault h
      unfold walk at h
      split at h
      · exact Or.inl (Except.error.inj h).symm
      · exact ih h

/-- A registered second is never out of range, since a descent ends no later than it began. -/
theorem registeredSecond_ne_outOfRange (publication : Time) (directions : List Direction) :
    registeredSecond publication directions ≠ .error .registrationOutOfRange := by
  unfold registeredSecond
  split
  · simp
  · intro h
    rcases bind_eq_error_iff.mp h with hwalk | ⟨second, hwalk, hlegal⟩
    · exact absurd (Descent.fault_of_walk hwalk) (by simp)
    · obtain ⟨time, htime, -⟩ := Descent.ofSeconds?_walk hwalk
      rw [htime] at hlegal
      exact absurd hlegal (by simp)

namespace CalendarChain

theorem registrationTime_ne_outOfRange (c : CalendarChain) :
    c.registrationTime ≠ .error (.computation .registrationOutOfRange) := by
  have hsecond := registeredSecond_ne_outOfRange c.publicationTime c.directions
  unfold registrationTime
  cases h : registeredSecond c.publicationTime c.directions with
  | ok time => simp
  | error fault =>
      rw [h] at hsecond
      simpa using hsecond

/-- A chain of given directions to the calendar root of a given time. -/
def ofDirections (publication : Time) (directions : List Direction) : CalendarChain where
  inputHash := Imprint.uniform .sha256 0
  aggregationTime := publication
  publicationTime := publication
  links := directions.map fun direction => { direction, sibling := Imprint.uniform .sha256 0 }

@[simp] theorem directions_ofDirections (publication : Time) (directions : List Direction) :
    (ofDirections publication directions).directions = directions := by
  simp [ofDirections, CalendarChain.directions, Function.comp_def]

/--
**Calendar shapes are in bijection with the seconds of the calendar.**  No chain
published before the epoch registers anything.  A chain published later registers no
time outside the calendar, and for every time inside it there is exactly one shape
with which a chain registers it.  All of it is computed within 64-bit words, and no
registered second is ever out of range.
-/
theorem shapes_biject_seconds (publication : Time) :
    (publication.seconds < 0 → ∀ c : CalendarChain, c.publicationTime = publication →
        c.registrationTime = .error (.computation .publicationBeforeEpoch)) ∧
      (∀ c : CalendarChain, c.publicationTime = publication →
        ∀ time, c.registrationTime = .ok time → 0 ≤ time.seconds ∧ time ≤ publication) ∧
      (∀ time : Time, 0 ≤ time.seconds → time ≤ publication →
        ∃! directions, ∀ c : CalendarChain, c.publicationTime = publication →
          (c.registrationTime = .ok time ↔ c.directions = directions)) ∧
      ∀ c : CalendarChain, c.publicationTime = publication →
        c.registrationInWords? = some c.registrationTime ∧
          c.registrationTime ≠ .error (.computation .registrationOutOfRange) := by
  refine ⟨?_, ?_, ?_, ?_⟩
  · rintro early c rfl
    exact registrationTime_of_publicationTime_neg early
  · rintro c rfl time h
    obtain ⟨begun, within, -⟩ := registrationTime_eq_ok_iff_shape.mp h
    exact ⟨begun, within⟩
  · intro time begun within
    refine ⟨calendarShape publication time, ?_, fun other hother => ?_⟩
    · rintro c rfl
      rw [registrationTime_eq_ok_iff_shape]
      exact ⟨fun h => h.2.2, fun h => ⟨begun, within, h⟩⟩
    · -- A chain of the other shape registers the time too, so its shape is the one for the time.
      have hregisters := (hother (ofDirections publication other) rfl).mpr (by simp)
      have hshape := (registrationTime_eq_ok_iff_shape.mp hregisters).2.2
      rwa [directions_ofDirections] at hshape
  · rintro c rfl
    exact ⟨c.registrationInWords?_eq, c.registrationTime_ne_outOfRange⟩

end CalendarChain

end Keyless
