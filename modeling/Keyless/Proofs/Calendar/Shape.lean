/-
The shape of a calendar chain is settled by its two times.

A descent through the calendar stands, at every moment, above an interval of
seconds: `passed` to `passed + remaining`.  A left step keeps the lower part of
the interval and a right step the upper part, and the two parts have no second in
common.  So the second at which a descent ends tells, at every step, on which side
it went: directions that arrive at the same second are the same directions.

The invariant is `walk_mem`, that a descent ends inside the interval it stands
above; `walk_inj` reads the sides off it, one step at a time.
-/
import Mathlib.Algebra.Group.Nat.Defs
import Keyless.Calendar.Registration
import Keyless.Proofs.Outcome

namespace Keyless

namespace Descent

/-! ### The two parts of an interval -/

theorem highBit_eq (n : Nat) : highBit n = 2 ^ n.log2 := Nat.one_shiftLeft _

theorem highBit_pos (n : Nat) : 0 < highBit n := by
  rw [highBit_eq]
  exact Nat.two_pow_pos _

theorem highBit_le {n : Nat} (h : n ≠ 0) : highBit n ≤ n := by
  rw [highBit_eq]
  exact Nat.log2_self_le h

theorem lt_two_mul_highBit (n : Nat) : n < 2 * highBit n := by
  rw [highBit_eq, ← Nat.pow_succ']
  exact Nat.lt_log2_self

/-- **A calendar that reaches into the upper part of a larger one splits where that does.** -/
theorem highBit_eq_of_le {m n : Nat} (low : highBit n ≤ m) (high : m ≤ n) :
    highBit m = highBit n := by
  have hpos := highBit_pos n
  have hlt := lt_two_mul_highBit n
  have hlog : m.log2 = n.log2 := by
    rw [highBit_eq] at low hlt
    rw [← Nat.pow_succ'] at hlt
    refine (Nat.log2_eq_iff (by omega)).mpr ⟨low, ?_⟩
    omega
  rw [highBit_eq, highBit_eq, hlog]

/-- **A step goes down into a smaller interval, inside the one it leaves.** -/
theorem step_inside {d : Descent} (h : d.remaining ≠ 0) (direction : Direction) :
    d.passed ≤ (d.step direction).passed ∧
      (d.step direction).passed + (d.step direction).remaining ≤ d.passed + d.remaining ∧
      (d.step direction).remaining < d.remaining := by
  have hpos := highBit_pos d.remaining
  have hle := highBit_le h
  cases direction with
  | left =>
      simp only [step]
      omega
  | right =>
      simp only [step]
      omega

/-! ### A descent ends inside its interval -/

theorem walk_cons {d : Descent} {direction : Direction} {rest : List Direction} {second : Nat}
    (h : d.walk (direction :: rest) = .ok second) :
    d.remaining ≠ 0 ∧ (d.step direction).walk rest = .ok second := by
  unfold walk at h
  split at h
  · exact absurd h (by simp)
  · exact ⟨by assumption, h⟩

theorem walk_nil {d : Descent} {second : Nat} (h : d.walk [] = .ok second) :
    d.remaining = 0 ∧ d.passed = second := by
  unfold walk at h
  split at h
  · exact ⟨by assumption, Except.ok.inj h⟩
  · exact absurd h (by simp)

/-- **A descent ends inside the interval that it stands above.** -/
theorem walk_mem {directions : List Direction} :
    ∀ {d : Descent} {second : Nat}, d.walk directions = .ok second →
      d.passed ≤ second ∧ second ≤ d.passed + d.remaining := by
  induction directions with
  | nil =>
      intro d second h
      obtain ⟨hrem, hsec⟩ := walk_nil h
      omega
  | cons direction rest ih =>
      intro d second h
      obtain ⟨hrem, hrest⟩ := walk_cons h
      obtain ⟨hlow, hhigh⟩ := ih hrest
      obtain ⟨hpassed, hend, -⟩ := step_inside hrem direction
      omega

theorem walk_side {d : Descent} {direction : Direction} {rest : List Direction} {second : Nat}
    (h : d.walk (direction :: rest) = .ok second) :
    direction = .left ↔ second < d.passed + highBit d.remaining := by
  obtain ⟨-, hrest⟩ := walk_cons h
  have hpos := highBit_pos d.remaining
  obtain ⟨hlow, hhigh⟩ := walk_mem hrest
  cases direction with
  | left =>
      simp only [step] at hlow hhigh
      simp only [true_iff]
      omega
  | right =>
      simp only [step] at hlow hhigh
      simp only [reduceCtorEq, false_iff]
      omega

/-- **Directions that arrive at one second are the same directions.** -/
theorem walk_inj {directions : List Direction} :
    ∀ {directions' : List Direction} {d : Descent} {second : Nat},
      d.walk directions = .ok second → d.walk directions' = .ok second →
      directions = directions' := by
  induction directions with
  | nil =>
      intro directions' d second h h'
      cases directions' with
      | nil => rfl
      | cons direction' rest' => exact absurd (walk_nil h).1 (walk_cons h').1
  | cons direction rest ih =>
      intro directions' d second h h'
      cases directions' with
      | nil => exact absurd (walk_nil h').1 (walk_cons h).1
      | cons direction' rest' =>
          have hside : direction = .left ↔ direction' = .left :=
            (walk_side h).trans (walk_side h').symm
          have hdir : direction = direction' := by
            cases direction <;> cases direction' <;> simp_all
          subst hdir
          rw [ih (walk_cons h).2 (walk_cons h').2]

end Descent

/-! ### The second of a chain -/

theorem Descent.ofSeconds?_walk {publication : Time} {directions : List Direction} {second : Nat}
    (h : Descent.walk { remaining := publication.seconds.toNat, passed := 0 } directions =
      .ok second) : ∃ time, Time.ofSeconds? second = some time ∧ time.seconds = second := by
  obtain ⟨-, hhigh⟩ := Descent.walk_mem h
  have hearliest := publication.earliest_le
  have hlatest := publication.le_latest
  simp only at hhigh
  refine ⟨⟨second, by omega, by omega⟩, ?_, rfl⟩
  rw [Time.ofSeconds?, dif_pos (by omega)]

theorem registeredSecond_eq_ok_iff {publication : Time} {directions : List Direction}
    {time : Time} :
    registeredSecond publication directions = .ok time ↔
      0 ≤ publication.seconds ∧ 0 ≤ time.seconds ∧
        Descent.walk { remaining := publication.seconds.toNat, passed := 0 } directions.reverse =
          .ok time.seconds.toNat := by
  unfold registeredSecond
  by_cases hepoch : publication.seconds < 0
  · simp only [if_pos hepoch, reduceCtorEq, false_iff]
    omega
  · rw [if_neg hepoch]
    constructor
    · intro h
      obtain ⟨second, hwalk, hlegal⟩ := bind_eq_ok_iff.mp h
      obtain ⟨time', htime, hsec⟩ := Descent.ofSeconds?_walk hwalk
      rw [htime] at hlegal
      obtain rfl := Except.ok.inj hlegal
      refine ⟨by omega, by omega, ?_⟩
      rw [hwalk, hsec, Int.toNat_natCast]
    · rintro ⟨-, hpos, hwalk⟩
      refine bind_eq_ok_iff.mpr ⟨_, hwalk, ?_⟩
      rw [Int.toNat_of_nonneg hpos, Time.ofSeconds?_seconds]

namespace CalendarChain

theorem registrationTime_eq_ok_iff {c : CalendarChain} {time : Time} :
    c.registrationTime = .ok time ↔
      registeredSecond c.publicationTime c.directions = .ok time := by
  unfold registrationTime
  cases registeredSecond c.publicationTime c.directions <;> simp

/-- **Chains to one publication time that register one second have one shape.** -/
theorem directions_eq_of_registrationTime {c c' : CalendarChain} {time : Time}
    (published : c.publicationTime = c'.publicationTime)
    (registered : c.registrationTime = .ok time)
    (registered' : c'.registrationTime = .ok time) : c.directions = c'.directions := by
  rw [registrationTime_eq_ok_iff, registeredSecond_eq_ok_iff] at registered registered'
  rw [← published] at registered'
  exact List.reverse_inj.mp (Descent.walk_inj registered.2.2 registered'.2.2)

end CalendarChain

end Keyless
