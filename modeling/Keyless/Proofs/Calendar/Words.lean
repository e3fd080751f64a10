/-
The descent through the calendar fits into 64-bit words.

`Descent` counts seconds without a bound.  Here is the same descent on a machine
that has 64-bit words only and stops as soon as a difference is negative, a sum
does not fit, or the highest bit of zero is asked for.  It never stops: whatever
the publication time and however long the list of directions, it gives what the
unbounded descent gives (`registeredInWords?_eq`).

The reason is the interval that a descent stands above.  A step keeps one of its
two parts, so its upper end never grows (`Descent.step_inside`), and it begins as the
publication time.  Every number that occurs lies below that end, or is the highest
bit of a positive one.
-/
import Mathlib.Algebra.Group.Int.Defs
import Keyless.Proofs.Calendar.Shape

namespace Keyless

/-! ### Words -/

/-- The number as a 64-bit word, if it is one. -/
def word? (n : Int) : Option UInt64 :=
  if 0 ≤ n ∧ n < 2 ^ 64 then some (UInt64.ofNat n.toNat) else none

/-- How many zeros a word has above its highest one; all 64 if it has no one. -/
def leadingZeros (w : UInt64) : Nat := w.toBitVec.clz.toNat

/-- The highest bit of a word.  Zero has none: its 64 zeros leave no place from 63 down. -/
def highWord? (w : UInt64) : Option UInt64 := do
  let place ← word? (63 - leadingZeros w)
  return 1 <<< place

/-- Where a walk on words stands. -/
structure WordDescent where
  remaining : UInt64
  passed : UInt64

namespace WordDescent

/-- One step down, every operation of which must stay within 64 bits. -/
def step? (d : WordDescent) : Direction → Option WordDescent
  | .left => do
    let bit ← highWord? d.remaining
    let remaining ← word? (bit.toNat - 1)
    return { d with remaining }
  | .right => do
    let bit ← highWord? d.remaining
    let passed ← word? (d.passed.toNat + bit.toNat)
    let remaining ← word? (d.remaining.toNat - bit.toNat)
    return { remaining, passed }

/-- Walks down along directions, root first; nothing if an operation left its range. -/
def walk? : WordDescent → List Direction → Option (Except ComputationFault UInt64)
  | d, [] => some (if d.remaining = 0 then .ok d.passed else .error .calendarTooShort)
  | d, direction :: rest =>
    if d.remaining = 0 then some (.error .calendarTooLong)
    else do
      let below ← d.step? direction
      below.walk? rest

end WordDescent

/-- The registered second, computed in words. -/
def registeredInWords? (publicationTime : Time) (directions : List Direction) :
    Option (Except ComputationFault Time) :=
  match word? publicationTime.seconds with
  | none => some (.error .publicationBeforeEpoch)
  | some remaining => do
    let walked ← WordDescent.walk? { remaining, passed := 0 } directions.reverse
    return do
      let second ← walked
      match Time.ofSeconds? second.toNat with
      | some time => .ok time
      | none => .error .registrationOutOfRange

/-! ### One step -/

theorem word?_eq_some {n : Int} (hpos : 0 ≤ n) (hlt : n < 2 ^ 64) :
    ∃ w, word? n = some w ∧ (w.toNat : Int) = n := by
  refine ⟨UInt64.ofNat n.toNat, if_pos ⟨hpos, hlt⟩, ?_⟩
  rw [UInt64.toNat_ofNat', Nat.mod_eq_of_lt (by omega), Int.toNat_of_nonneg hpos]

theorem log2_eq_leadingZeros {w : UInt64} (h : w.toNat ≠ 0) :
    leadingZeros w < 64 ∧ w.toNat.log2 = 63 - leadingZeros w := by
  have hne : w.toBitVec ≠ 0#64 := by
    intro hzero
    apply h
    rw [← UInt64.toNat_toBitVec, hzero]
    rfl
  have hzeros : leadingZeros w < 64 := BitVec.lt_def.mp (BitVec.clz_lt_iff_ne_zero.mpr hne)
  have hlow : 2 ^ (63 - leadingZeros w) ≤ w.toNat :=
    BitVec.two_pow_sub_clz_le_toNat_of_ne_zero (by decide) hne
  have hhigh : w.toNat < 2 ^ (63 - leadingZeros w + 1) := by
    rw [show 63 - leadingZeros w + 1 = 64 - leadingZeros w by omega]
    exact BitVec.toNat_lt_two_pow_sub_clz
  exact ⟨hzeros, (Nat.log2_eq_iff h).mpr ⟨hlow, hhigh⟩⟩

/-- **A positive word has a highest bit, and it is that of its number.** -/
theorem highWord?_eq_some {w : UInt64} (h : w.toNat ≠ 0) :
    ∃ bit, highWord? w = some bit ∧ bit.toNat = Descent.highBit w.toNat := by
  obtain ⟨hzeros, hlog⟩ := log2_eq_leadingZeros h
  obtain ⟨place, hplace, hval⟩ := word?_eq_some (n := 63 - leadingZeros w) (by omega) (by omega)
  have hat : place.toNat = w.toNat.log2 := by omega
  have hroom : 2 ^ w.toNat.log2 < 2 ^ 64 := Nat.pow_lt_pow_right (by decide) (by omega)
  refine ⟨1 <<< place, Option.bind_eq_some_iff.mpr ⟨place, hplace, rfl⟩, ?_⟩
  rw [UInt64.toNat_shiftLeft, hat, Nat.mod_eq_of_lt (show w.toNat.log2 < 64 by omega),
    UInt64.toNat_one, Nat.one_shiftLeft, Nat.mod_eq_of_lt hroom, Descent.highBit_eq]

example : highWord? 0 = none := rfl

namespace WordDescent

/-- The descent that two words stand for. -/
def descent (d : WordDescent) : Descent :=
  { remaining := d.remaining.toNat, passed := d.passed.toNat }

/-- **A step above a positive rest, below an end that fits, stays within words and is the step of
the numbers.** -/
theorem step?_eq_some {d : WordDescent} (h : d.remaining.toNat ≠ 0)
    (fits : d.passed.toNat + d.remaining.toNat < 2 ^ 64) (direction : Direction) :
    ∃ below, d.step? direction = some below ∧ below.descent = d.descent.step direction := by
  obtain ⟨bit, hbit, hval⟩ := highWord?_eq_some h
  have hpos := Descent.highBit_pos d.remaining.toNat
  have hle := Descent.highBit_le h
  rw [← hval] at hpos hle
  cases direction with
  | left =>
      obtain ⟨below, hbelow, hrest⟩ :=
        word?_eq_some (n := bit.toNat - 1) (by omega) (by omega)
      have hbelow' : below.toNat = Descent.highBit d.remaining.toNat - 1 := by omega
      refine ⟨{ d with remaining := below }, ?_, ?_⟩
      · exact Option.bind_eq_some_iff.mpr
          ⟨bit, hbit, Option.bind_eq_some_iff.mpr ⟨below, hbelow, rfl⟩⟩
      · simp only [descent, Descent.step, hbelow']
  | right =>
      obtain ⟨passed, hpassed, hsum⟩ :=
        word?_eq_some (n := d.passed.toNat + bit.toNat) (by omega) (by omega)
      obtain ⟨below, hbelow, hrest⟩ :=
        word?_eq_some (n := d.remaining.toNat - bit.toNat) (by omega) (by omega)
      have hpassed' : passed.toNat = d.passed.toNat + Descent.highBit d.remaining.toNat := by omega
      have hbelow' : below.toNat = d.remaining.toNat - Descent.highBit d.remaining.toNat := by
        omega
      refine ⟨{ remaining := below, passed }, ?_, ?_⟩
      · exact Option.bind_eq_some_iff.mpr ⟨bit, hbit, Option.bind_eq_some_iff.mpr
          ⟨passed, hpassed, Option.bind_eq_some_iff.mpr ⟨below, hbelow, rfl⟩⟩⟩
      · simp only [descent, Descent.step, hpassed', hbelow']

/-- **A walk on words is the walk on their numbers.** -/
theorem walk?_eq_some (directions : List Direction) :
    ∀ {d : WordDescent}, d.descent.passed + d.descent.remaining < 2 ^ 64 →
      ∃ walked, d.walk? directions = some walked ∧
        walked.map UInt64.toNat = d.descent.walk directions := by
  induction directions with
  | nil =>
      intro d _
      refine ⟨_, rfl, ?_⟩
      by_cases hzero : d.remaining = 0
      · simp [Descent.walk, descent, hzero, Except.map]
      · have hne : d.remaining.toNat ≠ 0 := fun h => hzero (UInt64.toNat_inj.mp h)
        simp [Descent.walk, descent, hzero, hne, Except.map]
  | cons direction rest ih =>
      intro d fits
      by_cases hzero : d.remaining = 0
      · refine ⟨.error .calendarTooLong, ?_, ?_⟩
        · simp [walk?, hzero]
        · simp [Descent.walk, descent, hzero, Except.map]
      · have hne : d.remaining.toNat ≠ 0 := fun h => hzero (UInt64.toNat_inj.mp h)
        obtain ⟨below, hbelow, hstep⟩ := step?_eq_some hne fits direction
        -- The interval below ends no later, so its end fits too.
        obtain ⟨-, hend, -⟩ := Descent.step_inside (d := d.descent) hne direction
        rw [← hstep] at hend
        obtain ⟨walked, hwalked, hmap⟩ := ih (Nat.lt_of_le_of_lt hend fits)
        refine ⟨walked, ?_, ?_⟩
        · simp only [walk?, if_neg hzero, hbelow, Option.bind_eq_bind, Option.bind_some, hwalked]
        · rw [hmap, hstep, Descent.walk, if_neg (show d.descent.remaining ≠ 0 from hne)]

end WordDescent

/-! ### The whole computation -/

/-- **The registered second is computed within 64-bit words.** -/
theorem registeredInWords?_eq (publication : Time) (directions : List Direction) :
    registeredInWords? publication directions = some (registeredSecond publication directions) := by
  by_cases hepoch : publication.seconds < 0
  · have hword : word? publication.seconds = none := by
      rw [word?, if_neg (by omega)]
    simp only [registeredInWords?, hword, registeredSecond, if_pos hepoch]
  · have hlatest := publication.le_latest
    obtain ⟨start, hstart, hsec⟩ :=
      word?_eq_some (n := publication.seconds) (by omega) (by omega)
    have hval : start.toNat = publication.seconds.toNat := by omega
    have hzero : (0 : UInt64).toNat = 0 := rfl
    obtain ⟨walked, hwalked, hmap⟩ := WordDescent.walk?_eq_some directions.reverse
      (d := { remaining := start, passed := 0 })
      (by simp only [WordDescent.descent, hval, hzero]; omega)
    simp only [WordDescent.descent, hval, hzero] at hmap
    simp only [registeredInWords?, hstart, hwalked, Option.bind_eq_bind, Option.bind_some,
      registeredSecond, if_neg hepoch, ← hmap]
    cases walked <;> rfl

/-- The second that the chain's shape encodes, computed in words. -/
def CalendarChain.registrationInWords? (chain : CalendarChain) :
    Option (Except ChainError Time) :=
  (registeredInWords? chain.publicationTime chain.directions).map (·.mapError .computation)

theorem CalendarChain.registrationInWords?_eq (c : CalendarChain) :
    c.registrationInWords? = some c.registrationTime := by
  rw [registrationInWords?, registeredInWords?_eq, Option.map_some, registrationTime]
  cases registeredSecond c.publicationTime c.directions <;> rfl

end Keyless
