/-
The index of a chain tells its shape.

What a link hashes does not say on which side the running hash stood: a left link
with one sibling and a right link with the hashes exchanged have the same message.
So a root hash alone does not bind the directions of a chain; the chain index
does.  Its last element is the chain's own number, the number has a leading one in
front of its directions, and so neither the directions nor how many there are can
be told differently from it (`directionNumber_injective`).  The one stands above as
many places as there are directions, so an element has room for less than 64 of them
(`directionNumber_lt_iff`).
-/
import Mathlib.Algebra.Group.Nat.Defs
import Mathlib.Data.List.Chain
import Keyless.Proofs.Outcome
import Keyless.Proofs.Verification.Policy

namespace Keyless

/-! ### The number of a list of directions -/

/-- The leading one stands above as many places as there are directions. -/
theorem two_pow_le_directionNumber (directions : List Direction) :
    2 ^ directions.length ≤ directionNumber directions := by
  induction directions with
  | nil => simp [directionNumber]
  | cons direction rest ih =>
      rw [directionNumber, List.length_cons, Nat.pow_succ]
      omega

theorem directionNumber_pos (directions : List Direction) : 1 ≤ directionNumber directions :=
  Nat.le_trans Nat.one_le_two_pow (two_pow_le_directionNumber directions)

/-- **A number fits into a word when there are less than 64 directions.** -/
theorem directionNumber_lt_iff {directions : List Direction} :
    directionNumber directions < 2 ^ 64 ↔ directions.length < 64 := by
  have hlow := two_pow_le_directionNumber directions
  have hhigh := directionNumber_lt directions
  rw [Nat.one_shiftLeft] at hhigh
  refine ⟨fun h => ?_, fun h => ?_⟩
  · exact (Nat.pow_lt_pow_iff_right (by omega)).mp (Nat.lt_of_le_of_lt hlow h)
  · exact Nat.lt_of_lt_of_le hhigh (Nat.pow_le_pow_right (by omega) h)

theorem Direction.bit_le (direction : Direction) : direction.bit ≤ 1 := by
  cases direction <;> simp [bit]

theorem Direction.bit_injective {d d' : Direction} (h : d.bit = d'.bit) : d = d' := by
  cases d <;> cases d' <;> simp_all [Direction.bit]

/-- **The number of a list of directions tells the list.** -/
theorem directionNumber_injective {directions : List Direction} :
    ∀ {directions' : List Direction},
      directionNumber directions = directionNumber directions' → directions = directions' := by
  induction directions with
  | nil =>
      intro directions' h
      cases directions' with
      | nil => rfl
      | cons direction rest =>
          have := directionNumber_pos rest
          rw [directionNumber, directionNumber] at h
          omega
  | cons direction rest ih =>
      intro directions' h
      have hbit := direction.bit_le
      cases directions' with
      | nil =>
          have := directionNumber_pos rest
          rw [directionNumber, directionNumber] at h
          omega
      | cons direction' rest' =>
          have hbit' := direction'.bit_le
          rw [directionNumber, directionNumber] at h
          have hrest : directionNumber rest = directionNumber rest' := by omega
          have hside : direction.bit = direction'.bit := by omega
          rw [Direction.bit_injective hside, ih hrest]

theorem indexElement_eq_ok_iff {directions : List Direction} {element : UInt64} :
    indexElement directions = .ok element ↔
      directions.length < 64 ∧ element.toNat = directionNumber directions := by
  unfold indexElement
  by_cases hlong : 64 ≤ directions.length
  · rw [if_pos hlong]
    refine ⟨fun h => absurd h (by simp), fun h => absurd h.1 (by omega)⟩
  · have hshort : directions.length < 64 := by omega
    rw [if_neg hlong, Except.ok.injEq, ← UInt64.toNat_inj, UInt64.toNat_ofNat',
      Nat.mod_eq_of_lt (directionNumber_lt_iff.mpr hshort)]
    exact ⟨fun h => ⟨hshort, h.symm⟩, fun h => h.2.symm⟩

theorem AggregationChain.exists_indexElement_iff {c : AggregationChain} :
    (∃ element, c.indexElement = .ok element) ↔ c.links.length < 64 := by
  have hlength : c.directions.length = c.links.length := List.length_map _
  rw [← hlength]
  refine ⟨fun ⟨element, helement⟩ => (indexElement_eq_ok_iff.mp helement).1, fun hshort => ?_⟩
  exact ⟨_, if_neg (by omega)⟩

theorem AggregationChain.indexElement_eq_error_iff {c : AggregationChain} {fault : ChainError} :
    c.indexElement = .error fault ↔
      64 ≤ c.links.length ∧ fault = .computation (.indexTooLong c.links.length) := by
  have hlength : c.directions.length = c.links.length := List.length_map _
  unfold indexElement Keyless.indexElement
  rw [hlength]
  by_cases hlong : 64 ≤ c.links.length
  · simp [hlong, eq_comm]
  · simp [hlong]

/-- **An index element tells the directions of its chain.** -/
theorem AggregationChain.directions_eq_of_indexElement {c c' : AggregationChain}
    {element : UInt64} (h : c.indexElement = .ok element) (h' : c'.indexElement = .ok element) :
    c.directions = c'.directions := by
  obtain ⟨-, hnumber⟩ := indexElement_eq_ok_iff.mp h
  obtain ⟨-, hnumber'⟩ := indexElement_eq_ok_iff.mp h'
  exact directionNumber_injective (hnumber.symm.trans hnumber')

/-! ### The rule about indexes -/

/-- The index ends with the element that the chain's own links stand for. -/
def AggregationChain.IsNumbered (c : AggregationChain) : Prop :=
  ∃ element, c.indexElement = .ok element ∧ c.index.getLast? = some element

theorem indexVerdict_isClear_iff {chains : List AggregationChain} :
    (∃ verdict, indexVerdict chains = .ok verdict ∧ verdict.IsClear) ↔
      ∀ c ∈ chains, c.IsNumbered := by
  induction chains with
  | nil => simp [indexVerdict, Verdict.IsClear]
  | cons chain rest ih =>
      rw [List.forall_mem_cons, ← ih, indexVerdict, Verdict.exists_isClear_step_iff]
      refine ⟨?_, ?_⟩
      · rintro ⟨element, helement, hlast, hrest⟩
        exact ⟨⟨element, helement, hlast⟩, hrest⟩
      · rintro ⟨⟨element, helement, hlast⟩, hrest⟩
        exact ⟨element, helement, hlast, hrest⟩

theorem indexVerdict_ne {verdict : Verdict} (ok : verdict ≠ .ok) (fail : verdict ≠ .fail)
    {chains : List AggregationChain} : indexVerdict chains ≠ .ok verdict := by
  induction chains with
  | nil => simp [indexVerdict, ok.symm]
  | cons chain rest ih =>
      rw [indexVerdict]
      exact Verdict.step_ne fail fun _ => ih

theorem indexVerdict_eq_ok_iff {chains : List AggregationChain} :
    indexVerdict chains = .ok .ok ↔ ∀ c ∈ chains, c.IsNumbered :=
  (Verdict.exists_isClear_iff (indexVerdict_ne (by decide) (by decide))).symm.trans
    indexVerdict_isClear_iff

/-- The lower chain's index is the upper one's with the lower chain's own element behind it. -/
def AggregationChain.Succeeds (lower upper : AggregationChain) : Prop :=
  ∃ element, lower.indexElement = .ok element ∧ lower.index = upper.index ++ [element]

theorem indexSuccessorVerdict_isClear_iff {chains : List AggregationChain} :
    (∃ verdict, indexSuccessorVerdict chains = .ok verdict ∧ verdict.IsClear) ↔
      chains.IsChain AggregationChain.Succeeds := by
  induction chains with
  | nil => simp [indexSuccessorVerdict, Verdict.IsClear]
  | cons lower rest ih =>
      cases rest with
      | nil => simp [indexSuccessorVerdict, Verdict.IsClear]
      | cons upper others =>
          rw [List.isChain_cons_cons, ← ih, indexSuccessorVerdict, Verdict.exists_isClear_step_iff]
          refine ⟨?_, ?_⟩
          · rintro ⟨element, helement, hindex, hrest⟩
            exact ⟨⟨element, helement, hindex⟩, hrest⟩
          · rintro ⟨⟨element, helement, hindex⟩, hrest⟩
            exact ⟨element, helement, hindex, hrest⟩

theorem indexSuccessorVerdict_ne {verdict : Verdict} (ok : verdict ≠ .ok) (fail : verdict ≠ .fail)
    {chains : List AggregationChain} : indexSuccessorVerdict chains ≠ .ok verdict := by
  induction chains with
  | nil => simp [indexSuccessorVerdict, ok.symm]
  | cons lower rest ih =>
      cases rest with
      | nil => simp [indexSuccessorVerdict, ok.symm]
      | cons upper others =>
          rw [indexSuccessorVerdict]
          exact Verdict.step_ne fail fun _ => ih

theorem indexSuccessorVerdict_eq_ok_iff {chains : List AggregationChain} :
    indexSuccessorVerdict chains = .ok .ok ↔ chains.IsChain AggregationChain.Succeeds :=
  (Verdict.exists_isClear_iff (indexSuccessorVerdict_ne (by decide) (by decide))).symm.trans
    indexSuccessorVerdict_isClear_iff

/-- Chains of one index that pass the rule have one shape. -/
theorem AggregationChain.directions_eq_of_index {c c' : AggregationChain}
    (index : c.index = c'.index) (own : c.IsNumbered) (own' : c'.IsNumbered) :
    c.directions = c'.directions := by
  obtain ⟨element, helement, hlast⟩ := own
  obtain ⟨element', helement', hlast'⟩ := own'
  rw [index, hlast', Option.some.injEq] at hlast
  rw [hlast] at helement'
  exact directions_eq_of_indexElement helement helement'

end Keyless
