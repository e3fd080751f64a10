/-
The past that a chain keeps is as long as its second has ones.

A right link steps over a complete part of the calendar, and the part that is left
has fewer seconds than that one.  So the parts that a descent steps over are the
powers of two that its second is made of, one for each of its ones
(`Descent.count_right_of_walk`), wherever the calendar ends.

The check that a chain keeps another's past only asks for a first part of the newer
past, and so seems to let a newer chain have more of it.  Between chains that
register one second it cannot: both pasts have the same length, and a first part of
the whole length is the whole (`CalendarChain.keepsPast_iff_rightSiblings_eq`).
-/
import Mathlib.Data.Nat.BitIndices
import Keyless.Proofs.Calendar.Route

namespace Keyless

theorem bitIndices_two_pow_add {k m : Nat} (h : m < 2 ^ k) :
    (2 ^ k + m).bitIndices = m.bitIndices ++ [k] := by
  have hbelow : ∀ i ∈ m.bitIndices, i < k := by
    intro i hi
    have hle := Nat.two_pow_le_of_mem_bitIndices hi
    exact (Nat.pow_lt_pow_iff_right (by decide)).mp (Nat.lt_of_le_of_lt hle h)
  have hsorted : (m.bitIndices ++ [k]).SortedLT := by
    refine List.Pairwise.sortedLT (List.pairwise_append.mpr ⟨?_, ?_, ?_⟩)
    · exact Nat.bitIndices_sorted.pairwise
    · exact List.pairwise_singleton _ _
    · intro i hi j hj
      rw [List.mem_singleton.mp hj]
      exact hbelow i hi
  have hsum : ((m.bitIndices ++ [k]).map (2 ^ ·)).sum = 2 ^ k + m := by
    rw [List.map_append, List.sum_append, Nat.sum_map_two_pow_bitIndices, Nat.add_comm]
    simp
  rw [← hsum, Nat.bitIndices_sum_map_two_pow hsorted]

/-- **A descent goes right once for every one of the number of seconds that it passes.** -/
theorem Descent.count_right_of_walk {directions : List Direction} :
    ∀ {d : Descent} {second : Nat}, d.walk directions = .ok second →
      directions.count .right = (second - d.passed).bitIndices.length := by
  induction directions with
  | nil =>
      intro d second h
      obtain ⟨-, rfl⟩ := walk_nil h
      simp
  | cons direction rest ih =>
      intro d second h
      obtain ⟨hne, hrest⟩ := walk_cons h
      have hcount := ih hrest
      cases direction with
      | left =>
          rw [List.count_cons_of_ne (by decide), hcount]
          rfl
      | right =>
          obtain ⟨hlow, hhigh⟩ := walk_mem hrest
          simp only [step] at hcount hlow hhigh
          have hle := highBit_le hne
          have hlt := lt_two_mul_highBit d.remaining
          -- What is passed after the part is less than the part.
          have hsplit : second - d.passed =
              highBit d.remaining + (second - (d.passed + highBit d.remaining)) := by omega
          have hless : second - (d.passed + highBit d.remaining) < highBit d.remaining := by omega
          rw [highBit_eq] at hsplit hless hcount
          rw [List.count_cons_self, hcount, hsplit, bitIndices_two_pow_add hless,
            List.length_append, List.length_singleton]

namespace CalendarChain

theorem length_rightSiblings (c : CalendarChain) :
    c.rightSiblings.length = c.directions.count .right := by
  rw [rightSiblings, siblings, List.length_map, ← List.countP_eq_length_filter, directions,
    List.count, List.countP_map]
  rfl

/-- **A chain has one right link for every one of the second that it registers.** -/
theorem length_rightSiblings_of_registrationTime {c : CalendarChain} {time : Time}
    (registered : c.registrationTime = .ok time) :
    c.rightSiblings.length = time.seconds.toNat.bitIndices.length := by
  rw [registrationTime_eq_ok_iff, registeredSecond_eq_ok_iff] at registered
  have hcount := Descent.count_right_of_walk registered.2.2
  rw [List.count_reverse, Nat.sub_zero] at hcount
  rw [length_rightSiblings, hcount]

theorem keepsPast_iff {a b : CalendarChain} {time : Time}
    (registered : a.registrationTime = .ok time) (registered' : b.registrationTime = .ok time) :
    a.keepsPast b = true ↔ a.rightSiblings = b.rightSiblings := by
  rw [keepsPast, List.isPrefixOf_iff_prefix]
  refine ⟨fun h => h.eq_of_length ?_, fun h => h ▸ List.prefix_rfl⟩
  rw [length_rightSiblings_of_registrationTime registered,
    length_rightSiblings_of_registrationTime registered']

/--
**The check of the past cannot be passed with extra history.**  A chain has as many
right links as the second that it registers has ones, wherever the calendar ends.
So of two chains that register one second, one keeps the other's past exactly when
their right siblings are the same, and the order of the two does not matter.
-/
theorem keepsPast_iff_rightSiblings_eq (time : Time) :
    (∀ c : CalendarChain, c.registrationTime = .ok time →
        c.rightSiblings.length = time.seconds.toNat.bitIndices.length) ∧
      ∀ a b : CalendarChain, a.registrationTime = .ok time → b.registrationTime = .ok time →
        (a.keepsPast b = true ↔ a.rightSiblings = b.rightSiblings) ∧
          a.keepsPast b = b.keepsPast a := by
  refine ⟨fun c registered => length_rightSiblings_of_registrationTime registered, ?_⟩
  intro a b registered registered'
  have hforth := keepsPast_iff registered registered'
  have hback := keepsPast_iff registered' registered
  refine ⟨hforth, ?_⟩
  rw [Bool.eq_iff_iff, hforth, hback]
  exact eq_comm

/-- Second 3 has two ones, and so two right links in the calendars up to 3 and up to 6. -/
theorem keepsPast_iff_rightSiblings_eq_three :
    (ofDirections (.ofUInt32 6) [.right, .right, .left]).rightSiblings.length =
        (3 : Nat).bitIndices.length ∧
      ((ofDirections (.ofUInt32 3) [.right, .right]).keepsPast
          (ofDirections (.ofUInt32 6) [.right, .right, .left]) = true ↔
        (ofDirections (.ofUInt32 3) [.right, .right]).rightSiblings =
          (ofDirections (.ofUInt32 6) [.right, .right, .left]).rightSiblings) ∧
      (ofDirections (.ofUInt32 3) [.right, .right]).keepsPast
          (ofDirections (.ofUInt32 6) [.right, .right, .left]) =
        (ofDirections (.ofUInt32 6) [.right, .right, .left]).keepsPast
          (ofDirections (.ofUInt32 3) [.right, .right]) :=
  ⟨(keepsPast_iff_rightSiblings_eq (.ofUInt32 3)).1 _ rfl,
    (keepsPast_iff_rightSiblings_eq (.ofUInt32 3)).2 _ _ rfl rfl⟩

end CalendarChain

end Keyless
