/-
The levels of a chain are sums, and the sums decide where its fold ends.

A fold goes up one level for each link, and as many more as the link's correction says.
Corrections are any numbers of 64 bits and levels end at 255, so the level is tested at every
link, and the fold stops at the first that fails the test.  What comes of it can be said
without following the fold: the level above some links is the sum over them
(`levelAfter`), counted without bound, and the fold goes through when the sum over all of
them is a level.  Otherwise it stops at the first link above which the sum is none
(`Node.climb_outcome`, by induction over the links from any node up).

Two sums make a level, of which either could leave the 64 bits.  If one does then the
level is above 255 anyway, so adding up in words that do not wrap finds the same
(`levelInWords?_eq`).  And since no level above a link is 0, each takes exactly one octet of
what is hashed there (`Node.hashed_of_climb`).
-/
import Mathlib.Algebra.GroupWithZero.Nat
import Mathlib.Order.Bounds.Defs
import Keyless.Proofs.Aggregation.Height
import Keyless.Proofs.Signature.Prepending

namespace Keyless

/-! ### Levels in words -/

/-- The level one link above, added up in 64-bit words, of which no sum may wrap. -/
def levelInWords? (level correction : UInt64) : Option UInt64 :=
  match addWithin64? level 1 with
  | none => none
  | some next => (addWithin64? next correction).filter (·.toNat ≤ maxLevel)

/-- **The level one link above is the one that checked additions give.** -/
theorem levelInWords?_eq (level correction : UInt64) :
    levelInWords? level correction = levelAbove? level correction := by
  ext above
  rw [levelAbove?_eq_some_iff, levelInWords?]
  cases hnext : addWithin64? level 1 with
  | none =>
      -- The level is the last number that 64 bits hold, and so no link leads on from it.
      have hwraps : ¬ level.toNat + 1 < 18446744073709551616 := by
        intro hfits
        have hsome : addWithin64? level 1 = some (level + 1) := if_pos hfits
        exact absurd (hsome.symm.trans hnext) (by simp)
      have := maxLevel_lt
      simp only [reduceCtorEq, false_iff]
      omega
  | some next =>
      have hsum : next.toNat = level.toNat + 1 := addWithin64?_eq_some_iff.mp hnext
      simp only [Option.filter_eq_some_iff, addWithin64?_eq_some_iff, hsum, decide_eq_true_eq]

/-! ### Levels without bound -/

/-- The level above links that are climbed from a level: one more for each, and its correction. -/
def levelAfter (start : UInt64) (links : List Link) : Nat :=
  start.toNat + links.length + (links.map fun link => link.levelCorrection.toNat).sum

@[simp] theorem levelAfter_nil (start : UInt64) : levelAfter start [] = start.toNat := rfl

theorem levelAfter_cons {start next : UInt64} {link : Link}
    (h : next.toNat = start.toNat + 1 + link.levelCorrection.toNat) (rest : List Link) :
    levelAfter start (link :: rest) = levelAfter next rest := by
  simp only [levelAfter, List.length_cons, List.map_cons, List.sum_cons]
  omega

theorem levelAfter_mono {start : UInt64} {lower links : List Link}
    (h : lower <+: links) : levelAfter start lower ≤ levelAfter start links := by
  obtain ⟨upper, rfl⟩ := h
  simp only [levelAfter, List.length_append, List.map_append, List.sum_append]
  omega

/-- The link at a position is the first that leads above the highest level. -/
def IsFirstTooHigh (start : UInt64) (links : List Link) (position : Nat) : Prop :=
  IsLeast {i | i < links.length ∧ maxLevel < levelAfter start (links.take (i + 1))} position

namespace IsFirstTooHigh

variable {start next : UInt64} {link : Link} {links rest : List Link} {i : Nat}

theorem high (h : IsFirstTooHigh start links i) : maxLevel < levelAfter start links :=
  Nat.lt_of_lt_of_le h.1.2 (levelAfter_mono (List.take_prefix _ _))

theorem ne_nil (h : IsFirstTooHigh start links i) : links ≠ [] :=
  List.ne_nil_of_length_pos (Nat.zero_lt_of_lt h.1.1)

/-- The first link of all is the first to lead too far up, if it does. -/
theorem here (h : maxLevel < start.toNat + 1 + link.levelCorrection.toNat) (rest : List Link) :
    IsFirstTooHigh start (link :: rest) 0 := by
  refine ⟨⟨by simp, ?_⟩, fun _ _ => Nat.zero_le _⟩
  simp only [levelAfter, Nat.zero_add, List.take_succ_cons, List.take_zero, List.length_cons,
    List.length_nil, List.map_cons, List.map_nil, List.sum_cons, List.sum_nil]
  omega

/-- Behind a link that does not lead too far up, positions count one more. -/
theorem there (hsum : next.toNat = start.toNat + 1 + link.levelCorrection.toNat)
    (fits : next.toNat ≤ maxLevel) (h : IsFirstTooHigh next rest i) :
    IsFirstTooHigh start (link :: rest) (i + 1) := by
  obtain ⟨⟨hlt, hhigh⟩, hleast⟩ := h
  refine ⟨⟨by simpa using hlt, ?_⟩, ?_⟩
  · rwa [List.take_succ_cons, levelAfter_cons hsum]
  · rintro (_ | j) ⟨hj, hjhigh⟩
    · rw [List.take_succ_cons, levelAfter_cons hsum, List.take_zero, levelAfter_nil] at hjhigh
      omega
    · rw [List.take_succ_cons, levelAfter_cons hsum] at hjhigh
      have := hleast ⟨by simpa using hj, hjhigh⟩
      omega

theorem unique {j : Nat} (h : IsFirstTooHigh start links i) (h' : IsFirstTooHigh start links j) :
    i = j :=
  Nat.le_antisymm (h.2 h'.1) (h'.2 h.1)

end IsFirstTooHigh

/-! ### Climbing -/

namespace Node

variable {algorithm : HashAlgorithm} {links : List Link}

/-- **A climb leads to the level that the links add up to, or ends at the first of them above which
that is none.** -/
theorem climb_outcome (implemented : algorithm.requireImplemented = .ok ()) :
    (∀ link ∈ links, ∃ octets, link.sibling.octets = .ok octets) →
      ∀ (position : Nat) (node : Node),
        (∃ root, node.climb algorithm position links = .ok root ∧
            root.level.toNat = levelAfter node.level links ∧
            (links ≠ [] → root.level.toNat ≤ maxLevel)) ∨
          ∃ i, IsFirstTooHigh node.level links i ∧
            node.climb algorithm position links =
              .error (.computation (.levelExceeded (position + i))) := by
  induction links with
  | nil =>
      intro _ position node
      exact Or.inl ⟨node, rfl, rfl, fun hne => absurd rfl hne⟩
  | cons link rest ih =>
      intro encodable position node
      obtain ⟨hlink, hrest⟩ := List.forall_mem_cons.mp encodable
      by_cases fits : node.level.toNat + 1 + link.levelCorrection.toNat ≤ maxLevel
      · obtain ⟨next, hnext, hsum⟩ := Link.exists_above hlink implemented position fits
        rw [climb, hnext]
        rcases ih hrest (position + 1) next with ⟨root, hroot, hlevel, hle⟩ | ⟨i, hfirst, hfault⟩
        · refine Or.inl ⟨root, hroot, hlevel.trans (levelAfter_cons hsum rest).symm, fun _ => ?_⟩
          by_cases hlast : rest = []
          · rw [hlast, levelAfter_nil] at hlevel
            omega
          · exact hle hlast
        · refine Or.inr ⟨i + 1, hfirst.there hsum (by omega), hfault.trans ?_⟩
          rw [Nat.add_assoc, Nat.add_comm 1]
      · refine Or.inr ⟨0, .here (by omega) rest, ?_⟩
        rw [climb, Link.above_of_tooHigh position (by omega)]
        rfl

/-- **What is hashed at a link of a climb ends in the level above the link, in one octet.** -/
theorem hashed_of_climb :
    ∀ {position : Nat} {node root : Node}, node.climb algorithm position links = .ok root →
      ∀ {i : Nat} {link : Link}, links[i]? = some link →
        ∃ running level message, node.hashedAlong? algorithm position links i = some message ∧
          link.message running level = .ok message ∧
          level.toNat = levelAfter node.level (links.take (i + 1)) ∧
          ∃ octet, Bytes.minimal level = [octet] ∧ octet ≠ 0 := by
  induction links with
  | nil =>
      intro position node root _ i link hlink
      exact absurd hlink (by simp)
  | cons first rest ih =>
      intro position node root h i link hlink
      obtain ⟨next, hnext, hrest⟩ := climb_cons.mp h
      obtain ⟨message, habove, hmessage, -⟩ := Link.above_eq_ok_iff.mp hnext
      obtain ⟨hsum, -⟩ := levelAbove?_eq_some_iff.mp habove
      cases i with
      | zero =>
          obtain rfl : first = link := by simpa using hlink
          obtain ⟨hpos, hle⟩ := Link.level_of_levelAbove? habove
          refine ⟨node.hash, next.level, message, Link.hashed?_eq_some habove hmessage, hmessage,
            by rw [List.take_succ_cons, levelAfter_cons hsum]; rfl, _,
            Bytes.minimal_level hpos hle, ?_⟩
          rw [ne_eq, ← UInt8.toNat_inj, UInt8.toNat_ofNat', Nat.mod_eq_of_lt (by omega)]
          exact hpos
      | succ i =>
          obtain ⟨running, level, message, hhashed, hrest⟩ := ih hrest (by simpa using hlink)
          refine ⟨running, level, message, ?_, ?_⟩
          · rw [hashedAlong?, hnext]
            exact hhashed
          · rwa [List.take_succ_cons, levelAfter_cons hsum]

end Node

namespace AggregationChain

/-- What can be said of the levels of a chain that is folded from a level. -/
structure AccountsForLevels (chain : AggregationChain) (start : UInt64) : Prop where
  /-- The chain leads to a root when its levels, counted without bound, add up to a level. -/
  leads_iff : (∃ root, chain.output start = .ok root) ↔
    chain.links = [] ∨ levelAfter start chain.links ≤ maxLevel
  /-- The root is at that level. -/
  level_eq : ∀ root, chain.output start = .ok root →
    root.level.toNat = levelAfter start chain.links
  /-- Else the fold fails, and names the first link above which the sum is no level. -/
  fault_iff : ∀ fault, chain.output start = .error fault ↔
    ∃ position, IsFirstTooHigh start chain.links position ∧
      fault = .computation (.levelExceeded position)
  /-- Levels are added up in words, of which none wraps. -/
  inWords : ∀ level correction, levelAbove? level correction = levelInWords? level correction
  /-- What is hashed at a link ends in the level above the link, in one octet that is not 0. -/
  inOctets : ∀ root, chain.output start = .ok root → ∀ i link, chain.links[i]? = some link →
    ∃ running level message,
      Node.hashedAlong? chain.algorithm 0 { hash := chain.inputHash, level := start }
        chain.links i = some message ∧
      link.message running level = .ok message ∧
      level.toNat = levelAfter start (chain.links.take (i + 1)) ∧
      ∃ octet, Bytes.minimal level = [octet] ∧ octet ≠ 0

/--
**Level accounting.**  Every chain of an implemented algorithm, whose siblings all have octets,
accounts for its levels, whatever its corrections are and whichever level it is folded from.
-/
theorem accountsForLevels {chain : AggregationChain}
    (implemented : chain.algorithm.isImplemented = true)
    (encodable : ∀ link ∈ chain.links, ∃ octets, link.sibling.octets = .ok octets)
    (start : UInt64) : chain.AccountsForLevels start := by
  have outcome := Node.climb_outcome (HashAlgorithm.requireImplemented_eq_ok_iff.mpr implemented)
    encodable 0 { hash := chain.inputHash, level := start }
  simp only [Nat.zero_add] at outcome
  have inWords level correction := (levelInWords?_eq level correction).symm
  have inOctets root (hroot : chain.output start = .ok root) i link
      (hlink : chain.links[i]? = some link) := Node.hashed_of_climb hroot hlink
  rcases outcome with ⟨root, hroot, hlevel, hle⟩ | ⟨position, hfirst, hfault⟩
  · have houtput : chain.output start = .ok root := hroot
    have hfits : chain.links = [] ∨ levelAfter start chain.links ≤ maxLevel := by
      by_cases hempty : chain.links = []
      · exact Or.inl hempty
      · exact Or.inr (hlevel ▸ hle hempty)
    refine
      { leads_iff := ⟨fun _ => hfits, fun _ => ⟨root, houtput⟩⟩
        level_eq := ?_, fault_iff := ?_, inWords, inOctets }
    · intro root' hroot'
      rw [← Except.ok.inj (houtput.symm.trans hroot'), hlevel]
    · intro fault
      rw [houtput]
      refine ⟨fun h => absurd h (by simp), ?_⟩
      rintro ⟨position, hfirst, -⟩
      have hhigh := hfirst.high
      exact absurd hfits (not_or.mpr ⟨hfirst.ne_nil, by omega⟩)
  · have houtput : chain.output start = .error (.computation (.levelExceeded position)) := hfault
    have hfails : ∀ root, chain.output start ≠ .ok root := fun root h => by simp [houtput] at h
    have hhigh := hfirst.high
    refine
      { leads_iff := ⟨fun ⟨root, hroot⟩ => absurd hroot (hfails root), ?_⟩
        level_eq := fun root hroot => absurd hroot (hfails root)
        fault_iff := ?_, inWords, inOctets }
    · intro hfits
      exact absurd hfits (not_or.mpr ⟨hfirst.ne_nil, by omega⟩)
    · intro fault
      rw [houtput, Except.error.injEq]
      refine ⟨fun h => ⟨position, hfirst, h.symm⟩, ?_⟩
      rintro ⟨position', hfirst', rfl⟩
      rw [hfirst.unique hfirst']

/-- Three levels below the highest the lower storey, which climbs three, can still be folded.  One
level further up its second link is the first to lead too far. -/
theorem accountsForLevels_lowerStorey :
    (∃ root, Signature.lowerStorey.output 252 = .ok root ∧ root.level.toNat = 255) ∧
      Signature.lowerStorey.output 253 = .error (.computation (.levelExceeded 1)) := by
  have implemented : Signature.lowerStorey.algorithm.isImplemented = true := rfl
  have encodable : ∀ link ∈ Signature.lowerStorey.links,
      ∃ octets, link.sibling.octets = .ok octets := by
    have sound : Signature.lowerStorey.check = .ok () := rfl
    intro link hlink
    exact (Link.check_eq_ok_iff.mp ((check_eq_ok_iff.mp sound).2.2.2 link hlink)).1
  have fits := accountsForLevels implemented encodable 252
  have exceeds := accountsForLevels implemented encodable 253
  obtain ⟨root, hroot⟩ := fits.leads_iff.mpr (Or.inr (by decide))
  have reached : (255 : UInt64).toNat = (253 : UInt64).toNat + 1 + 1 := rfl
  have first : IsFirstTooHigh 253 Signature.lowerStorey.links 1 :=
    .there reached (by decide) (.here (by decide) [])
  exact ⟨⟨root, hroot, fits.level_eq root hroot⟩, (exceeds.fault_iff _).mpr ⟨1, first, rfl⟩⟩

end AggregationChain

end Keyless
