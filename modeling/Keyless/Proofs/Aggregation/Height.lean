/-
Folding the chains of a signature fails only by height.

The check of a signature settles everything that a step needs beside its level: the
sibling has octets and the algorithm has a function.  The level is the other half.  It
grows by one and the link's correction at every link, so how far up a stack leads is the
sum of these (`stackHeight`), and the fold goes through when that is not above the highest
level and otherwise fails at the link where it is (`Climbs`).  There is no third way,
which is said of one link, of the links of a chain and of a stack of chains by the same
lemma about two steps one after another (`Climbs.bind`).
-/
import Keyless.Proofs.Imprint
import Keyless.Proofs.Signature
import Keyless.Proofs.Verification.Policy

namespace Keyless

/-! ### Heights -/

/-- How far above a chain's input its root stands. -/
def linksHeight : List Link → Nat
  | [] => 0
  | link :: rest => 1 + link.levelCorrection.toNat + linksHeight rest

/-- How far above the leaves the root of a stack of chains stands. -/
def stackHeight : List AggregationChain → Nat
  | [] => 0
  | chain :: rest => linksHeight chain.links + stackHeight rest

/-- A fold from a level leads as far up as it should, or fails because that is too far. -/
def Climbs (level height : Nat) (fold : Except ChainError Node) : Prop :=
  (level + height ≤ maxLevel ∧ ∃ root, fold = .ok root ∧ root.level.toNat = level + height) ∨
    (maxLevel < level + height ∧
      ∃ position, fold = .error (.computation (.levelExceeded position)))

namespace Climbs

variable {level height : Nat} {fold : Except ChainError Node}

theorem level_eq (h : Climbs level height fold) {root : Node} (ok : fold = .ok root) :
    root.level.toNat = level + height ∧ level + height ≤ maxLevel := by
  rcases h with ⟨hle, root', hfold, hlevel⟩ | ⟨-, position, hfold⟩
  · obtain rfl : root' = root := Except.ok.inj (hfold.symm.trans ok)
    exact ⟨hlevel, hle⟩
  · exact absurd (hfold.symm.trans ok) (by simp)

theorem fault_eq (h : Climbs level height fold) {fault : ChainError}
    (failed : fold = .error fault) :
    maxLevel < level + height ∧ ∃ position, fault = .computation (.levelExceeded position) := by
  rcases h with ⟨-, root, hfold, -⟩ | ⟨hlt, position, hfold⟩
  · exact absurd (hfold.symm.trans failed) (by simp)
  · exact ⟨hlt, position, Except.error.inj (failed.symm.trans hfold)⟩

/-- **Two folds, one on top of the other, lead as far up as both together.** -/
theorem bind {above : Nat} {next : Node → Except ChainError Node} (first : Climbs level height fold)
    (second : ∀ node : Node, node.level.toNat = level + height → node.level.toNat ≤ maxLevel →
      Climbs node.level.toNat above (next node)) :
    Climbs level (height + above) (fold >>= next) := by
  rcases first with ⟨hle, node, rfl, hlevel⟩ | ⟨hlt, position, rfl⟩
  · have hsecond := second node hlevel (by omega)
    rw [hlevel] at hsecond
    show Climbs level (height + above) (next node)
    simpa only [Climbs, Nat.add_assoc] using hsecond
  · exact Or.inr ⟨by omega, position, rfl⟩

end Climbs

/-! ### One link, one chain, all chains -/

namespace Link

variable {link : Link} {algorithm : HashAlgorithm} {node : Node}

theorem exists_message (encodable : ∃ octets, link.sibling.octets = .ok octets)
    (running : Imprint) (level : UInt64) :
    ∃ message, link.message running level = .ok message := by
  obtain ⟨octets, hoctets⟩ := encodable
  exact ⟨_, bind_pure_eq_ok_iff.mpr ⟨octets, hoctets, rfl⟩⟩

theorem exists_above (encodable : ∃ octets, link.sibling.octets = .ok octets)
    (implemented : algorithm.requireImplemented = .ok ()) (position : Nat)
    (fits : node.level.toNat + 1 + link.levelCorrection.toNat ≤ maxLevel) :
    ∃ next, link.above algorithm position node = .ok next ∧
      next.level.toNat = node.level.toNat + 1 + link.levelCorrection.toNat := by
  obtain ⟨level, habove⟩ : ∃ level, levelAbove? node.level link.levelCorrection = some level :=
    ⟨_, if_pos fits⟩
  obtain ⟨hsum, -⟩ := levelAbove?_eq_some_iff.mp habove
  obtain ⟨message, hmessage⟩ := exists_message encodable node.hash level
  obtain ⟨hash, hhash⟩ := HashAlgorithm.exists_hash implemented message
  refine ⟨{ hash, level }, ?_, hsum⟩
  simp only [above, habove, hmessage, hhash, bind, Except.bind, pure, Except.pure]

/-- A link that leads too far up fails, and names its position. -/
theorem above_of_tooHigh (position : Nat)
    (high : maxLevel < node.level.toNat + 1 + link.levelCorrection.toNat) :
    link.above algorithm position node = .error (.computation (.levelExceeded position)) := by
  have habove : levelAbove? node.level link.levelCorrection = none := if_neg (by omega)
  simp only [above, habove]

theorem above_climbs (sound : link.check = .ok ())
    (implemented : algorithm.requireImplemented = .ok ()) (position : Nat) (node : Node) :
    Climbs node.level.toNat (1 + link.levelCorrection.toNat)
      (link.above algorithm position node) := by
  by_cases fits : node.level.toNat + 1 + link.levelCorrection.toNat ≤ maxLevel
  · obtain ⟨encodable, -⟩ := check_eq_ok_iff.mp sound
    obtain ⟨next, hnext, hlevel⟩ := exists_above encodable implemented position fits
    exact Or.inl ⟨by omega, next, hnext, by omega⟩
  · exact Or.inr ⟨by omega, position, above_of_tooHigh position (by omega)⟩

end Link

theorem Node.climb_climbs {algorithm : HashAlgorithm}
    (implemented : algorithm.requireImplemented = .ok ()) {links : List Link} :
    (∀ link ∈ links, link.check = .ok ()) → ∀ (position : Nat) (node : Node),
      node.level.toNat ≤ maxLevel →
      Climbs node.level.toNat (linksHeight links) (node.climb algorithm position links) := by
  induction links with
  | nil =>
      intro _ position node hlevel
      exact Or.inl ⟨hlevel, node, rfl, rfl⟩
  | cons link rest ih =>
      intro sound position node _
      obtain ⟨hlink, hrest⟩ := List.forall_mem_cons.mp sound
      exact (link.above_climbs hlink implemented position node).bind
        fun next _ hnext => ih hrest (position + 1) next hnext

namespace AggregationChain

theorem output_climbs {chain : AggregationChain} (sound : chain.check = .ok ()) {level : UInt64}
    (room : level.toNat ≤ maxLevel) :
    Climbs level.toNat (linksHeight chain.links) (chain.output level) := by
  obtain ⟨-, implemented, -, hlinks⟩ := check_eq_ok_iff.mp sound
  exact Node.climb_climbs implemented hlinks 0 { hash := chain.inputHash, level } room

end AggregationChain

theorem Node.climbChains_climbs {chains : List AggregationChain} :
    (∀ chain ∈ chains, chain.check = .ok ()) → ∀ node : Node, node.level.toNat ≤ maxLevel →
      Climbs node.level.toNat (stackHeight chains) (node.climbChains chains) := by
  induction chains with
  | nil =>
      intro _ node hlevel
      exact Or.inl ⟨hlevel, node, rfl, rfl⟩
  | cons chain rest ih =>
      intro sound node hlevel
      obtain ⟨hchain, hrest⟩ := List.forall_mem_cons.mp sound
      exact (AggregationChain.output_climbs hchain hlevel).bind
        fun next _ hnext => ih hrest next hnext

/-- The rule about consistency fails to come to a verdict only by the height of the stack. -/
theorem consistencyVerdict_fault {chains : List AggregationChain} :
    (∀ chain ∈ chains, chain.check = .ok ()) → ∀ {level : UInt64} {fault : ChainError},
      level.toNat ≤ maxLevel → consistencyVerdict level chains = .error fault →
      maxLevel < level.toNat + stackHeight chains ∧
        ∃ position, fault = .computation (.levelExceeded position) := by
  induction chains with
  | nil =>
      intro _ level fault _ h
      exact absurd h (by simp [consistencyVerdict])
  | cons lower rest ih =>
      intro sound level fault hlevel h
      obtain ⟨hlower, hrest⟩ := List.forall_mem_cons.mp sound
      cases rest with
      | nil => exact absurd h (by simp [consistencyVerdict])
      | cons upper others =>
          have hclimbs := AggregationChain.output_climbs hlower hlevel
          rw [consistencyVerdict, Verdict.step_eq_error_iff] at h
          rw [stackHeight]
          rcases h with hfailed | ⟨node, hnode, -, hnext⟩
          · obtain ⟨hlt, hfault⟩ := hclimbs.fault_eq hfailed
            exact ⟨by omega, hfault⟩
          · obtain ⟨hsum, hmax⟩ := hclimbs.level_eq hnode
            obtain ⟨hlt, hfault⟩ := ih hrest (by omega) hnext
            exact ⟨by omega, hfault⟩

namespace Signature

/-- **The chains of a signature lead to the root of the round unless they lead too far up.** -/
theorem aggregateOutput_climbs (s : Signature) :
    Climbs 0 (stackHeight s.chains) (aggregateOutput s.chains) := by
  have sound := s.check_of_mem_chains
  rw [s.chains_eq_cons] at sound ⊢
  obtain ⟨hlowest, hrest⟩ := List.forall_mem_cons.mp sound
  have hleaves : (0 : UInt64).toNat ≤ maxLevel := Nat.zero_le _
  have hfirst := AggregationChain.output_climbs hlowest hleaves
  exact hfirst.bind fun node _ hnode => Node.climbChains_climbs hrest node hnode

end Signature

end Keyless
