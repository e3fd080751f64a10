/-
How far the signatures that factories hand out can be folded.

Two rules of internal consistency fold chains.  The one about consistency folds each chain
that has another one above it, to compare what it leads to with the input of that one; what
the topmost chain leads to it has nothing to compare with, and does not compute.  The one
about the calendar chain's input folds the whole stack, but only where there is a calendar
chain.  So the levels of a signature are all accounted for with a calendar chain, and
without one those of all chains but the topmost.

Of what is handed out (`Factory.HandsOut`), by whichever operation, it follows that it folds
up to its topmost chain, and as a whole exactly as that chain does from there.  Whatever has
a calendar chain folds as a whole, extended signatures among them.  Nothing follows for the
topmost chain of the others, and a signature of a single chain that leads past the highest
level is handed out (`Factory.create_upperStorey`).
-/
import Keyless.Proofs.Aggregation.Height
import Keyless.Proofs.Factory
import Keyless.Proofs.Signature.Prepending

namespace Keyless

/-! ### Stacks of which all but the topmost chain were folded -/

/-- Chains that fold together lead as a whole where the topmost one leads, from the level that those
below it reach. -/
theorem Node.climbChains_of_foldsTogether {chains : List AggregationChain} :
    ∀ {node : Node} (nonempty : chains ≠ []), (∀ chain ∈ chains, chain.check = .ok ()) →
      node.level.toNat ≤ maxLevel → FoldsTogether node.level chains →
      ∃ level : UInt64, level.toNat = node.level.toNat + stackHeight chains.dropLast ∧
        level.toNat ≤ maxLevel ∧
        node.climbChains chains = (chains.getLast nonempty).output level := by
  induction chains with
  | nil =>
      intro node nonempty
      exact absurd rfl nonempty
  | cons lowest rest ih =>
      intro node _ sound room together
      cases rest with
      | nil =>
          refine ⟨node.level, rfl, room, ?_⟩
          show (lowest.output node.level >>= pure) = _
          rw [bind_pure, List.getLast_singleton]
      | cons upper others =>
          obtain ⟨next, hnext, -, hrest⟩ := together
          obtain ⟨hlowest, hothers⟩ := List.forall_mem_cons.mp sound
          obtain ⟨hlevel, hmax⟩ := (AggregationChain.output_climbs hlowest room).level_eq hnext
          obtain ⟨level, hheight, hfits, hclimbs⟩ :=
            ih (List.cons_ne_nil _ _) hothers (by omega) hrest
          refine ⟨level, ?_, hfits, ?_⟩
          · rw [List.dropLast_cons_cons, stackHeight]
            omega
          · rw [climbChains, hnext, List.getLast_cons_cons]
            exact hclimbs

namespace Signature

/-- The chain at the top, which leads to the root of the round. -/
def topChain (s : Signature) : AggregationChain := s.chains.getLast s.chains_ne_nil

/-- The chains below the topmost one fold, and that chain folds from there or leads too far up,
which it may only where nothing follows above it. -/
structure FoldsToTop (s : Signature) : Prop where
  below : ∃ level : UInt64, level.toNat = stackHeight s.chains.dropLast ∧ level.toNat ≤ maxLevel ∧
    aggregateOutput s.chains = s.topChain.output level
  top : (∃ root, aggregateOutput s.chains = .ok root) ∨
    s.calendarChain = none ∧ maxLevel < stackHeight s.chains ∧
      ∃ position, aggregateOutput s.chains = .error (.computation (.levelExceeded position))

theorem foldsToTop_of_foldsTogether {s : Signature} (together : FoldsTogether 0 s.chains)
    (anchored : s.calendarChain ≠ none → ∃ root, aggregateOutput s.chains = .ok root) :
    s.FoldsToTop where
  below := by
    have room : s.leaf.level.toNat ≤ maxLevel := Nat.zero_le _
    obtain ⟨level, hheight, hfits, hclimbs⟩ :=
      Node.climbChains_of_foldsTogether s.chains_ne_nil s.check_of_mem_chains room together
    refine ⟨level, ?_, hfits, s.aggregateOutput_eq_climbChains.trans hclimbs⟩
    rw [hheight]
    exact Nat.zero_add _
  top := by
    rcases s.aggregateOutput_climbs with ⟨-, root, hroot, -⟩ | ⟨high, position, hfault⟩
    · exact Or.inl ⟨root, hroot⟩
    · by_cases hcalendar : s.calendarChain = none
      · exact Or.inr ⟨hcalendar, by omega, position, hfault⟩
      · exact Or.inl (anchored hcalendar)

end Signature

namespace Factory

variable {f : Factory} {s : Signature}

/-- The factory hands out the signature when asked for something. -/
inductive HandsOut (f : Factory) (s : Signature) : Prop where
  | create {parts : SignatureParts} {level : UInt64} {log log' : List ExtensionRequest}
      (h : f.create parts level log = (.ok s, log'))
  | prepend {base : Signature} {chain : AggregationChain} {log log' : List ExtensionRequest}
      (h : f.prepend base chain log = (.ok s, log'))
  | extend {base : Signature} {publication : PublicationRecord} {log log' : List ExtensionRequest}
      (h : f.extend base publication log = (.ok s, log'))

/-- Whatever is handed out was found consistent, as a signature for some document. -/
theorem HandsOut.exists_isConsistent (handed : f.HandsOut s)
    (listed : f.policies ∈ PolicyChain.builtIn) :
    ∃ document level, (f.context s document level).IsConsistent := by
  cases handed with
  | create h =>
      obtain ⟨base, -, -, result, run, verified, ok, -⟩ := create_eq_ok_iff.mp h
      exact ⟨_, _, PolicyChain.isConsistent_of_verify listed verified ok⟩
  | prepend h =>
      obtain ⟨-, result, run, verified, ok, -⟩ := prepend_eq_ok_iff.mp h
      exact ⟨_, _, PolicyChain.isConsistent_of_verify listed verified ok⟩
  | extend h =>
      obtain ⟨_, _, -, -, result, run, verified, ok, -⟩ := extend_eq_ok_iff.mp h
      exact ⟨_, _, PolicyChain.isConsistent_of_verify listed verified ok⟩

theorem HandsOut.foldsTogether (handed : f.HandsOut s)
    (listed : f.policies ∈ PolicyChain.builtIn) : FoldsTogether 0 s.chains := by
  obtain ⟨document, level, consistent⟩ := handed.exists_isConsistent listed
  exact consistent.isCoherent.chains

theorem HandsOut.exists_aggregateOutput (handed : f.HandsOut s)
    (listed : f.policies ∈ PolicyChain.builtIn) (anchored : s.calendarChain ≠ none) :
    ∃ root, aggregateOutput s.chains = .ok root := by
  obtain ⟨document, level, consistent⟩ := handed.exists_isConsistent listed
  obtain ⟨calendar, hcalendar⟩ := Option.ne_none_iff_exists'.mp anchored
  obtain ⟨⟨root, hroot, -⟩, -⟩ := consistent.isCoherent.calendar calendar hcalendar
  exact ⟨root, hroot⟩

theorem exists_create_of_state {log : List ExtensionRequest}
    (ok : (f.policies.verify (f.context s s.inputHash 0) (.start log)).1.toOption.map
      VerificationResult.state = some .ok) :
    ∃ log', f.create s.parts 0 log = (.ok s, log') := by
  obtain ⟨result, run, verified, hstate⟩ := PolicyChain.exists_verify_of_state ok
  have made : Signature.ofParts s.parts = .ok s := Signature.ofParts_eq_ok_iff.mpr rfl
  exact ⟨run.log, create_eq_ok_iff.mpr ⟨s, made, rfl, result, run, verified, hstate, rfl⟩⟩

/--
**What a factory hands out folds up to its topmost chain.**  Whatever it is asked for, a
signature that a factory with a built-in policy hands out has a fold that goes through, or
that fails in the topmost chain, of a signature without a calendar chain.
-/
theorem foldsToTop_of_handsOut (listed : f.policies ∈ PolicyChain.builtIn)
    (handed : f.HandsOut s) : s.FoldsToTop :=
  Signature.foldsToTop_of_foldsTogether (handed.foldsTogether listed)
    (handed.exists_aggregateOutput listed)

/-- A signature with a calendar chain is handed out, and folds. -/
theorem foldsToTop_of_handsOut_anchoredSignature :
    internal.policies ∈ PolicyChain.builtIn ∧
      ∃ log, internal.create anchoredSignature.parts 0 [] = (.ok anchoredSignature, log) ∧
        ∃ root, aggregateOutput anchoredSignature.chains = .ok root := by
  have listed : internal.policies ∈ PolicyChain.builtIn := by decide
  have ok : (internal.policies.verify (internal.context anchoredSignature
      anchoredSignature.inputHash 0) (.start [])).1.toOption.map VerificationResult.state =
        some .ok := by
    decide +kernel
  obtain ⟨log, handed⟩ := exists_create_of_state ok
  refine ⟨listed, log, handed, ?_⟩
  rcases (foldsToTop_of_handsOut listed (.create handed)).top with folds | ⟨hnone, -⟩
  · exact folds
  · exact absurd hnone (by decide)

/-- The upper storey alone is handed out with a correction that takes it past the highest level, and
cannot be folded. -/
theorem create_upperStorey :
    ∃ log, internal.create (Signature.upperStorey 255).parts 0 [] =
        (.ok (Signature.upperStorey 255), log) ∧
      aggregateOutput (Signature.upperStorey 255).chains =
        .error (.computation (.levelExceeded 0)) := by
  have ok : (internal.policies.verify (internal.context (Signature.upperStorey 255)
      (Signature.upperStorey 255).inputHash 0) (.start [])).1.toOption.map
        VerificationResult.state = some .ok := by
    decide +kernel
  obtain ⟨log, handed⟩ := exists_create_of_state ok
  exact ⟨log, handed, rfl⟩

end Factory

end Keyless
