/-
What a summary shows of chains that cannot all be folded.

A summary goes up the chains like the fold of the stack, but past a chain that cannot be
folded it goes on from the level that was reached below it.  So what it shows of a chain
is a fold of a stack still: of the chains below that are shown with a level, and the
chain above them (`Signature.summarize_shows`).  Where every chain below is shown with a
level, this is the fold of the whole stack up to the chain; and the whole stack folds
exactly when each of its chains is shown with a level.
-/
import Keyless.Inspection
import Keyless.Proofs.Aggregation.Binding
import Keyless.Signature.Reshaping

namespace Keyless

/-! ### Stacks one above another -/

theorem Node.climbChains_append {lower upper : List AggregationChain} :
    ∀ {node : Node}, node.climbChains (lower ++ upper) =
      node.climbChains lower >>= fun next => next.climbChains upper := by
  induction lower with
  | nil =>
      intro node
      rfl
  | cons chain rest ih =>
      intro node
      simp only [List.cons_append, climbChains, ih, bind_assoc]

/-! ### What is shown of one chain -/

namespace ChainSummary

/-- The chain is shown with what a fold comes to: hash and level, or the error and no level. -/
structure Shows (shown : ChainSummary) (fold : Except ChainError Node) : Prop where
  /-- There is a level exactly when the fold succeeds, and it is the fold's. -/
  level : ∀ n, shown.level? = some n ↔ ∃ node, fold = .ok node ∧ node.level = n
  hash : ∀ node, fold = .ok node → shown.hashText = node.hash.text
  fault : ∀ fault, fold = .error fault → shown.hashText = "error: " ++ fault.message

theorem shows_output (shown : ChainSummary) : shown.Shows shown.output where
  level n := by
    rw [level?, toOption_eq_some_iff, map_eq_ok_iff]
  hash node h := by
    rw [hashText, h]
    rfl
  fault fault h := by
    rw [hashText, h]
    rfl

/-- The chain is shown with a level. -/
def isFolded (shown : ChainSummary) : Bool := shown.level?.isSome

theorem isFolded_iff {shown : ChainSummary} :
    shown.isFolded = true ↔ ∃ node, shown.output = .ok node := by
  rw [isFolded, Option.isSome_iff_exists]
  simp only [shown.shows_output.level]
  exact ⟨fun ⟨_, node, h, _⟩ => ⟨node, h⟩, fun ⟨node, h⟩ => ⟨_, node, h, rfl⟩⟩

end ChainSummary

/-! ### Going on past a fault -/

section Summarized

variable {chains above : List AggregationChain} {level : UInt64}

theorem summarizeChains_cons_of_ok {chain : AggregationChain} {node : Node}
    (output : chain.output level = .ok node) :
    summarizeChains level (chain :: chains) =
      { chain, output := .ok node } :: summarizeChains node.level chains := by
  rw [summarizeChains, output]

theorem summarizeChains_cons_of_error {chain : AggregationChain} {fault : ChainError}
    (output : chain.output level = .error fault) :
    summarizeChains level (chain :: chains) =
      { chain, output := .error fault } :: summarizeChains level chains := by
  rw [summarizeChains, output]

theorem map_chain_summarizeChains : ∀ {level : UInt64},
    (summarizeChains level chains).map ChainSummary.chain = chains := by
  induction chains with
  | nil =>
      intro level
      rfl
  | cons chain rest ih =>
      intro level
      rw [summarizeChains, List.map_cons, ih]

theorem take_summarizeChains (position : Nat) : ∀ {level : UInt64},
    (summarizeChains level chains).take position =
      summarizeChains level (chains.take position) := by
  induction chains generalizing position with
  | nil =>
      intro level
      simp [summarizeChains]
  | cons chain rest ih =>
      intro level
      cases position with
      | zero => rfl
      | succ position => rw [summarizeChains, List.take_succ_cons, List.take_succ_cons, ih,
          summarizeChains]

/-- The chains that are shown with a level. -/
def foldedChains (shown : List ChainSummary) : List AggregationChain :=
  (shown.filter ChainSummary.isFolded).map ChainSummary.chain

/-- **The chains that are shown with a level can be climbed**, and what is shown above them is what
is shown from the level that they lead to. -/
theorem exists_climbChains_foldedChains (chains : List AggregationChain) : ∀ node : Node,
    ∃ top, node.climbChains (foldedChains (summarizeChains node.level chains)) = .ok top ∧
      ∀ above, summarizeChains node.level (chains ++ above) =
        summarizeChains node.level chains ++ summarizeChains top.level above := by
  induction chains with
  | nil =>
      intro node
      exact ⟨node, rfl, fun _ => rfl⟩
  | cons chain rest ih =>
      intro node
      cases houtput : chain.output node.level with
      | error fault =>
          obtain ⟨top, hclimbed, habove⟩ := ih node
          refine ⟨top, ?_, fun above => ?_⟩
          · rw [summarizeChains_cons_of_error houtput]
            exact hclimbed
          · rw [List.cons_append, summarizeChains_cons_of_error houtput,
              summarizeChains_cons_of_error houtput, habove, List.cons_append]
      | ok next =>
          obtain ⟨top, hclimbed, habove⟩ := ih next
          refine ⟨top, ?_, fun above => ?_⟩
          · rw [summarizeChains_cons_of_ok houtput]
            exact Node.climbChains_cons.mpr ⟨next, houtput, hclimbed⟩
          · rw [List.cons_append, summarizeChains_cons_of_ok houtput,
              summarizeChains_cons_of_ok houtput, habove, List.cons_append]

theorem exists_climbChains_iff (chains : List AggregationChain) : ∀ node : Node,
    (∃ top, node.climbChains chains = .ok top) ↔
      ∀ shown ∈ summarizeChains node.level chains, shown.isFolded = true := by
  induction chains with
  | nil =>
      intro node
      simp [Node.climbChains, summarizeChains]
  | cons chain rest ih =>
      intro node
      simp only [Node.climbChains_cons]
      cases houtput : chain.output node.level with
      | error fault =>
          rw [summarizeChains_cons_of_error houtput]
          simp [ChainSummary.isFolded_iff]
      | ok next =>
          rw [summarizeChains_cons_of_ok houtput, List.forall_mem_cons, ← ih next]
          simp [ChainSummary.isFolded_iff]

end Summarized

/-! ### The summary of a signature -/

namespace Signature

/-- The chains below a position that the summary shows with a level. -/
def foldedBelow (s : Signature) (position : Nat) : List AggregationChain :=
  foldedChains (s.summarize.chains.take position)

/-- What stands at a position is the fold of the chains shown with a level below, and the chain. -/
theorem summarize_chains_get (s : Signature) (i : Fin s.chains.length) :
    s.summarize.chains[i.val]? = some
      { chain := s.chains[i], output := aggregateOutput (s.foldedBelow i ++ [s.chains[i]]) } := by
  have hsplit : s.chains = s.chains.take i ++ s.chains[i] :: s.chains.drop (i + 1) := by simp
  obtain ⟨top, hclimbed, habove⟩ :=
    exists_climbChains_foldedChains (s.chains.take i) ⟨s.lowestChain.inputHash, 0⟩
  have hbelow : s.foldedBelow i = foldedChains (summarizeChains 0 (s.chains.take i)) :=
    congrArg foldedChains (take_summarizeChains i)
  have houtput : aggregateOutput (s.foldedBelow i ++ [s.chains[i]]) =
      s.chains[i].output top.level := by
    rw [aggregateOutput_of_ne_nil (by simp) s.lowestChain.inputHash, Node.climbChains_append,
      hbelow, hclimbed]
    show (s.chains[i].output top.level >>= fun next => next.climbChains []) = _
    cases s.chains[i].output top.level <;> rfl
  have hshown : s.summarize.chains = summarizeChains 0 (s.chains.take i) ++
      summarizeChains top.level (s.chains[i] :: s.chains.drop (i + 1)) := by
    rw [← habove, ← hsplit]
    rfl
  have hlength : (summarizeChains 0 (s.chains.take i)).length = i := by
    rw [← List.length_map ChainSummary.chain, map_chain_summarizeChains,
      List.length_take_of_le i.isLt.le]
  rw [hshown, List.getElem?_append_right (by rw [hlength]), hlength, Nat.sub_self, houtput]
  rfl

/-- Where all chains below a position are shown with a level, they are the whole stack below. -/
theorem foldedBelow_eq_take {s : Signature} {position : Nat}
    (all : ∀ shown ∈ s.summarize.chains.take position, shown.isFolded = true) :
    s.foldedBelow position = s.chains.take position := by
  rw [foldedBelow, foldedChains, List.filter_eq_self.mpr all]
  show ((summarizeChains 0 s.chains).take position).map ChainSummary.chain = _
  rw [take_summarizeChains, map_chain_summarizeChains]

/--
**What a summary shows of a stack.**  Every chain is shown with the fold of the chains
below it that are shown with a level, and of itself.  The stack up to a chain folds
exactly when the chain and all below it are shown with a level; and where all below it
are, the chain is shown with the fold of the stack up to it, whether that succeeds or not.
-/
theorem summarize_shows (s : Signature) (i : Fin s.chains.length) :
    ∃ shown, s.summarize.chains[i.val]? = some shown ∧ shown.chain = s.chains[i] ∧
      shown.Shows (aggregateOutput (s.foldedBelow i ++ [s.chains[i]])) ∧
      ((∃ root, aggregateOutput (s.chains.take (i + 1)) = .ok root) ↔
        ∀ other ∈ s.summarize.chains.take (i + 1), other.isFolded = true) ∧
      ((∀ other ∈ s.summarize.chains.take i, other.isFolded = true) →
        shown.Shows (aggregateOutput (s.chains.take (i + 1)))) := by
  refine ⟨_, s.summarize_chains_get i, rfl, ChainSummary.shows_output _, ?_, fun all => ?_⟩
  · have hnonempty : s.chains.take (i + 1) ≠ [] := by simp [s.chains_ne_nil]
    have hshown : s.summarize.chains.take (i + 1) =
        summarizeChains 0 (s.chains.take (i + 1)) := take_summarizeChains _
    rw [aggregateOutput_of_ne_nil hnonempty s.lowestChain.inputHash, hshown]
    exact exists_climbChains_iff _ _
  · have htake : s.chains.take (i + 1) = s.foldedBelow i ++ [s.chains[i]] := by
      rw [foldedBelow_eq_take all]
      exact List.take_succ_eq_append_getElem i.isLt
    rw [htake]
    exact ChainSummary.shows_output _

/-- Two storeys, the lower of which leads past the highest level. -/
def overgrownSignature : Signature where
  parts :=
    { chains := setFirstCorrection 255 (twoStoreys (.ofUInt32 1000)), calendarChain := none
      authenticationRecord := none, publicationRecord := none, timestampRecord := none }
  check_parts := rfl

/-- The upper storey is shown at the level that it has on its own, and the stack up to it cannot be
folded. -/
theorem summarize_overgrownSignature :
    (overgrownSignature.summarize.chains[1]?).bind ChainSummary.level? = some 1 ∧
      aggregateOutput (overgrownSignature.chains.take 2) =
        .error (.computation (.levelExceeded 0)) :=
  ⟨by decide +kernel, rfl⟩

end Signature

end Keyless
