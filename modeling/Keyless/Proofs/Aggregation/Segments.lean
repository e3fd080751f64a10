/-
How a path is cut into chains does not matter.

A stack is folded chain by chain.  Each chain begins at the hash that it states itself,
and only the level is handed over from below.  So a stack is a single path where the
stated hashes are the ones that are led to, which is what the rule about consistency
asks of it (`FoldsTogether`).  There the borders between chains leave no trace in the
root: it is the root of one chain with all the links (`Node.climbChains_iff_climb`).
In the other direction a chain may be cut anywhere, each piece beginning where the piece
below it leads (`AggregationChain.cut`), and what comes of it folds together.

Only faults know of the borders.  A fault names the position of a link, and positions
are counted from the beginning of each chain.  Hence everything here is about folds that
go through, for which it is shown first that positions do not count
(`Node.climb_of_position`).
-/
import Keyless.Proofs.Aggregation.Binding

namespace Keyless

/-! ### Links one after another -/

namespace Node

variable {algorithm : HashAlgorithm} {links lower upper : List Link}

theorem climb_of_position :
    ∀ {position position' : Nat} {node root : Node},
      node.climb algorithm position links = .ok root →
      node.climb algorithm position' links = .ok root := by
  induction links with
  | nil =>
      intro position position' node root h
      exact h
  | cons link rest ih =>
      intro position position' node root h
      obtain ⟨next, hnext, hrest⟩ := climb_cons.mp h
      have hnext' : link.above algorithm position' node = .ok next :=
        Link.above_eq_ok_iff.mpr (Link.above_eq_ok_iff.mp hnext)
      exact climb_cons.mpr ⟨next, hnext', ih hrest⟩

/-- **Links are climbed in one go, or the lower ones first and the others from there.** -/
theorem climb_append (position' : Nat) :
    ∀ {position : Nat} {node root : Node},
      node.climb algorithm position (lower ++ upper) = .ok root ↔
        ∃ next, node.climb algorithm position lower = .ok next ∧
          next.climb algorithm position' upper = .ok root := by
  induction lower with
  | nil =>
      intro position node root
      simp only [List.nil_append, climb, Except.ok.injEq, exists_eq_left']
      exact ⟨climb_of_position, climb_of_position⟩
  | cons link rest ih =>
      intro position node root
      simp only [List.cons_append, climb_cons, ih]
      refine ⟨?_, ?_⟩
      · rintro ⟨first, hfirst, next, hrest, hupper⟩
        exact ⟨next, ⟨first, hfirst, hrest⟩, hupper⟩
      · rintro ⟨next, ⟨first, hfirst, hrest⟩, hupper⟩
        exact ⟨first, hfirst, next, hrest, hupper⟩

end Node

/-! ### Chains one above another -/

theorem AggregationChain.output_eq_climb {chain : AggregationChain} {node : Node}
    (begins : node.hash = chain.inputHash) :
    chain.output node.level = node.climb chain.algorithm 0 chain.links := by
  unfold output
  rw [← begins]

/-- **Chains of one algorithm that join are climbed like all of their links in one chain.** -/
theorem Node.climbChains_iff_climb {algorithm : HashAlgorithm} {chains : List AggregationChain} :
    ∀ {node root : Node}, (∀ chain ∈ chains, chain.algorithm = algorithm) → node.Joins chains →
      (node.climbChains chains = .ok root ↔
        node.climb algorithm 0 (chains.flatMap AggregationChain.links) = .ok root) := by
  induction chains with
  | nil =>
      intro node root _ _
      exact Iff.rfl
  | cons chain rest ih =>
      intro node root algorithms joins
      obtain ⟨rfl, hrest⟩ := List.forall_mem_cons.mp algorithms
      obtain ⟨hbegins, hjoins⟩ := joins
      rw [climbChains_cons, List.flatMap_cons, climb_append 0,
        AggregationChain.output_eq_climb hbegins]
      refine exists_congr fun next => and_congr_right fun hnext => ih hrest (hjoins next ?_)
      rw [AggregationChain.output_eq_climb hbegins, hnext]

theorem foldsTogether_of_joins {chains : List AggregationChain} :
    ∀ {node root : Node}, node.Joins chains → node.climbChains chains = .ok root →
      FoldsTogether node.level chains := by
  induction chains with
  | nil =>
      intro node root _ _
      trivial
  | cons lower rest ih =>
      intro node root joins climbs
      cases rest with
      | nil => trivial
      | cons upper others =>
          obtain ⟨next, hnext, hrest⟩ := Node.climbChains_cons.mp climbs
          have hjoins := joins.2 next hnext
          exact ⟨next, hnext, hjoins.1, ih hjoins hrest⟩

/-! ### Joining and cutting -/

namespace AggregationChain

/-- One chain in place of a stack: from the lowest chain's input along the links of all chains. -/
def joined (lowest : AggregationChain) (rest : List AggregationChain) : AggregationChain :=
  { lowest with links := (lowest :: rest).flatMap links }

/-- Pieces of a chain from a node up, each of which begins at the hash to which the piece below it
leads. -/
def cutAbove (chain : AggregationChain) :
    Node → List (List Link) → Except ChainError (List AggregationChain)
  | _, [] => .ok []
  | node, links :: rest => do
    let piece := { chain with inputHash := node.hash, links }
    let next ← piece.output node.level
    let above ← chain.cutAbove next rest
    return piece :: above

/-- The chain as a stack of chains with these pieces of its links. -/
def cut (chain : AggregationChain) (pieces : List (List Link)) :
    Except ChainError (List AggregationChain) :=
  chain.cutAbove { hash := chain.inputHash, level := 0 } pieces

theorem exists_cutAbove {chain : AggregationChain} {pieces : List (List Link)} :
    ∀ {node root : Node}, node.climb chain.algorithm 0 pieces.flatten = .ok root →
      ∃ stack, chain.cutAbove node pieces = .ok stack ∧ stack.map links = pieces ∧
        (∀ piece ∈ stack, piece.algorithm = chain.algorithm) ∧ node.Joins stack := by
  induction pieces with
  | nil =>
      intro node root _
      exact ⟨[], rfl, rfl, by simp, trivial⟩
  | cons links rest ih =>
      intro node root climbs
      rw [List.flatten_cons, Node.climb_append 0] at climbs
      obtain ⟨next, hnext, hrest⟩ := climbs
      obtain ⟨above, habove, hlinks, halgorithms, hjoins⟩ := ih hrest
      have hpiece : AggregationChain.output { chain with inputHash := node.hash, links }
          node.level = .ok next := hnext
      refine ⟨{ chain with inputHash := node.hash, links } :: above, ?_, ?_, ?_, rfl, ?_⟩
      · simp only [cutAbove, hpiece, habove, bind, Except.bind, pure, Except.pure]
      · rw [List.map_cons, hlinks]
      · exact List.forall_mem_cons.mpr ⟨rfl, halgorithms⟩
      · intro next' hnext'
        rw [← Except.ok.inj (hpiece.symm.trans hnext')]
        exact hjoins

end AggregationChain

/--
**How a path is cut into chains does not matter.**  A stack of chains of one algorithm that
fold together leads to a root exactly when the one chain with all of their links leads to
it.  And a chain that leads to a root may be cut anywhere, into one piece or more: they make
a stack that folds together, as the rule about consistency confirms, and that leads to the
same root.
-/
theorem aggregateOutput_segmented :
    (∀ (algorithm : HashAlgorithm) (lowest : AggregationChain) (rest : List AggregationChain),
      (∀ chain ∈ lowest :: rest, chain.algorithm = algorithm) → FoldsTogether 0 (lowest :: rest) →
      ∀ root, aggregateOutput (lowest :: rest) = .ok root ↔
        (lowest.joined rest).output 0 = .ok root) ∧
    (∀ (chain : AggregationChain) (root : Node) (first : List Link) (more : List (List Link)),
      chain.output 0 = .ok root → (first :: more).flatten = chain.links →
      ∃ stack, chain.cut (first :: more) = .ok stack ∧
        stack.map AggregationChain.links = first :: more ∧
        FoldsTogether 0 stack ∧ aggregateOutput stack = .ok root) ∧
    ∀ stack, FoldsTogether 0 stack ↔ consistencyVerdict 0 stack = .ok .ok := by
  refine ⟨?_, ?_, fun stack => consistencyVerdict_eq_ok_iff.symm⟩
  · intro algorithm lowest rest algorithms together root
    obtain rfl := algorithms lowest List.mem_cons_self
    exact Node.climbChains_iff_climb algorithms (joins_of_foldsTogether together)
  · intro chain root first more output whole
    have climbs : Node.climb chain.algorithm 0 { hash := chain.inputHash, level := 0 }
        (first :: more).flatten = .ok root := by
      rw [whole]
      exact output
    obtain ⟨stack, hcut, hlinks, algorithms, joins⟩ := AggregationChain.exists_cutAbove climbs
    have hflat : stack.flatMap AggregationChain.links = (first :: more).flatten := by
      rw [List.flatMap, hlinks]
    have hroot : Node.climbChains { hash := chain.inputHash, level := 0 } stack = .ok root := by
      rw [Node.climbChains_iff_climb algorithms joins, hflat]
      exact climbs
    refine ⟨stack, hcut, hlinks, foldsTogether_of_joins joins hroot, ?_⟩
    cases stack with
    | nil => simp at hlinks
    | cons lowest rest =>
        -- The lowest piece states the chain's own input, so the stack is folded from there.
        have hinput : chain.inputHash = lowest.inputHash := joins.1
        rw [hinput] at hroot
        exact hroot

/-- The two storeys, joined to one chain, lead to their root, and so does every link as a chain of
its own. -/
theorem aggregateOutput_segmented_twoStoreys :
    ∃ lowest rest, twoStoreys (.ofUInt32 0) = lowest :: rest ∧
      (lowest.joined rest).output 0 = .ok rootOfTwoStoreys ∧
      ∃ stack, stack.length = 3 ∧ aggregateOutput stack = .ok rootOfTwoStoreys := by
  refine ⟨_, _, rfl, ?_⟩
  have together : FoldsTogether 0 (twoStoreys (.ofUInt32 0)) :=
    (aggregateOutput_segmented.2.2 _).mpr (by decide +kernel)
  have algorithms : ∀ chain ∈ twoStoreys (.ofUInt32 0), chain.algorithm = .sha256 := by decide
  have output := (aggregateOutput_segmented.1 _ _ _ algorithms together rootOfTwoStoreys).mp
    (twoStoreys_output _)
  obtain ⟨stack, -, hlinks, -, hroot⟩ := aggregateOutput_segmented.2.1 _ _ [_] [[_], [_]] output rfl
  refine ⟨output, stack, ?_, hroot⟩
  rw [← List.length_map AggregationChain.links, hlinks]
  rfl

end Keyless
