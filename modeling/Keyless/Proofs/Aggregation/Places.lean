/-
The rules about indexes give every chain its place below the topmost one.

One rule compares the index of a chain with that of the chain above it, the other with
the chain's own links, and neither looks further.  Put together they say what every index
is, in a stack of any height: the topmost chain's index, which ends with that chain's own
element, and behind it the elements of the chains further down, as far as the chain
itself (`AggregationChain.IsIndexedFrom`).

A chain that succeeds the one above it has its own element behind that one's index, so it
passes the other rule as well (`AggregationChain.Succeeds.isNumbered`).  Only about the
topmost chain does that rule say anything more.  The induction goes up the stack: a chain
at the bottom puts its element behind those that the chains above have in their indexes,
and changes none of them (`AggregationChain.isIndexedFrom_cons_iff`).
-/
import Keyless.Proofs.Aggregation.Binding

namespace Keyless

namespace AggregationChain

/-- Every chain of a stack has the index of the topmost one, and behind it the elements of the
chains below the topmost one down to itself. -/
structure IsIndexedFrom (top : AggregationChain) (chains : List AggregationChain)
    (elements : List UInt64) : Prop where
  topmost : chains.getLast? = some top
  /-- The elements are those of the chains, the lowest first. -/
  own : List.Forall₂ (fun chain element => chain.indexElement = .ok element) chains elements
  /-- The index at the top ends with the topmost chain's own element. -/
  ends : top.index.getLast? = elements.getLast?
  /-- A chain has the elements from its own on, and they are listed from below. -/
  index : ∀ k chain, chains[k]? = some chain →
    chain.index = top.index ++ (elements.dropLast.drop k).reverse

variable {top lower upper : AggregationChain} {others chains : List AggregationChain}
  {element : UInt64} {elements : List UInt64}

theorem Succeeds.isNumbered (h : lower.Succeeds upper) : lower.IsNumbered := by
  obtain ⟨element, helement, hindex⟩ := h
  exact ⟨element, helement, by rw [hindex, List.getLast?_concat]⟩

theorem exists_isIndexedFrom_singleton_iff :
    (∃ top elements, IsIndexedFrom top [lower] elements) ↔ lower.IsNumbered := by
  refine ⟨?_, ?_⟩
  · rintro ⟨top, elements, h⟩
    obtain rfl : lower = top := by simpa using h.topmost
    obtain ⟨element, others, helement, hothers, rfl⟩ := List.forall₂_cons_left_iff.mp h.own
    obtain rfl := List.forall₂_nil_left_iff.mp hothers
    exact ⟨element, helement, h.ends⟩
  · rintro ⟨element, helement, hlast⟩
    refine ⟨lower, [element], rfl, List.Forall₂.cons helement List.Forall₂.nil, hlast, ?_⟩
    intro k chain hchain
    cases k with
    | zero =>
        obtain rfl : lower = chain := by simpa using hchain
        simp
    | succ k => simp at hchain

/-- **A chain below a stack puts its own element behind the index above it.** -/
theorem isIndexedFrom_cons_iff :
    IsIndexedFrom top (lower :: upper :: others) (element :: elements) ↔
      lower.indexElement = .ok element ∧ lower.index = upper.index ++ [element] ∧
        IsIndexedFrom top (upper :: others) elements := by
  refine ⟨fun h => ?_, ?_⟩
  · obtain ⟨hown, hothers⟩ := List.forall₂_cons.mp h.own
    have hne : elements ≠ [] := by
      rintro rfl
      exact absurd hothers (by simp)
    have hindex := h.index
    rw [List.dropLast_cons_of_ne_nil hne] at hindex
    -- The two lowest indexes differ by the lowest element, wherever the topmost chain is.
    have hlower := hindex 0 lower rfl
    have hupper := hindex 1 upper rfl
    refine ⟨hown, ?_, by rw [← h.topmost, List.getLast?_cons_cons], hothers, ?_,
      fun k chain hchain => hindex (k + 1) chain hchain⟩
    · rw [hlower, hupper]
      simp
    · rw [h.ends, List.getLast?_cons_of_ne_nil hne]
  · rintro ⟨hown, hlower, h⟩
    have hne : elements ≠ [] := by
      rintro rfl
      exact absurd h.own (by simp)
    refine ⟨by rw [← h.topmost, List.getLast?_cons_cons], List.Forall₂.cons hown h.own,
      by rw [h.ends, List.getLast?_cons_of_ne_nil hne], ?_⟩
    intro k chain hchain
    rw [List.dropLast_cons_of_ne_nil hne]
    cases k with
    | zero =>
        obtain rfl : lower = chain := by simpa using hchain
        rw [hlower, h.index 0 upper rfl]
        simp
    | succ k => exact h.index k chain hchain

/-- **Chains have their places when they succeed one another and the topmost one is numbered.** -/
theorem exists_isIndexedFrom_iff (nonempty : chains ≠ []) :
    (∃ top elements, IsIndexedFrom top chains elements) ↔
      chains.IsChain Succeeds ∧ ∀ c ∈ chains, c.IsNumbered := by
  induction chains with
  | nil => exact absurd rfl nonempty
  | cons lower rest ih =>
      cases rest with
      | nil => simp [exists_isIndexedFrom_singleton_iff]
      | cons upper others =>
          rw [List.isChain_cons_cons, List.forall_mem_cons, and_and_and_comm,
            ← ih (List.cons_ne_nil upper others)]
          refine ⟨?_, ?_⟩
          · rintro ⟨top, elements, h⟩
            obtain ⟨element, rest, -, -, rfl⟩ := List.forall₂_cons_left_iff.mp h.own
            obtain ⟨hown, hlower, hrest⟩ := isIndexedFrom_cons_iff.mp h
            have hsucceeds : lower.Succeeds upper := ⟨element, hown, hlower⟩
            exact ⟨⟨hsucceeds, hsucceeds.isNumbered⟩, top, rest, hrest⟩
          · rintro ⟨⟨⟨element, hown, hlower⟩, -⟩, top, elements, h⟩
            exact ⟨top, element :: elements, isIndexedFrom_cons_iff.mpr ⟨hown, hlower, h⟩⟩

end AggregationChain

/--
**The two rules about indexes determine every index.**  They both give ok for a signature
exactly when the index of each of its chains is that of the topmost chain followed by the
elements of the chains below the topmost one, from the highest of them down to the chain
itself, and the index of the topmost chain ends with its own element.
-/
theorem Signature.indexes_determined (ctx : Context) (run run' : Run) :
    (Rule.aggregationChainIndexSuccessor.Gives ctx run .ok ∧
        Rule.aggregationChainIndex.Gives ctx run' .ok) ↔
      ∃ top elements, AggregationChain.IsIndexedFrom top ctx.signature.chains elements := by
  rw [AggregationChain.exists_isIndexedFrom_iff ctx.signature.chains_ne_nil]
  refine and_congr ?_ ?_
  · rw [Rule.gives_iff_of_settled rfl, indexSuccessorVerdict_eq_ok_iff]
  · rw [Rule.gives_iff_of_settled rfl, indexVerdict_eq_ok_iff]

end Keyless
