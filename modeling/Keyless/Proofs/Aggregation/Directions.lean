/-
Every number but 0 is the index element of one list of directions.

That an element tells the directions is known (`directionNumber_injective`).  Here it is
shown which elements there are: every positive number is reached, for its lowest digit is
the first direction, and half of it is the number of the others
(`exists_directionNumber_eq`).

Index elements are words.  Shifting directions into a word one after another, from the
last link to the first, gives the number as long as no one is shifted out at the top, and
the first to be shifted out would be the leading one.  That happens at the 64th direction
and not before, so the limit on the length is exactly the limit of the words
(`AggregationChain.elementInWords?_eq`).

For the rule about indexes it follows that a chain's index leaves no choice of a shape.
Signatures with the indexes of one that passes the rule pass it when all of their chains
have the same directions, and otherwise do not (`AggregationChain.shapes_biject_elements`).
-/
import Mathlib.Data.Set.Function
import Keyless.Proofs.Aggregation.Binding

namespace Keyless

/-! ### The numbers that there are -/

/-- **Every positive number is the number of some directions.** -/
theorem exists_directionNumber_eq {number : Nat} :
    1 ≤ number → ∃ directions, directionNumber directions = number := by
  induction number using Nat.strong_induction_on with
  | _ number ih =>
      intro hpos
      by_cases hone : number = 1
      · exact ⟨[], hone.symm⟩
      · obtain ⟨rest, hrest⟩ := ih (number / 2) (by omega) (by omega)
        rcases Nat.mod_two_eq_zero_or_one number with heven | hodd
        · refine ⟨.right :: rest, ?_⟩
          simp only [directionNumber, Direction.bit, hrest]
          omega
        · refine ⟨.left :: rest, ?_⟩
          simp only [directionNumber, Direction.bit, hrest]
          omega

/-- Lists of less than 64 directions have an element each, and every word but 0 is one of them. -/
theorem indexElement_bijOn :
    Set.BijOn indexElement {directions | directions.length < 64}
      (Except.ok '' {element | element ≠ 0}) := by
  refine ⟨?_, ?_, ?_⟩
  · intro directions short
    refine ⟨UInt64.ofNat (directionNumber directions), ?_, (if_neg (Nat.not_le.mpr short)).symm⟩
    have hpos := directionNumber_pos directions
    have hlt := directionNumber_lt_iff.mpr short
    intro hzero
    have := congrArg UInt64.toNat hzero
    rw [UInt64.toNat_ofNat', Nat.mod_eq_of_lt hlt, UInt64.toNat_zero] at this
    omega
  · intro directions short directions' _ same
    have h : indexElement directions = .ok _ := if_neg (Nat.not_le.mpr short)
    have h' := same.symm.trans h
    exact directionNumber_injective
      ((indexElement_eq_ok_iff.mp h).2.symm.trans (indexElement_eq_ok_iff.mp h').2)
  · rintro _ ⟨element, nonzero, rfl⟩
    have hpos : 1 ≤ element.toNat := by
      by_contra hnot
      exact nonzero (UInt64.toNat_inj.mp (by rw [UInt64.toNat_zero]; omega))
    obtain ⟨directions, hnumber⟩ := exists_directionNumber_eq hpos
    have short : directions.length < 64 := by
      rw [← directionNumber_lt_iff, hnumber]
      exact element.toNat_lt
    exact ⟨directions, short, indexElement_eq_ok_iff.mpr ⟨short, hnumber.symm⟩⟩

/-! ### The number in a word -/

/-- The direction as the lowest bit of a word. -/
def Direction.word : Direction → UInt64
  | .left => 1
  | .right => 0

/-- The word shifted up by one place with the direction below, if no one is shifted out. -/
def shiftIn? (word : UInt64) (direction : Direction) : Option UInt64 :=
  if word >>> 63 = 0 then some ((word <<< 1) ||| direction.word) else none

/-- The directions of links shifted into a word behind a one, from the last link to the first. -/
def elementInWords? (links : List Link) : Option UInt64 :=
  links.reverse.foldlM (fun word link => shiftIn? word link.direction) 1

/-- **A direction is shifted in when there is room for twice the word.** -/
theorem shiftIn?_eq_some_iff {word next : UInt64} {direction : Direction} :
    shiftIn? word direction = some next ↔ next.toNat = 2 * word.toNat + direction.bit := by
  have hword := word.toNat_lt
  have hnext := next.toNat_lt
  have hbit := direction.bit_le
  have htop : word >>> 63 = 0 ↔ word.toNat < 2 ^ 63 := by
    rw [← UInt64.toNat_inj, UInt64.toNat_shiftRight, UInt64.toNat_zero, Nat.shiftRight_eq_div_pow]
    show word.toNat / 2 ^ 63 = 0 ↔ word.toNat < 2 ^ 63
    omega
  unfold shiftIn?
  by_cases hroom : word.toNat < 2 ^ 63
  · have hlow : direction.word.toNat = direction.bit := by cases direction <;> rfl
    have hshift : (word <<< 1).toNat = 2 ^ 1 * word.toNat := by
      rw [UInt64.toNat_shiftLeft]
      show word.toNat <<< 1 % 2 ^ 64 = 2 ^ 1 * word.toNat
      rw [Nat.shiftLeft_eq, Nat.mod_eq_of_lt (by omega), Nat.mul_comm]
    have hsum : ((word <<< 1) ||| direction.word).toNat = 2 * word.toNat + direction.bit := by
      rw [UInt64.toNat_or, hshift, hlow, ← Nat.two_pow_add_eq_or_of_lt (by omega)]
    rw [if_pos (htop.mpr hroom), Option.some.injEq, ← UInt64.toNat_inj, hsum, eq_comm]
  · rw [if_neg (fun h => hroom (htop.mp h))]
    simp only [reduceCtorEq, false_iff]
    omega

theorem elementInWords?_cons (link : Link) (rest : List Link) :
    elementInWords? (link :: rest) =
      (elementInWords? rest).bind fun word => shiftIn? word link.direction := by
  simp [elementInWords?, List.foldlM_append]

/-- **Links are shifted into a word exactly when the word has room for their number.** -/
theorem elementInWords?_eq_some_iff {links : List Link} :
    ∀ {element : UInt64}, elementInWords? links = some element ↔
      element.toNat = directionNumber (links.map Link.direction) := by
  induction links with
  | nil =>
      intro element
      show some 1 = some element ↔ element.toNat = 1
      rw [Option.some.injEq, ← UInt64.toNat_inj, UInt64.toNat_one, eq_comm]
  | cons link rest ih =>
      intro element
      rw [elementInWords?_cons, Option.bind_eq_some_iff, List.map_cons, directionNumber]
      simp only [ih, shiftIn?_eq_some_iff]
      refine ⟨?_, fun h => ?_⟩
      · rintro ⟨word, hword, h⟩
        rw [h, hword]
      · -- The others' number is less than half of a word, so it is one.
        have hlt := element.toNat_lt
        have hword : (UInt64.ofNat (directionNumber (rest.map Link.direction))).toNat =
            directionNumber (rest.map Link.direction) := by
          rw [UInt64.toNat_ofNat', Nat.mod_eq_of_lt (by omega)]
        exact ⟨_, hword, by rw [hword, h]⟩

namespace AggregationChain

variable {c c' : AggregationChain}

/-- **The links are too many for an element exactly when a word is too short for them.** -/
theorem elementInWords?_eq (c : AggregationChain) :
    elementInWords? c.links = c.indexElement.toOption := by
  ext element
  rw [elementInWords?_eq_some_iff, toOption_eq_some_iff, indexElement, indexElement_eq_ok_iff]
  refine ⟨fun h => ⟨?_, h⟩, fun h => h.2⟩
  rw [← directionNumber_lt_iff]
  exact h ▸ element.toNat_lt

theorem indexElement_eq_iff (short : c.links.length < 64) :
    c.indexElement = c'.indexElement ↔ c.directions = c'.directions := by
  refine ⟨fun same => ?_, fun same => by rw [indexElement, indexElement, same]⟩
  obtain ⟨element, helement⟩ := exists_indexElement_iff.mpr short
  exact directions_eq_of_indexElement helement (same.symm.trans helement)

/-! ### Shapes and the rule about indexes -/

theorem IsNumbered.iff_of_index (h : c.IsNumbered) (index : c'.index = c.index) :
    c'.IsNumbered ↔ c'.directions = c.directions := by
  refine ⟨fun h' => directions_eq_of_index index h' h, fun same => ?_⟩
  obtain ⟨element, helement, hlast⟩ := h
  exact ⟨element, by rwa [indexElement, same], by rwa [index]⟩

theorem forall_isNumbered_iff_of_index {chains : List AggregationChain} :
    ∀ {chains' : List AggregationChain}, (∀ c ∈ chains, c.IsNumbered) →
      chains'.map AggregationChain.index = chains.map AggregationChain.index →
      ((∀ c ∈ chains', c.IsNumbered) ↔ chains'.map directions = chains.map directions) := by
  induction chains with
  | nil =>
      intro chains' _ index
      obtain rfl : chains' = [] := by simpa using index
      simp
  | cons chain rest ih =>
      intro chains' numbered index
      cases chains' with
      | nil => simp at index
      | cons chain' rest' =>
          simp only [List.map_cons, List.cons.injEq] at index ⊢
          obtain ⟨hchain, hrest⟩ := List.forall_mem_cons.mp numbered
          rw [List.forall_mem_cons, hchain.iff_of_index index.1, ih hrest index.2]

/--
**Shapes are in bijection with index elements, and so no reshaping escapes the rule about
indexes.**  A chain has an index element unless it has 64 links or more, and that is when
a word is too short for it.  The element depends on the directions alone; lists of less
than 64 directions and the words but 0 correspond one to one.  Hence the rule, having given
ok for a signature, gives ok for another one with the same indexes exactly when all of its
chains have the same directions.
-/
theorem shapes_biject_elements :
    (∀ (c : AggregationChain) (fault : ChainError), c.indexElement = .error fault ↔
        64 ≤ c.links.length ∧ fault = .computation (.indexTooLong c.links.length)) ∧
      (∀ c : AggregationChain, elementInWords? c.links = c.indexElement.toOption) ∧
      (∀ c c' : AggregationChain, c.links.length < 64 →
        (c.indexElement = c'.indexElement ↔ c.directions = c'.directions)) ∧
      Set.BijOn Keyless.indexElement {directions | directions.length < 64}
        (Except.ok '' {element | element ≠ 0}) ∧
      ∀ (ctx ctx' : Context) (run run' : Run), Rule.aggregationChainIndex.Gives ctx run .ok →
        ctx'.signature.chains.map AggregationChain.index =
          ctx.signature.chains.map AggregationChain.index →
        (Rule.aggregationChainIndex.Gives ctx' run' .ok ↔
          ctx'.signature.chains.map directions = ctx.signature.chains.map directions) := by
  refine ⟨fun _ _ => indexElement_eq_error_iff, elementInWords?_eq,
    fun _ _ => indexElement_eq_iff, indexElement_bijOn, ?_⟩
  intro ctx ctx' run run' passed index
  rw [Rule.gives_iff_of_settled rfl, indexVerdict_eq_ok_iff] at passed
  rw [Rule.gives_iff_of_settled rfl, indexVerdict_eq_ok_iff]
  exact forall_isNumbered_iff_of_index passed index

/-- The two storeys with every link turned to the left, under the indexes that they had. -/
def turnedStoreys : Signature where
  parts :=
    { (twoStoreySignature (.ofUInt32 0)).parts with
      chains := (twoStoreys (.ofUInt32 0)).map fun chain =>
        { chain with links := chain.links.map fun link => { link with direction := .left } } }
  check_parts := rfl

/-- The rule gives ok for the two storeys, and so not when their links are turned. -/
theorem shapes_biject_elements_turnedStoreys :
    Rule.aggregationChainIndex.Gives (twoStoreyContext (.ofUInt32 0)) (.start []) .ok ∧
      ¬ Rule.aggregationChainIndex.Gives (Context.ofSignature turnedStoreys) (.start []) .ok := by
  have passed : Rule.aggregationChainIndex.Gives (twoStoreyContext (.ofUInt32 0)) (.start []) .ok :=
    ⟨_, rfl⟩
  refine ⟨passed, fun passed' => ?_⟩
  have same := (shapes_biject_elements.2.2.2.2 (twoStoreyContext (.ofUInt32 0))
    (Context.ofSignature turnedStoreys) _ _ passed rfl).mp passed'
  exact absurd same (by decide)

end AggregationChain

end Keyless
