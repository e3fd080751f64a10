/-
What makes parts a signature, and what the folds of a signature can rely on.

The parts are checked once, when they are put together, and the folds never look at that
check again.  Each of them asks for what it needs where it needs it: a step of an aggregation
chain for the octets of its sibling and a function of the chain's algorithm, a step of the
calendar for a function of its sibling's algorithm, a legacy record for two functions.  So the
check is worth as much as it covers of these questions.

What it asks for is said here all together, down to the texts of an identity
(`SignatureParts.IsUsable`); nothing else is asked (`SignatureParts.check_eq_ok_iff_isUsable`).
It covers every question of every fold but one.  How far up a chain leads depends on where it
is begun, so a level above the highest is the one fault that a fold of a signature has left
(`Signature.FoldsButForLevels`).
-/
import Keyless.Proofs.Aggregation.Levels
import Keyless.Proofs.Verification.Faults

namespace Keyless

/-! ### Identities that have octets -/

namespace Metadata

/-- The texts of the identity fit into elements, each with the zero behind it. -/
structure IsEncodable (m : Metadata) : Prop where
  clientId : (Bytes.ofString m.clientId).length < 65535
  machineId : ∀ machine, m.machineId = some machine → (Bytes.ofString machine).length < 65535

theorem textElement_fits_iff {tag : UInt16} {text : String} :
    (textElement tag text).value.length < 65536 ↔ (Bytes.ofString text).length < 65535 := by
  simp only [textElement, List.length_append, List.length_singleton]
  omega

theorem numberElement_fits (tag : UInt16) (value : UInt64) :
    (numberElement tag value).value.length < 65536 := by
  have := Bytes.length_minimal_le value
  show (Bytes.minimal value).length < 65536
  omega

theorem paddingElement_fits (k : UInt8) : (paddingElement k).value.length < 65536 := by
  have := k.toNat_lt
  show (List.replicate k.toNat paddingOctet).length < 65536
  rw [List.length_replicate]
  omega

/-- **Nothing but a long text keeps an identity from its octets.** -/
theorem exists_content_iff {m : Metadata} :
    (∃ content, m.content = .ok content) ↔ m.IsEncodable := by
  unfold content
  rw [exists_joined_iff]
  refine ⟨fun fits => ?_, fun encodable e he => ?_⟩
  · refine ⟨?_, fun machine hmachine => ?_⟩
    · refine textElement_fits_iff.mp (fits (textElement clientIdTag m.clientId) ?_)
      simp [elements, identityElements]
    · refine textElement_fits_iff.mp (fits (textElement machineIdTag machine) ?_)
      simp [elements, identityElements, hmachine]
  · simp only [elements, identityElements, List.mem_append, List.mem_cons, Option.mem_toList,
      Option.map_eq_some_iff] at he
    rcases he with ⟨k, -, rfl⟩ | rfl | (⟨machine, hmachine, rfl⟩ | ⟨v, -, rfl⟩) | ⟨v, -, rfl⟩
    · exact paddingElement_fits k
    · exact textElement_fits_iff.mpr encodable.clientId
    · exact textElement_fits_iff.mpr (encodable.machineId machine hmachine)
    · exact numberElement_fits _ v
    · exact numberElement_fits _ v

end Metadata

/-! ### What the check asks for -/

/-- A sibling that a step can be made with. -/
def Sibling.IsUsable : Sibling → Prop
  | .imprint hash => hash.algorithm.isImplemented = true
  | .metadata identity => identity.IsEncodable

/-- A chain that leads somewhere, all of whose steps can be made. -/
structure AggregationChain.IsUsable (c : AggregationChain) : Prop where
  linked : c.links ≠ []
  algorithm : c.algorithm.isImplemented = true
  input : c.inputHash.algorithm.isImplemented = true
  siblings : ∀ link ∈ c.links, link.sibling.IsUsable

/-- A calendar chain all of whose steps can be made. -/
structure CalendarChain.IsUsable (c : CalendarChain) : Prop where
  input : c.inputHash.algorithm.isImplemented = true
  siblings : ∀ link ∈ c.links, link.sibling.algorithm.isImplemented = true

/-- A legacy record whose output can be computed. -/
structure TimestampRecord.IsUsable (r : TimestampRecord) : Prop where
  info : r.infoAlgorithm.isImplemented = true
  attributes : r.attributesAlgorithm.isImplemented = true

/-- Parts that make a signature. -/
structure SignatureParts.IsUsable (parts : SignatureParts) : Prop where
  nonempty : parts.chains ≠ []
  chains : ∀ c ∈ parts.chains, c.IsUsable
  calendarChain : ∀ c, parts.calendarChain = some c → c.IsUsable
  timestampRecord : ∀ r, parts.timestampRecord = some r → r.IsUsable
  /-- A record of the calendar root comes with a calendar chain. -/
  anchored : parts.authenticationRecord ≠ none ∨ parts.publicationRecord ≠ none →
    parts.calendarChain ≠ none
  /-- There is one such record at most. -/
  single : parts.authenticationRecord = none ∨ parts.publicationRecord = none

theorem Link.check_eq_ok_iff_isUsable {link : Link} :
    link.check = .ok () ↔ link.sibling.IsUsable := by
  rw [check_eq_ok_iff]
  cases link.sibling with
  | imprint hash =>
      simp [Sibling.octets, Sibling.IsUsable, HashAlgorithm.requireImplemented_eq_ok_iff]
  | metadata identity => simp [Sibling.octets, Sibling.IsUsable, Metadata.exists_content_iff]

theorem AggregationChain.check_eq_ok_iff_isUsable {c : AggregationChain} :
    c.check = .ok () ↔ c.IsUsable := by
  simp only [check_eq_ok_iff, Link.check_eq_ok_iff_isUsable,
    HashAlgorithm.requireImplemented_eq_ok_iff]
  exact ⟨fun ⟨linked, algorithm, input, siblings⟩ => ⟨linked, algorithm, input, siblings⟩,
    fun h => ⟨h.linked, h.algorithm, h.input, h.siblings⟩⟩

theorem CalendarChain.check_eq_ok_iff_isUsable {c : CalendarChain} :
    c.check = .ok () ↔ c.IsUsable := by
  unfold check
  simp only [check_bind_eq_ok_iff, forM_eq_ok_iff, HashAlgorithm.requireImplemented_eq_ok_iff]
  exact ⟨fun ⟨input, siblings⟩ => ⟨input, siblings⟩, fun h => ⟨h.input, h.siblings⟩⟩

theorem TimestampRecord.check_eq_ok_iff_isUsable {r : TimestampRecord} :
    r.check = .ok () ↔ r.IsUsable := by
  unfold check
  simp only [check_bind_eq_ok_iff, HashAlgorithm.requireImplemented_eq_ok_iff]
  exact ⟨fun ⟨info, attributes⟩ => ⟨info, attributes⟩, fun h => ⟨h.info, h.attributes⟩⟩

/-- **Parts pass the check exactly when they are usable.** -/
theorem SignatureParts.check_eq_ok_iff_isUsable {parts : SignatureParts} :
    parts.check = .ok () ↔ parts.IsUsable := by
  simp only [check_eq_ok_iff, AggregationChain.check_eq_ok_iff_isUsable,
    CalendarChain.check_eq_ok_iff_isUsable, TimestampRecord.check_eq_ok_iff_isUsable,
    checkRecords_eq_ok_iff]
  refine ⟨?_, fun h => ⟨h.nonempty, h.chains, h.calendarChain, h.timestampRecord, ?_, h.single⟩⟩
  · intro ⟨nonempty, chains, calendarChain, timestampRecord, anchored, single⟩
    refine ⟨nonempty, chains, calendarChain, timestampRecord, fun recorded unanchored => ?_, single⟩
    obtain ⟨hauthentication, hpublication⟩ := anchored unanchored
    exact recorded.elim (· hauthentication) (· hpublication)
  · intro unanchored
    by_contra hrecords
    exact h.anchored (not_and_or.mp hrecords) unanchored

/-! ### What the folds of a signature can rely on -/

/-- A chain that was checked leads too far up where it cannot be folded. -/
theorem AggregationChain.isFirstTooHigh_of_output {c : AggregationChain} (sound : c.check = .ok ())
    {level : UInt64} {fault : ChainError} (failed : c.output level = .error fault) :
    ∃ position, IsFirstTooHigh level c.links position ∧
      fault = .computation (.levelExceeded position) := by
  obtain ⟨-, implemented, -, links⟩ := check_eq_ok_iff.mp sound
  have encodable : ∀ link ∈ c.links, ∃ octets, link.sibling.octets = .ok octets :=
    fun link hlink => (Link.check_eq_ok_iff.mp (links link hlink)).1
  have failed' : Node.climb c.algorithm 0 { hash := c.inputHash, level } c.links = .error fault :=
    failed
  rcases Node.climb_outcome implemented encodable 0 { hash := c.inputHash, level } with
    ⟨root, hroot, -, -⟩ | ⟨position, hfirst, hfault⟩
  · exact absurd (hroot.symm.trans failed') (by simp)
  · rw [Nat.zero_add] at hfault
    exact ⟨position, hfirst, Except.error.inj (failed'.symm.trans hfault)⟩

namespace Signature

/-- Everything in a signature can be folded, unless levels lead too far up. -/
structure FoldsButForLevels (s : Signature) : Prop where
  calendarChain : ∀ c, s.calendarChain = some c → ∃ root, c.output = .ok root
  timestampRecord : ∀ r, s.timestampRecord = some r → ∃ hash, r.output = .ok hash
  /-- A chain that cannot be folded leads above the highest level, and the fault names the first of
  its links that does. -/
  chains : ∀ c ∈ s.chains, ∀ level fault, c.output level = .error fault →
    ∃ position, IsFirstTooHigh level c.links position ∧
      fault = .computation (.levelExceeded position)
  lowestChain : s.chains[0]? = some s.lowestChain
  firstLink : s.lowestChain.links[0]? = some s.firstLink

theorem foldsButForLevels (s : Signature) : s.FoldsButForLevels := by
  obtain ⟨-, chains, calendarChain, timestampRecord, -⟩ :=
    SignatureParts.check_eq_ok_iff.mp s.check_parts
  exact
    { calendarChain := fun c hc => CalendarChain.exists_output (calendarChain c hc)
      timestampRecord := fun r hr => TimestampRecord.exists_output (timestampRecord r hr)
      chains := fun c hc _ _ failed =>
        AggregationChain.isFirstTooHigh_of_output (chains c hc) failed
      lowestChain := by rw [s.chains_eq_cons, List.getElem?_cons_zero]
      firstLink := by rw [s.lowestChain_links_eq_cons, List.getElem?_cons_zero] }

/--
**Parts that make a signature can be folded.**  Parts make a signature exactly when they are
usable.  The signature has just these parts, it has a first link, and its calendar chain, its
legacy record and each of its chains from any level can be folded, except that a chain may lead
above the highest level.
-/
theorem ofParts_folds (parts : SignatureParts) :
    ((∃ s, ofParts parts = .ok s) ↔ parts.IsUsable) ∧
      ∀ s, ofParts parts = .ok s → s.parts = parts ∧ s.FoldsButForLevels := by
  refine ⟨?_, fun s made => ⟨ofParts_eq_ok_iff.mp made, s.foldsButForLevels⟩⟩
  rw [← SignatureParts.check_eq_ok_iff_isUsable]
  refine ⟨?_, fun sound => ⟨⟨parts, sound⟩, ofParts_eq_ok_iff.mpr rfl⟩⟩
  intro ⟨s, made⟩
  rw [← ofParts_eq_ok_iff.mp made]
  exact s.check_parts

end Signature

end Keyless
