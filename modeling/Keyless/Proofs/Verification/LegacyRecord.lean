/-
A legacy record does not move when a chain is put below its signature.

The record stands below the lowest chain: what it was made for is what the signature
is for, and what it leads to must be the lowest chain's input.  Prepending changes which
chain is the lowest and passes the record on as it is (`Signature.others_of_prepend`),
so both ends come loose.  The prepended signature is still for the record's input
(`Signature.inputHash_of_prepend_of_record`), although the new chain starts from another
hash; and the record, which led to the input of the old lowest chain, is now held
against that of the new one.

So both laws hold of signatures without a record.  Of those with one, the first holds
when the record was made for the very input of the new chain, and the second when that
chain leads from the old input back to it, which takes a cycle of the hash function.
Nothing in prepending asks for either.
-/
import Keyless.Proofs.Verification.Faults
import Keyless.Proofs.Verification.Prepending

namespace Keyless

namespace Rule

/-- The rule comes to a verdict, and it is a fail. -/
def Fails (rule : Rule) (ctx : Context) (run : Run) : Prop :=
  ∃ run', rule.verify ctx run = (.ok { rule, verdict := .fail }, run')

theorem fails_iff_of_settled {rule : Rule} {ctx : Context} {settled : Except ChainError Verdict}
    (asks : rule.demand ctx = .settled settled) {run : Run} :
    rule.Fails ctx run ↔ settled = .ok .fail := by
  unfold Fails
  rw [verify_of_settled asks]
  cases settled <;> simp [report]

end Rule

namespace Signature

variable {s s' : Signature} {chain : AggregationChain} {record : TimestampRecord}

theorem timestampOutputVerdict_eq_fail_iff :
    s.timestampOutputVerdict = .ok .fail ↔
      ∃ record, s.timestampRecord = some record ∧ record.output ≠ .ok s.lowestChain.inputHash := by
  unfold timestampOutputVerdict
  cases hrecord : s.timestampRecord with
  | none => simp
  | some record =>
      have sound := (SignatureParts.check_eq_ok_iff.mp s.check_parts).2.2.2.1 record hrecord
      obtain ⟨output, houtput⟩ := TimestampRecord.exists_output sound
      rw [bind_pure_eq_ok_iff]
      simp [houtput, Verdict.ofCheck]

theorem inputHash_of_prepend_of_record (has : s.timestampRecord = some record)
    (h : s.prepend chain = .ok s') : s'.inputHash = record.inputHash := by
  rw [inputHash, (others_of_prepend h).2.2.2, has]

/-- The prepended signature is for the new chain's input when no record was made for another
hash. -/
theorem inputHash_of_prepend_iff (h : s.prepend chain = .ok s') :
    s'.inputHash = chain.inputHash ↔
      ∀ record, s.timestampRecord = some record → record.inputHash = chain.inputHash := by
  cases hrecord : s.timestampRecord with
  | none => simp [inputHash_of_prepend hrecord h]
  | some record => simp [inputHash_of_prepend_of_record hrecord h]

end Signature

namespace Context

variable {ctx ctx' : Context} {chain : AggregationChain} {before after run : Run}

theorem fails_aggregationChainInputHash_iff :
    Rule.aggregationChainInputHash.Fails ctx run ↔
      ∃ record, ctx.signature.timestampRecord = some record ∧
        record.output ≠ .ok ctx.signature.lowestChain.inputHash :=
  (Rule.fails_iff_of_settled rfl).trans Signature.timestampOutputVerdict_eq_fail_iff

/--
**What becomes of a legacy record when a chain is put below.**  The prepended signature is for the
new chain's input exactly when no record was made for another hash.  And where the record led to
the lowest chain's input before, it does so afterwards exactly when there is none, or when the new
chain's input is the old one's.
-/
theorem legacyRecord_of_prepend (made : ctx.signature.prepend chain = .ok ctx'.signature) :
    (ctx'.signature.inputHash = chain.inputHash ↔
        ∀ record, ctx.signature.timestampRecord = some record →
          record.inputHash = chain.inputHash) ∧
      (¬ Rule.aggregationChainInputHash.Fails ctx before →
        (¬ Rule.aggregationChainInputHash.Fails ctx' after ↔
          ctx.signature.timestampRecord = none ∨
            chain.inputHash = ctx.signature.lowestChain.inputHash)) := by
  refine ⟨Signature.inputHash_of_prepend_iff made, fun passed => ?_⟩
  rw [fails_aggregationChainInputHash_iff] at passed
  rw [fails_aggregationChainInputHash_iff, (Signature.others_of_prepend made).2.2.2,
    Signature.lowestChain_inputHash_of_prepend made]
  cases hrecord : ctx.signature.timestampRecord with
  | none => simp
  | some record =>
      have leads : record.output = .ok ctx.signature.lowestChain.inputHash := by
        by_contra hother
        exact passed ⟨record, hrecord, hother⟩
      simp [leads, eq_comm]

/-- Below the upper storey, which has no record, the lower one can be put. -/
theorem legacyRecord_of_prepend_lowerStorey :
    ∃ s, (Signature.upperStorey 7).prepend Signature.lowerStorey = .ok s ∧
      s.inputHash = Signature.lowerStorey.inputHash ∧
      ¬ Rule.aggregationChainInputHash.Fails (Context.ofSignature s) (.start []) := by
  have fits : ((Signature.upperStorey 7).prepend Signature.lowerStorey).isOk = true := by
    decide +kernel
  obtain ⟨s, hs⟩ := exists_of_isOk fits
  have plain : (Signature.upperStorey 7).timestampRecord = none := rfl
  have made : (Context.ofSignature (Signature.upperStorey 7)).signature.prepend
      Signature.lowerStorey = .ok (Context.ofSignature s).signature := hs
  have passed : ¬ Rule.aggregationChainInputHash.Fails
      (Context.ofSignature (Signature.upperStorey 7)) (.start []) := by
    rw [fails_aggregationChainInputHash_iff]
    rintro ⟨record, has, -⟩
    exact absurd (plain.symm.trans has) (by simp)
  obtain ⟨input, leads⟩ := legacyRecord_of_prepend made
  refine ⟨s, hs, input.mpr fun record has => ?_, (leads passed).mpr (Or.inl plain)⟩
  exact absurd (plain.symm.trans has) (by simp)

end Context

/-! ### A record below the upper storey -/

namespace Signature

/-- A record that hashes in its two steps the octets that the lower storey hashes along its two
links, but was made for another document. -/
def storeyRecord : TimestampRecord where
  aggregationTime := .ofUInt32 1000
  index := [2]
  inputHash := Imprint.uniform .sha1 0x11
  infoPrefix := [1]
  infoSuffix := List.replicate 12 0x11 ++ [126, 2, 1, 1, 1, 2, 97, 0, 2]
  infoAlgorithm := .sha256
  attributesPrefix := (Imprint.uniform .sha512 0x22).octets ++ [1]
  attributesSuffix := [3]
  attributesAlgorithm := .sha256

/-- The upper storey above that record. -/
def stampedStorey : Signature where
  parts := { (upperStorey 7).parts with timestampRecord := some storeyRecord }
  check_parts := rfl

theorem storeyRecord_output : storeyRecord.output = .ok stampedStorey.lowestChain.inputHash := by
  have output : storeyRecord.output.toOption = some stampedStorey.lowestChain.inputHash := by
    decide +kernel
  exact toOption_eq_some_iff.mp output

/-- The record leads to the upper storey, and the lower storey can be put below that.  What comes
of it is for the record's document still, and the record does not lead to the lower storey. -/
theorem prepend_stampedStorey :
    ∃ s, stampedStorey.prepend lowerStorey = .ok s ∧
      s.inputHash ≠ lowerStorey.inputHash ∧
      ¬ Rule.aggregationChainInputHash.Fails (Context.ofSignature stampedStorey) (.start []) ∧
      Rule.aggregationChainInputHash.Fails (Context.ofSignature s) (.start []) := by
  have fits : (stampedStorey.prepend lowerStorey).isOk = true := by decide +kernel
  obtain ⟨s, hs⟩ := exists_of_isOk fits
  have has : s.timestampRecord = some storeyRecord := (others_of_prepend hs).2.2.2
  refine ⟨s, hs, ?_, ?_, ?_⟩
  · rw [inputHash_of_prepend_of_record rfl hs]
    decide
  · rw [Context.fails_aggregationChainInputHash_iff]
    rintro ⟨record, hrecord, hother⟩
    obtain rfl : storeyRecord = record := Option.some.inj hrecord
    exact hother storeyRecord_output
  · refine Context.fails_aggregationChainInputHash_iff.mpr ⟨storeyRecord, has, ?_⟩
    show storeyRecord.output ≠ .ok s.lowestChain.inputHash
    rw [storeyRecord_output, lowestChain_inputHash_of_prepend hs]
    decide

end Signature

end Keyless
