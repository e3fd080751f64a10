/-
What an imprint can be, and what is read as one.

Octets and text are checked when an imprint is read from them: the digest must have the length
of its algorithm.  Hashing checks nothing.  What it gives has the length because of how the
hash functions end, and a fold gives what it started from or what was hashed.  Either way an
algorithm and a digest are obtained together exactly when the length is right
(`Imprint.obtained_iff`): the type of imprints holds no more and no less than the operations
can give.

What reads as an imprint is then settled for every input (`Imprint.IsReadExactly`).  Octets do
when they are its octets.  Text does when it is the imprint's text in either case, with blanks
around it, and JSON when it is a string with such a text.  Hashing a message in pieces is
hashing it whole (`HashAlgorithm.hashPieces_eq_hash`).
-/
import Keyless.Aggregation.Fold
import Keyless.Calendar.Fold
import Keyless.Document.Imprint
import Keyless.Proofs.Hex
import Keyless.TimestampRecord

namespace Keyless

/-! ### Hashing -/

theorem Hasher.foldl_update (hasher : Hasher) (pieces : List Bytes) :
    pieces.foldl Hasher.update hasher = hasher.update pieces.flatten := by
  induction pieces generalizing hasher with
  | nil => simp only [List.foldl_nil, List.flatten_nil, Hasher.update, List.append_nil]
  | cons piece rest ih =>
      rw [List.foldl_cons, ih, List.flatten_cons]
      simp only [Hasher.update, List.append_assoc]

namespace HashAlgorithm

/-- The imprint of a message that is absorbed piece by piece. -/
def hashPieces (a : HashAlgorithm) (pieces : List Bytes) : Except ChainError Imprint :=
  (Hasher.start a).map fun hasher => (pieces.foldl Hasher.update hasher).finish

/-- **How a message is cut up makes no difference to its imprint.** -/
theorem hashPieces_eq_hash (a : HashAlgorithm) (pieces : List Bytes) :
    a.hashPieces pieces = a.hash pieces.flatten := by
  unfold hashPieces Hasher.start HashAlgorithm.hash
  cases hfunction : a.function with
  | none => rfl
  | some function =>
      simp only [Except.map, Hasher.foldl_update]
      rfl

/-- What an algorithm makes of messages. -/
structure HashesExactly (a : HashAlgorithm) : Prop where
  /-- An algorithm hashes every message when it has a function, and else none. -/
  succeeds_iff : ∀ message, (∃ h, a.hash message = .ok h) ↔ a.isImplemented = true
  /-- The imprint is labelled with the algorithm, and its digest has the algorithm's length. -/
  labelled : ∀ message h, a.hash message = .ok h →
    h.algorithm = a ∧ h.digest.length = a.digestLength
  /-- A message may be hashed in pieces, with the same success or failure. -/
  pieces : ∀ pieces : List Bytes, a.hashPieces pieces = a.hash pieces.flatten

theorem hashesExactly (a : HashAlgorithm) : a.HashesExactly where
  succeeds_iff message := by
    refine ⟨fun ⟨h, hash⟩ => ?_, fun implemented => ?_⟩
    · exact requireImplemented_eq_ok_iff.mp (requireImplemented_of_hash hash)
    · exact exists_hash (requireImplemented_eq_ok_iff.mpr implemented) message
  labelled message h hash := by
    have halgorithm := algorithm_of_hash hash
    refine ⟨halgorithm, ?_⟩
    rw [h.length_digest, halgorithm]
  pieces := hashPieces_eq_hash a

end HashAlgorithm

namespace Imprint

/-! ### Where imprints come from -/

/-- The algorithm and the digest of what an operation gives. -/
inductive Obtained : HashAlgorithm → Bytes → Prop where
  | ofDigest {a : HashAlgorithm} {digest : Bytes} {h : Imprint}
      (wrapped : Imprint.ofDigest a digest = .ok h) : Obtained h.algorithm h.digest
  | ofOctets {octets : Bytes} {h : Imprint}
      (read : Imprint.ofOctets octets = .ok h) : Obtained h.algorithm h.digest
  | ofText {text : String} {h : Imprint}
      (read : Imprint.ofText text = .ok h) : Obtained h.algorithm h.digest
  | ofJson {value : Json} {h : Imprint}
      (read : Imprint.ofJson value = .ok h) : Obtained h.algorithm h.digest
  | hash {a : HashAlgorithm} {message : Bytes} {h : Imprint}
      (hash : a.hash message = .ok h) : Obtained h.algorithm h.digest
  | hashPieces {a : HashAlgorithm} {pieces : List Bytes} {h : Imprint}
      (hash : a.hashPieces pieces = .ok h) : Obtained h.algorithm h.digest
  | chain {chain : AggregationChain} {level : UInt64} {root : Node}
      (output : chain.output level = .ok root) : Obtained root.hash.algorithm root.hash.digest
  | chains {chains : List AggregationChain} {root : Node}
      (output : aggregateOutput chains = .ok root) : Obtained root.hash.algorithm root.hash.digest
  | calendar {chain : CalendarChain} {h : Imprint}
      (output : chain.output = .ok h) : Obtained h.algorithm h.digest
  | record {record : TimestampRecord} {h : Imprint}
      (output : record.output = .ok h) : Obtained h.algorithm h.digest

/-- **A digest is obtained with an algorithm when it has the algorithm's length.** -/
theorem obtained_iff {a : HashAlgorithm} {digest : Bytes} :
    Obtained a digest ↔ digest.length = a.digestLength := by
  refine ⟨fun obtained => ?_, fun hlength => ?_⟩
  · cases obtained with
    | ofDigest | ofOctets | ofText | ofJson | hash | hashPieces | calendar | record =>
        exact length_digest _
    | chain | chains => exact length_digest _
  · exact Obtained.ofDigest (h := ⟨a, digest, hlength⟩) (ofDigest_eq_ok_iff.mpr ⟨rfl, rfl⟩)

/-! ### What is read -/

theorem ofJson_eq_ok_iff {value : Json} {h : Imprint} :
    ofJson value = .ok h ↔ ∃ s, value = .string s ∧ ofText s = .ok h := by
  have htext (s : String) : value.toText = .ok s ↔ value = .string s := by
    cases value <;> simp [Json.toText, Json.refuse]
  unfold ofJson
  simp only [bind_eq_ok_iff, htext]
  refine exists_congr fun s => and_congr_right fun _ => ?_
  cases ofText s with
  | ok i =>
      show Except.ok i = Except.ok h ↔ _
      rw [Except.ok.injEq, Except.ok.injEq]
  | error cause => exact iff_of_false nofun nofun

/-- What is read as an imprint, for all octets, all texts and all JSON. -/
structure IsReadExactly (h : Imprint) : Prop where
  octets : ofOctets h.octets = .ok h
  /-- No other octets are read as the imprint. -/
  eq_octets : ∀ octets, ofOctets octets = .ok h → octets = h.octets
  text : ofText h.text = .ok h
  /-- Other text is read as the imprint for blanks around it and the case of letters only. -/
  text_iff : ∀ s : String, ofText s = .ok h ↔ ∃ body, Text.IsTrimmed body s.toList ∧
    body.map Char.toLower = h.text.toList.map Char.toLower
  /-- JSON is read as the imprint when it is a string with such a text. -/
  json_iff : ∀ value, ofJson value = .ok h ↔ ∃ s, value = .string s ∧ ofText s = .ok h
  /-- The imprint ends where it ends, whatever stands behind it. -/
  delimited : ∀ (other : Imprint) (x y : Bytes),
    h.octets ++ x = other.octets ++ y → h = other ∧ x = y

theorem isReadExactly (h : Imprint) : h.IsReadExactly where
  octets := ofOctets_octets h
  eq_octets _ read := ofOctets_eq_ok_iff.mp read
  text := ofText_text h
  text_iff s := by
    have hlower : h.text.toList.map Char.toLower = h.text.toList :=
      Hex.map_toLower_encode h.octets
    simp only [ofText_eq_ok_iff, Text.isTrimmed_iff, hlower, exists_eq_left']
  json_iff _ := ofJson_eq_ok_iff
  delimited _ _ _ := octets_append_inj

/-- **Imprints are read as what they are, and hashing gives nothing else.** -/
theorem codec_exact (a : HashAlgorithm) (digest : Bytes) (h : Imprint) :
    (Obtained a digest ↔ digest.length = a.digestLength) ∧ a.HashesExactly ∧ h.IsReadExactly :=
  ⟨obtained_iff, a.hashesExactly, h.isReadExactly⟩

end Imprint

end Keyless
