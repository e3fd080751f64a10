/-
Imprints delimit themselves.

Whatever is hashed in a chain is put together from imprints, and the binding
proofs have to take it apart again.  An imprint can be read off the front of any
octets: its first octet is the algorithm, the algorithm fixes the length of the
digest, so where the imprint ends is settled before the rest is looked at.  From
the back an imprint can be read off too, but only if its algorithm is known.

The other half of a binding argument is about digests.  Nothing here assumes that
hash functions are free of collisions.  A collision is something a theorem can
exhibit (`HashAlgorithm.Collision`), and two equal digests either come from equal
messages or are one.
-/
import Keyless.Imprint.Reading
import Keyless.Proofs.Outcome

namespace Keyless

namespace HashAlgorithm

theorem id_injective {a b : HashAlgorithm} (h : a.id = b.id) : a = b := by
  have hid : ofId? a.id = ofId? b.id := by rw [h]
  rw [ofId?_id, ofId?_id] at hid
  exact Option.some.inj hid

theorem ofId_eq_ok_iff {id : UInt8} {a : HashAlgorithm} : ofId id = .ok a ↔ a.id = id := by
  refine ⟨fun h => ?_, fun h => by rw [← h, ofId, ofId?_id]⟩
  unfold ofId at h
  cases hfound : ofId? id with
  | none => simp [hfound] at h
  | some found =>
      obtain rfl : found = a := by simpa [hfound] using h
      have hid := List.find?_some hfound
      exact of_decide_eq_true hid

/-- Digests have an even number of octets, so that imprints have an odd one. -/
theorem digestLength_even (a : HashAlgorithm) : a.digestLength % 2 = 0 := by
  cases a <;> rfl

theorem digestLength_le (a : HashAlgorithm) : a.digestLength ≤ 64 := by
  cases a <;> decide

theorem algorithm_of_hash {a : HashAlgorithm} {message : Bytes} {h : Imprint}
    (hash : a.hash message = .ok h) : h.algorithm = a := by
  unfold HashAlgorithm.hash at hash
  split at hash
  · rw [← Except.ok.inj hash]
  · exact absurd hash (by simp)

theorem requireImplemented_eq_ok_iff {a : HashAlgorithm} :
    a.requireImplemented = .ok () ↔ a.isImplemented = true := by
  unfold requireImplemented
  by_cases h : a.isImplemented = true <;> simp [h]

theorem requireImplemented_of_hash {a : HashAlgorithm} {message : Bytes} {h : Imprint}
    (hash : a.hash message = .ok h) : a.requireImplemented = .ok () := by
  rw [requireImplemented_eq_ok_iff, isImplemented_eq_isSome]
  unfold HashAlgorithm.hash at hash
  cases hfunction : a.function with
  | some f => rfl
  | none => simp [hfunction] at hash

theorem hash_eq_error_iff {a : HashAlgorithm} {message : Bytes} {fault : ChainError} :
    a.hash message = .error fault ↔ a.isImplemented = false ∧ fault = .notImplemented a := by
  rw [isImplemented_eq_isSome, HashAlgorithm.hash]
  cases a.function with
  | some f => simp
  | none => simp [eq_comm]

theorem exists_hash {a : HashAlgorithm} (implemented : a.requireImplemented = .ok ())
    (message : Bytes) : ∃ h, a.hash message = .ok h := by
  cases hhash : a.hash message with
  | ok h => exact ⟨h, rfl⟩
  | error fault =>
      obtain ⟨hnone, -⟩ := hash_eq_error_iff.mp hhash
      exact absurd implemented (by simp [requireImplemented, hnone])

/-- Two different messages with one digest. -/
def Collision (a : HashAlgorithm) (message message' : Bytes) : Prop :=
  message ≠ message' ∧ ∃ h, a.hash message = .ok h ∧ a.hash message' = .ok h

theorem eq_or_collision {a : HashAlgorithm} {message message' : Bytes} {h : Imprint}
    (hash : a.hash message = .ok h) (hash' : a.hash message' = .ok h) :
    message = message' ∨ a.Collision message message' := by
  by_cases heq : message = message'
  · exact Or.inl heq
  · exact Or.inr ⟨heq, h, hash, hash'⟩

end HashAlgorithm

namespace Imprint

/-- The imprint whose digest is one octet over and over. -/
def uniform (algorithm : HashAlgorithm) (octet : UInt8) : Imprint :=
  ⟨algorithm, List.replicate algorithm.digestLength octet, List.length_replicate⟩

@[simp] theorem length_octets (i : Imprint) :
    i.octets.length = i.algorithm.digestLength + 1 := by
  simp [octets, i.length_digest]

theorem length_octets_odd (i : Imprint) : i.octets.length % 2 = 1 := by
  have := i.algorithm.digestLength_even
  rw [length_octets]
  omega

/-- **An imprint can be read off the front of any octets.** -/
theorem octets_append_inj {i j : Imprint} {x y : Bytes}
    (h : i.octets ++ x = j.octets ++ y) : i = j ∧ x = y := by
  have hcons : i.algorithm.id :: (i.digest ++ x) = j.algorithm.id :: (j.digest ++ y) := h
  obtain ⟨hid, htail⟩ := List.cons.inj hcons
  have halg : i.algorithm = j.algorithm := HashAlgorithm.id_injective hid
  have hlen : i.digest.length = j.digest.length := by
    rw [i.length_digest, j.length_digest, halg]
  obtain ⟨hdigest, hrest⟩ := List.append_inj htail hlen
  exact ⟨Imprint.ext halg hdigest, hrest⟩

theorem ofDigest_eq_ok_iff {a : HashAlgorithm} {digest : Bytes} {h : Imprint} :
    ofDigest a digest = .ok h ↔ h.algorithm = a ∧ h.digest = digest := by
  unfold ofDigest
  refine ⟨fun given => ?_, fun ⟨halgorithm, hdigest⟩ => ?_⟩
  · split at given
    · rw [← Except.ok.inj given]
      exact ⟨rfl, rfl⟩
    · exact absurd given (by simp)
  · subst halgorithm hdigest
    rw [dif_pos h.length_digest]

/-- **What reads as an imprint is its octets.** -/
theorem ofOctets_eq_ok_iff {octets : Bytes} {i : Imprint} :
    ofOctets octets = .ok i ↔ octets = i.octets := by
  refine ⟨fun h => ?_, fun h => by rw [h, ofOctets_octets]⟩
  cases octets with
  | nil => exact absurd h (by simp [ofOctets])
  | cons id digest =>
      obtain ⟨algorithm, halgorithm, hdigest⟩ := bind_eq_ok_iff.mp h
      obtain ⟨rfl, rfl⟩ := ofDigest_eq_ok_iff.mp hdigest
      rw [← HashAlgorithm.ofId_eq_ok_iff.mp halgorithm]
      rfl

theorem octets_injective {i j : Imprint} (h : i.octets = j.octets) : i = j :=
  (octets_append_inj (x := []) (y := []) (by rw [h])).1

/-- From the back an imprint can be read off once its algorithm is known. -/
theorem append_octets_inj {i j : Imprint} {x y : Bytes} (halg : i.algorithm = j.algorithm)
    (h : x ++ i.octets = y ++ j.octets) : x = y ∧ i = j := by
  have hlen : i.octets.length = j.octets.length := by
    rw [length_octets, length_octets, halg]
  obtain ⟨hfront, hback⟩ := List.append_inj' h hlen
  exact ⟨hfront, octets_injective hback⟩

end Imprint

end Keyless
