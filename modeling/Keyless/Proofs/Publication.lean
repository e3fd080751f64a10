/-
What a certificate signs tells the publication.

An authentication record is a signature over the encoding of publication data, so two
publications with one encoding would share their signatures.  There are none.  The encoding is
an element with two elements in it, and each of the three can be read off the front of
anything (`Element.octets_append_inj`), so the two children can be told apart without a reader
that would do it.  What they hold tells the rest: the least form of a number tells the number
if it stands alone, as it does here, and the octets of an imprint tell the imprint.

The least form of a time has eight octets at most and an imprint has 65, so all three headers
are short ones, whatever the time and the algorithm (`PublicationData.IsFramed`).
-/
import Keyless.Proofs.Element
import Keyless.Proofs.Imprint
import Keyless.Publication

namespace Keyless

namespace Element

variable {tag : UInt16} {value : Bytes}

/-- An element without flags. -/
def plain (tag : UInt16) (value : Bytes) : Element := { flags := 0, tag, value }

theorem plain_wellTagged (small : tag.toNat < 32) : (plain tag value).WellTagged where
  flags_aligned := rfl
  flags_lt := by
    show 0 < 128
    decide
  tag_lt := by
    show tag.toNat < 8192
    omega

/-- The octets are a value under the short header: a tag without flags, then the length. -/
def IsShortForm (tag : UInt8) (value b : Bytes) : Prop :=
  ∃ length : UInt8, length.toNat = value.length ∧ b = tag :: length :: value

theorem IsShortForm.length_eq {tag : UInt8} {b : Bytes} (h : IsShortForm tag value b) :
    b.length = value.length + 2 := by
  obtain ⟨length, -, rfl⟩ := h
  rfl

theorem exists_shortForm (tag : UInt16) (value : Bytes) (small : tag.toNat < 32)
    (fits : value.length < 256) :
    ∃ b, (plain tag value).octets = .ok b ∧ IsShortForm tag.toUInt8 value b := by
  have hshort : (plain tag value).isShort = true := (isShort_iff _).mpr ⟨small, fits⟩
  have hlength : (UInt8.ofNat value.length).toNat = value.length := by
    rw [UInt8.toNat_ofNat', Nat.mod_eq_of_lt fits]
  refine ⟨(plain tag value).shortOctets, if_pos hshort, _, hlength, ?_⟩
  show (0 ||| tag.toUInt8) :: _ = _
  rw [UInt8.zero_or]
  rfl

end Element

namespace PublicationData

variable {data data' : PublicationData} {b b' x y : Bytes}

/-- The seconds since 1970, of which there are none before. -/
def seconds (data : PublicationData) : UInt64 := UInt64.ofNat data.publicationTime.seconds.toNat

/-- They are not cut off, as no legal time is that late. -/
theorem toNat_seconds (data : PublicationData) :
    data.seconds.toNat = data.publicationTime.seconds.toNat := by
  have := data.publicationTime.le_latest
  rw [seconds, UInt64.toNat_ofNat', Nat.mod_eq_of_lt (by omega)]

theorem octets_eq_ok_iff :
    data.octets = .ok b ↔ 0 ≤ data.publicationTime.seconds ∧
      ∃ time hash, (Element.plain timeTag (Bytes.minimal data.seconds)).octets = .ok time ∧
        (Element.plain hashTag data.publishedHash.octets).octets = .ok hash ∧
        (Element.plain tag (time ++ hash)).octets = .ok b := by
  unfold octets
  by_cases hearly : data.publicationTime.seconds < 0
  · rw [if_pos hearly]
    exact iff_of_false (by simp) fun ⟨hlate, _⟩ => by omega
  · rw [if_neg hearly]
    simp only [bind_eq_ok_iff, exists_and_left]
    exact ⟨fun h => ⟨by omega, h⟩, fun h => h.2⟩

/-! ### The form of an encoding -/

/-- The octets are the two children, each under a short header, under a short header. -/
def IsFramed (data : PublicationData) (b : Bytes) : Prop :=
  ∃ time hash, Element.IsShortForm 0x02 (Bytes.minimal data.seconds) time ∧
    Element.IsShortForm 0x04 data.publishedHash.octets hash ∧
    Element.IsShortForm 0x10 (time ++ hash) b

/-- **From 1970 on every publication has an encoding, under short headers throughout.** -/
theorem exists_octets (late : 0 ≤ data.publicationTime.seconds) :
    ∃ b, data.octets = .ok b ∧ data.IsFramed b := by
  have htimeLength := Bytes.length_minimal_le data.seconds
  have hhashLength : data.publishedHash.octets.length ≤ 65 := by
    have := data.publishedHash.algorithm.digestLength_le
    rw [Imprint.length_octets]
    omega
  obtain ⟨time, htime, htimeForm⟩ := Element.exists_shortForm timeTag (Bytes.minimal data.seconds)
    (by decide) (by omega)
  obtain ⟨hash, hhash, hhashForm⟩ := Element.exists_shortForm hashTag data.publishedHash.octets
    (by decide) (by omega)
  have hchildren : (time ++ hash).length < 256 := by
    rw [List.length_append, htimeForm.length_eq, hhashForm.length_eq]
    omega
  obtain ⟨b, hb, hform⟩ := Element.exists_shortForm tag (time ++ hash) (by decide) hchildren
  exact ⟨b, octets_eq_ok_iff.mpr ⟨late, time, hash, htime, hhash, hb⟩,
    time, hash, htimeForm, hhashForm, hform⟩

/-- **The encoding of a publication can be read off the front of any octets.** -/
theorem octets_append_inj (h : data.octets = .ok b) (h' : data'.octets = .ok b')
    (happ : b ++ x = b' ++ y) : data = data' ∧ x = y := by
  obtain ⟨late, time, hash, htime, hhash, hframe⟩ := octets_eq_ok_iff.mp h
  obtain ⟨late', time', hash', htime', hhash', hframe'⟩ := octets_eq_ok_iff.mp h'
  have small : tag.toNat < 32 := by decide
  have smallTime : timeTag.toNat < 32 := by decide
  have smallHash : hashTag.toNat < 32 := by decide
  -- The frame first, as it stands in front of anything, then one child in front of the other.
  obtain ⟨heq, hxy⟩ := Element.octets_append_inj (Element.plain_wellTagged small)
    (Element.plain_wellTagged small) hframe hframe' happ
  have hchildren : time ++ hash = time' ++ hash' := congrArg Element.value heq
  obtain ⟨htimes, hhashes⟩ := Element.octets_append_inj (Element.plain_wellTagged smallTime)
    (Element.plain_wellTagged smallTime) htime htime' hchildren
  obtain ⟨hhashElements, -⟩ := Element.octets_append_inj (x := []) (y := [])
    (Element.plain_wellTagged smallHash) (Element.plain_wellTagged smallHash) hhash hhash'
    (by rw [hhashes])
  have hseconds : data.seconds = data'.seconds :=
    Bytes.minimal_injective (congrArg Element.value htimes)
  have hpublished : data.publishedHash = data'.publishedHash :=
    Imprint.octets_injective (congrArg Element.value hhashElements)
  have hpublication : data.publicationTime = data'.publicationTime := by
    have hsame := congrArg UInt64.toNat hseconds
    rw [toNat_seconds, toNat_seconds] at hsame
    exact Time.ext (by omega)
  refine ⟨?_, hxy⟩
  cases data
  cases data'
  simp_all

/--
**Signed octets determine the publication.**  Publication data has an encoding exactly when its
time is not before 1970.  The encoding is one element of tag 0x10 under the short header, whose
length octet counts the two children and nothing else, and no other publication data has it.
-/
theorem octets_determine (data : PublicationData) :
    ((∃ b, data.octets = .ok b) ↔ 0 ≤ data.publicationTime.seconds) ∧
      ∀ b, data.octets = .ok b → data.IsFramed b ∧
        ∀ data' : PublicationData, data'.octets = .ok b → data' = data := by
  refine ⟨⟨?_, fun late => ?_⟩, fun b h => ⟨?_, fun data' h' => ?_⟩⟩
  · intro ⟨b, h⟩
    exact (octets_eq_ok_iff.mp h).1
  · obtain ⟨b, h, -⟩ := exists_octets late
    exact ⟨b, h⟩
  · obtain ⟨b', h', framed⟩ := exists_octets (octets_eq_ok_iff.mp h).1
    rw [h] at h'
    exact Except.ok.inj h' ▸ framed
  · exact (octets_append_inj (x := []) (y := []) h' h rfl).1

end PublicationData

end Keyless
