/-
Which publication a store gives for a time.

A store puts its publications in the order of their times when it is made, and is then searched
from the front, so what is found first at a time or later is the earliest.  Nothing keeps two
publications from being of one time.  Those the sort leaves in the order in which they were given
(`PublicationStore.filter_publications`), and so both searches give, of several publications of
one time, the one that was given first.

That is more than each search shows on its own: it makes the two agree.  The publication found
from a time on is also the one that is found at its own time, and if no two are of one time, it
does not matter in which order they were given.
-/
import Mathlib.Data.List.Nodup
import Keyless.Proofs.Imprint
import Keyless.Publication.Store

namespace Keyless

namespace PublicationStore

variable {records : List PublicationRecord} {certificates : List EcdsaCertificate} {time : Time}
  {found : PublicationRecord}

/-- The publication is of a time, and the first in a list that is. -/
structure IsFirstAt (records : List PublicationRecord) (time : Time) (found : PublicationRecord) :
    Prop where
  time_eq : found.time = time
  first : ∃ before after, records = before ++ found :: after ∧
    ∀ other ∈ before, other.time ≠ time

/-- The publication is the earliest in a list from a time on, and the first that is so early. -/
structure IsEarliestFrom (records : List PublicationRecord) (time : Time)
    (found : PublicationRecord) : Prop where
  from_le : time ≤ found.time
  earliest : ∀ other ∈ records, time ≤ other.time → found.time ≤ other.time
  first : IsFirstAt records found.time found

theorem find?_eq_some_iff :
    records.find? (·.time = time) = some found ↔ IsFirstAt records time found := by
  rw [List.find?_eq_some_iff_append]
  simp only [decide_eq_true_eq, Bool.not_eq_eq_eq_not, Bool.not_true, decide_eq_false_iff_not]
  exact ⟨fun ⟨htime, hfirst⟩ => ⟨htime, hfirst⟩, fun h => ⟨h.time_eq, h.first⟩⟩

theorem IsFirstAt.mem (h : IsFirstAt records time found) : found ∈ records := by
  obtain ⟨before, after, hrecords, -⟩ := h.first
  simp [hrecords]

/-- There is at most one earliest publication. -/
theorem IsEarliestFrom.unique {other : PublicationRecord} (h : IsEarliestFrom records time found)
    (h' : IsEarliestFrom records time other) : found = other := by
  have hle : found.time ≤ other.time := h.earliest other h'.first.mem h'.from_le
  have hge : other.time ≤ found.time := h'.earliest found h.first.mem h.from_le
  have hsame : found.time = other.time := Time.ext (Int.le_antisymm hle hge)
  have hfound := find?_eq_some_iff.mpr h.first
  rw [hsame, find?_eq_some_iff.mpr h'.first] at hfound
  exact (Option.some.inj hfound).symm

/-! ### The order of a store -/

theorem time_le_trans (a b c : PublicationRecord) (hab : decide (a.time ≤ b.time) = true)
    (hbc : decide (b.time ≤ c.time) = true) : decide (a.time ≤ c.time) = true := by
  simp only [decide_eq_true_eq] at hab hbc ⊢
  exact Int.le_trans hab hbc

theorem time_le_total (a b : PublicationRecord) :
    (decide (a.time ≤ b.time) || decide (b.time ≤ a.time)) = true := by
  simp only [Bool.or_eq_true, decide_eq_true_eq]
  exact Int.le_total _ _

theorem pairwise_publications (records : List PublicationRecord)
    (certificates : List EcdsaCertificate) :
    (ofRecords records certificates).publications.Pairwise fun a b => a.time ≤ b.time := by
  have hsorted := List.pairwise_mergeSort time_le_trans time_le_total records
  exact hsorted.imp of_decide_eq_true

theorem perm_publications (records : List PublicationRecord)
    (certificates : List EcdsaCertificate) :
    (ofRecords records certificates).publications.Perm records :=
  List.mergeSort_perm _ _

theorem mem_publications :
    found ∈ (ofRecords records certificates).publications ↔ found ∈ records :=
  (perm_publications records certificates).mem_iff

/-- Publications of one time stay in the order in which they were given. -/
theorem filter_publications :
    (ofRecords records certificates).publications.filter (·.time = time) =
      records.filter (·.time = time) := by
  have hpairwise : (records.filter (·.time = time)).Pairwise
      fun a b => decide (a.time ≤ b.time) = true := by
    rw [List.pairwise_filter]
    refine List.pairwise_of_forall fun a b ha hb => ?_
    rw [of_decide_eq_true ha, of_decide_eq_true hb]
    exact decide_eq_true (Int.le_refl _)
  -- They are in order among themselves, so a stable sort keeps them as they are.
  have hsublist := List.sublist_mergeSort time_le_trans time_le_total hpairwise List.filter_sublist
  have hkept := hsublist.filter (·.time = time)
  simp only [List.filter_filter, Bool.and_self] at hkept
  have hperm := (perm_publications records certificates).filter (·.time = time)
  exact (hkept.eq_of_length hperm.length_eq.symm).symm

/-- Publications of distinct times are put in the one order there is. -/
theorem publications_eq_of_perm {given : List PublicationRecord} (hperm : given.Perm records)
    (distinct : (records.map PublicationRecord.time).Nodup) :
    (ofRecords given certificates).publications =
      (ofRecords records certificates).publications := by
  have hsorted := ((perm_publications given certificates).trans hperm).trans
    (perm_publications records certificates).symm
  refine hsorted.eq_of_pairwise (fun a b ha hb hab hba => ?_)
    (pairwise_publications given certificates) (pairwise_publications records certificates)
  have hmem : a ∈ records := hperm.mem_iff.mp (mem_publications.mp ha)
  have hmem' : b ∈ records := mem_publications.mp hb
  exact List.inj_on_of_nodup_map distinct hmem hmem' (Time.ext (Int.le_antisymm hab hba))

/-! ### What is found -/

theorem publicationAt_eq_some_iff :
    (ofRecords records certificates).publicationAt time = some found ↔
      IsFirstAt records time found := by
  rw [publicationAt, ← List.head?_filter, filter_publications, List.head?_filter, find?_eq_some_iff]

theorem publicationFrom_eq_none_iff :
    (ofRecords records certificates).publicationFrom time = none ↔
      ∀ record ∈ records, record.time < time := by
  simp only [publicationFrom, List.find?_eq_none, mem_publications, decide_eq_true_eq]
  exact forall₂_congr fun _ _ => Int.not_le

/-- What stands before a publication that is found is too early. -/
theorem exists_split_of_publicationFrom
    (h : (ofRecords records certificates).publicationFrom time = some found) :
    time ≤ found.time ∧ ∃ before after,
      (ofRecords records certificates).publications = before ++ found :: after ∧
        ∀ other ∈ before, other.time < time := by
  obtain ⟨hfrom, before, after, hsplit, hbefore⟩ := List.find?_eq_some_iff_append.mp h
  refine ⟨of_decide_eq_true hfrom, before, after, hsplit, fun other hother => ?_⟩
  have hnot := hbefore other hother
  simp only [Bool.not_eq_eq_eq_not, Bool.not_true, decide_eq_false_iff_not] at hnot
  exact Int.not_le.mp hnot

/-- The publications before it are of other times, so it is also the first of its own. -/
theorem publicationAt_of_publicationFrom
    (h : (ofRecords records certificates).publicationFrom time = some found) :
    (ofRecords records certificates).publicationAt found.time = some found := by
  obtain ⟨hfrom, before, after, hsplit, hbefore⟩ := exists_split_of_publicationFrom h
  rw [publicationAt, find?_eq_some_iff]
  refine ⟨rfl, before, after, hsplit, fun other hother hsame => ?_⟩
  have hearly := hbefore other hother
  rw [hsame] at hearly
  exact absurd hfrom (Int.not_le.mpr hearly)

/-- The publications behind it are no earlier. -/
theorem time_le_of_publicationFrom {other : PublicationRecord}
    (h : (ofRecords records certificates).publicationFrom time = some found)
    (hmem : other ∈ records) (hother : time ≤ other.time) : found.time ≤ other.time := by
  obtain ⟨-, before, after, hsplit, hbefore⟩ := exists_split_of_publicationFrom h
  have hsorted := pairwise_publications records certificates
  have hmem' : other ∈ (ofRecords records certificates).publications := mem_publications.mpr hmem
  rw [hsplit] at hsorted hmem'
  have hafter := (List.pairwise_cons.mp (List.pairwise_append.mp hsorted).2.1).1
  rw [List.mem_append, List.mem_cons] at hmem'
  rcases hmem' with hearly | rfl | hlate
  · exact absurd hother (Int.not_le.mpr (hbefore other hearly))
  · exact Int.le_refl _
  · exact hafter other hlate

theorem isEarliestFrom_of_publicationFrom
    (h : (ofRecords records certificates).publicationFrom time = some found) :
    IsEarliestFrom records time found where
  from_le := (exists_split_of_publicationFrom h).1
  earliest _ hmem hother := time_le_of_publicationFrom h hmem hother
  first := publicationAt_eq_some_iff.mp (publicationAt_of_publicationFrom h)

theorem publicationFrom_eq_some_iff :
    (ofRecords records certificates).publicationFrom time = some found ↔
      IsEarliestFrom records time found := by
  refine ⟨isEarliestFrom_of_publicationFrom, fun h => ?_⟩
  cases hother : (ofRecords records certificates).publicationFrom time with
  | none =>
      have hearly := publicationFrom_eq_none_iff.mp hother found h.first.mem
      exact absurd h.from_le (Int.not_le.mpr hearly)
  | some other => rw [h.unique (isEarliestFrom_of_publicationFrom hother)]

/-- What a store answers when it was made of a list of publications. -/
structure AnswersFor (records : List PublicationRecord) (store : PublicationStore) : Prop where
  /-- From a time on nothing is found when all publications are earlier. -/
  none_from_iff : ∀ time, store.publicationFrom time = none ↔
    ∀ record ∈ records, record.time < time
  /-- Otherwise the earliest is found, and of several the one given first. -/
  some_from_iff : ∀ time found, store.publicationFrom time = some found ↔
    IsEarliestFrom records time found
  /-- At a time nothing is found when no publication is of that time. -/
  none_at_iff : ∀ time, store.publicationAt time = none ↔ ∀ record ∈ records, record.time ≠ time
  /-- Otherwise the one given first is found. -/
  some_at_iff : ∀ time found, store.publicationAt time = some found ↔
    IsFirstAt records time found
  /-- What is found from a time on is what is found at the time of it. -/
  at_of_from : ∀ time found, store.publicationFrom time = some found →
    store.publicationAt found.time = some found

/--
**What a store of publications finds.**  From a time on it finds nothing exactly when all its
publications are earlier, and otherwise the earliest that is not; at a time it finds a publication
of just that time.  Of several of one time both give the one that was given first, so what is found
from a time on is found again at its own.  When no two publications are of one time, the answers do
not depend on the order in which they were given.
-/
theorem answersFor_ofRecords (records : List PublicationRecord)
    (certificates : List EcdsaCertificate) :
    (ofRecords records certificates).AnswersFor records ∧
      ∀ given : List PublicationRecord, given.Perm records →
        (records.map PublicationRecord.time).Nodup → ∀ time,
          (ofRecords given certificates).publicationFrom time =
              (ofRecords records certificates).publicationFrom time ∧
            (ofRecords given certificates).publicationAt time =
              (ofRecords records certificates).publicationAt time := by
  refine ⟨⟨?_, ?_, ?_, ?_, ?_⟩, fun given hperm distinct time => ?_⟩
  · exact fun time => publicationFrom_eq_none_iff
  · exact fun time found => publicationFrom_eq_some_iff
  · intro time
    simp only [publicationAt, List.find?_eq_none, mem_publications, decide_eq_true_eq, ne_eq]
  · exact fun time found => publicationAt_eq_some_iff
  · exact fun time found => publicationAt_of_publicationFrom
  · have hsame : (ofRecords given certificates).publications =
        (ofRecords records certificates).publications := publications_eq_of_perm hperm distinct
    exact ⟨by rw [publicationFrom, publicationFrom, hsame],
      by rw [publicationAt, publicationAt, hsame]⟩

/-- A publication at a second, told by where it was printed. -/
def bulletin (second : UInt32) (printed : String) : PublicationRecord where
  publicationData :=
    { publicationTime := .ofUInt32 second, publishedHash := Imprint.uniform .sha256 0x11 }
  references := [printed]
  repositoryUris := []

/-- Publications out of order, two of them of second 100. -/
def bulletins : List PublicationRecord :=
  [bulletin 300 "daily", bulletin 100 "weekly", bulletin 200 "daily", bulletin 100 "yearly"]

/-- Of the two publications of second 100 the one given first is found, from an earlier second on
and at its own.  Without the other, the order in which they are given does not matter. -/
theorem answersFor_bulletins :
    (ofRecords bulletins []).publicationFrom (.ofUInt32 50) = some (bulletin 100 "weekly") ∧
      (ofRecords bulletins []).publicationAt (.ofUInt32 100) = some (bulletin 100 "weekly") ∧
      (ofRecords bulletins []).publicationFrom (.ofUInt32 301) = none ∧
      (ofRecords (bulletins.take 3).reverse []).publicationFrom (.ofUInt32 150) =
        (ofRecords (bulletins.take 3) []).publicationFrom (.ofUInt32 150) := by
  have answers := (answersFor_ofRecords bulletins []).1
  have hfrom : (ofRecords bulletins []).publicationFrom (.ofUInt32 50) =
      some (bulletin 100 "weekly") := by
    refine (answers.some_from_iff _ _).mpr ⟨by decide, by decide, rfl, ?_⟩
    exact ⟨[bulletin 300 "daily"], [bulletin 200 "daily", bulletin 100 "yearly"], rfl, by decide⟩
  refine ⟨hfrom, answers.at_of_from _ _ hfrom, (answers.none_from_iff _).mpr (by decide), ?_⟩
  exact ((answersFor_ofRecords (bulletins.take 3) []).2 _ (List.reverse_perm _) (by decide) _).1

end PublicationStore

end Keyless
