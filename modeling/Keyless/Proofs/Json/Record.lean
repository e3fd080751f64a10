/-
The fields of an object have no order.

A record is read in one walk over the fields, and which fault it reports depends on
their order.  What it reads without fault does not (`Record.decode_of_perm`).  Two
things make it so.  Whether a key is one of the record's is settled by the key alone,
and two fields that were taken one after the other could have been taken the other way
round (`Record.Orderless`).  Both hold of a single field, as a second field of its key
is refused, and both are inherited by what is put together from such records.
-/
import Keyless.Json.Record
import Keyless.Proofs.Outcome

namespace Keyless.Record

variable {α β γ : Type}

/-! ### Keys of a record -/

@[simp] theorem keys_field (key : String) (decode : Json → Except DecodeError α)
    (absent : Except DecodeError α) : (field key decode absent).keys = [key] := rfl

@[simp] theorem keys_seq (f : Record (α → β)) (r : Record α) :
    (f <*> r).keys = f.keys ++ r.keys := rfl

/-- The key is none of the record's. -/
def Declines (r : Record α) (key : String) : Prop :=
  ∀ state value, r.accept state key value = none

theorem declines_field_iff {key k : String} {decode : Json → Except DecodeError α}
    {absent : Except DecodeError α} : (field key decode absent).Declines k ↔ k ≠ key := by
  refine ⟨?_, fun hne state value => if_neg hne⟩
  rintro h rfl
  exact absurd (h none .null) (by simp [field])

/-- Of two records together a field is taken by the first, or else by the second. -/
theorem both_accept_eq_ok_iff {combine : α → β → γ} {first : Record α} {second : Record β}
    {state last : first.State × second.State} {key : String} {value : Json} :
    (both combine first second).accept state key value = some (.ok last) ↔
      (∃ taken, first.accept state.1 key value = some (.ok taken) ∧ last = (taken, state.2)) ∨
      (first.accept state.1 key value = none ∧
        ∃ taken, second.accept state.2 key value = some (.ok taken) ∧
          last = (state.1, taken)) := by
  simp only [both]
  cases first.accept state.1 key value with
  | some result =>
      cases result <;> simp [Except.map, eq_comm]
  | none =>
      rcases second.accept state.2 key value with _ | ⟨fault | taken⟩ <;>
        simp [Except.map, eq_comm]

theorem both_accept_eq_none_iff {combine : α → β → γ} {first : Record α} {second : Record β}
    {state : first.State × second.State} {key : String} {value : Json} :
    (both combine first second).accept state key value = none ↔
      first.accept state.1 key value = none ∧ second.accept state.2 key value = none := by
  simp only [both]
  cases first.accept state.1 key value <;> simp

theorem declines_seq_iff {f : Record (α → β)} {r : Record α} {k : String} :
    (f <*> r).Declines k ↔ f.Declines k ∧ r.Declines k := by
  have hboth : ∀ state value, (f <*> r).accept state k value = none ↔
      f.accept state.1 k value = none ∧ r.accept state.2 k value = none :=
    fun _ _ => both_accept_eq_none_iff
  refine ⟨fun h => ⟨fun state value => ?_, fun state value => ?_⟩, fun h state value => ?_⟩
  · exact ((hboth (state, r.start) value).mp (h _ value)).1
  · exact ((hboth (f.start, state) value).mp (h _ value)).2
  · exact (hboth state value).mpr ⟨h.1 _ value, h.2 _ value⟩

/-! ### Records that do not depend on the order -/

/-- What the record takes does not depend on the order in which it is offered. -/
structure Orderless (r : Record α) : Prop where
  declines : ∀ {state key value}, r.accept state key value = none → r.Declines key
  swap : ∀ {state mid last key value key' value'}, r.accept state key value = some (.ok mid) →
    r.accept mid key' value' = some (.ok last) →
    ∃ mid', r.accept state key' value' = some (.ok mid') ∧
      r.accept mid' key value = some (.ok last)

/-- A field is taken under its own key, and once. -/
theorem field_accept_eq_ok_iff {key k : String} {decode : Json → Except DecodeError α}
    {absent : Except DecodeError α} {state last : Option α} {value : Json} :
    (field key decode absent).accept state k value = some (.ok last) ↔
      k = key ∧ state = none ∧ ∃ a, decode value = .ok a ∧ last = some a := by
  by_cases hkey : k = key
  · subst hkey
    cases state with
    | some found => simp [field]
    | none => cases hvalue : decode value <;> simp [field, hvalue, Functor.map, Except.map, eq_comm]
  · simp [field, hkey]

theorem orderless_field (key : String) (decode : Json → Except DecodeError α)
    (absent : Except DecodeError α) : (field key decode absent).Orderless where
  declines := by
    intro state k value h
    rw [declines_field_iff]
    rintro rfl
    cases state <;> simp [field] at h
  swap := by
    -- A second field of the key is refused, so there are no two to swap.
    intro state mid last k value k' value' h h'
    obtain ⟨-, -, a, -, rfl⟩ := field_accept_eq_ok_iff.mp h
    obtain ⟨-, hnone, -⟩ := field_accept_eq_ok_iff.mp h'
    exact absurd hnone (by simp)

theorem Orderless.map {r : Record α} (h : r.Orderless) (f : α → β) : (f <$> r).Orderless :=
  ⟨h.declines, h.swap⟩

theorem Orderless.seq {f : Record (α → β)} {r : Record α} (hf : f.Orderless) (hr : r.Orderless) :
    (f <*> r).Orderless where
  declines := by
    intro state key value h
    obtain ⟨hfirst, hsecond⟩ := both_accept_eq_none_iff.mp h
    exact declines_seq_iff.mpr ⟨hf.declines hfirst, hr.declines hsecond⟩
  swap := by
    intro state mid last key value key' value' h h'
    rcases both_accept_eq_ok_iff.mp h with ⟨taken, htaken, rfl⟩ | ⟨hnone, taken, htaken, rfl⟩ <;>
      rcases both_accept_eq_ok_iff.mp h' with
        ⟨taken', htaken', rfl⟩ | ⟨hnone', taken', htaken', rfl⟩
    · obtain ⟨mid', hmid', hlast⟩ := hf.swap htaken htaken'
      exact ⟨(mid', state.2), both_accept_eq_ok_iff.mpr (.inl ⟨mid', hmid', rfl⟩),
        both_accept_eq_ok_iff.mpr (.inl ⟨taken', hlast, rfl⟩)⟩
    · exact ⟨(state.1, taken'),
        both_accept_eq_ok_iff.mpr (.inr ⟨hf.declines hnone' _ _, taken', htaken', rfl⟩),
        both_accept_eq_ok_iff.mpr (.inl ⟨taken, htaken, rfl⟩)⟩
    · exact ⟨(taken', state.2), both_accept_eq_ok_iff.mpr (.inl ⟨taken', htaken', rfl⟩),
        both_accept_eq_ok_iff.mpr (.inr ⟨hf.declines hnone _ _, taken, htaken, rfl⟩)⟩
    · obtain ⟨mid', hmid', hlast⟩ := hr.swap htaken htaken'
      exact ⟨(state.1, mid'), both_accept_eq_ok_iff.mpr (.inr ⟨hnone', mid', hmid', rfl⟩),
        both_accept_eq_ok_iff.mpr (.inr ⟨hnone, taken', hlast, rfl⟩)⟩

/-! ### Walks -/

/-- One step of a walk: the field is taken, or passed over. -/
def Steps (r : Record α) (state : r.State) (field : String × Json) (last : r.State) : Prop :=
  (∀ key value, field.2 ≠ .nameless key value) ∧
    (r.accept state field.1 field.2 = some (.ok last) ∨
      r.accept state field.1 field.2 = none ∧ field.2.pass = .ok () ∧ last = state)

theorem walk_cons_eq_ok_iff {r : Record α} {state last : r.State} {field : String × Json}
    {rest : List (String × Json)} :
    r.walk state (field :: rest) = .ok last ↔
      ∃ mid, r.Steps state field mid ∧ r.walk mid rest = .ok last := by
  obtain ⟨key, value⟩ := field
  unfold Steps
  by_cases hname : ∃ k v, value = .nameless k v
  · obtain ⟨k, v, rfl⟩ := hname
    simp [walk]
  · have hnamed : ∀ k v, value ≠ .nameless k v := fun k v heq => hname ⟨k, v, heq⟩
    rw [walk]
    · rcases haccept : r.accept state key value with _ | ⟨fault | taken⟩
      · simp only [check_bind_eq_ok_iff]
        simp [hnamed, and_assoc]
      · simp [bind, Except.bind]
      · simp [hnamed, bind, Except.bind]
    · exact hnamed

theorem walk_append_eq_ok_iff {r : Record α} {fields rest : List (String × Json)} :
    ∀ {state last : r.State}, r.walk state (fields ++ rest) = .ok last ↔
      ∃ mid, r.walk state fields = .ok mid ∧ r.walk mid rest = .ok last := by
  induction fields with
  | nil =>
      intro state last
      simp [walk]
  | cons field others ih =>
      intro state last
      simp only [List.cons_append, walk_cons_eq_ok_iff, ih]
      refine ⟨?_, ?_⟩
      · rintro ⟨first, hfirst, mid, hmid, hrest⟩
        exact ⟨mid, ⟨first, hfirst, hmid⟩, hrest⟩
      · rintro ⟨mid, ⟨first, hfirst, hmid⟩, hrest⟩
        exact ⟨first, hfirst, mid, hmid, hrest⟩

theorem walk_map_eq_ok_iff {f : α → β} {r : Record α} {fields : List (String × Json)} :
    ∀ {state last : r.State},
      (f <$> r).walk state fields = .ok last ↔ r.walk state fields = .ok last := by
  induction fields with
  | nil =>
      intro state last
      rfl
  | cons field rest ih =>
      intro state last
      rw [walk_cons_eq_ok_iff, walk_cons_eq_ok_iff]
      exact exists_congr fun mid => and_congr_right fun _ => ih

theorem Orderless.steps_swap {r : Record α} (h : r.Orderless) {state mid last : r.State}
    {field field' : String × Json} (hstep : r.Steps state field mid)
    (hstep' : r.Steps mid field' last) :
    ∃ mid', r.Steps state field' mid' ∧ r.Steps mid' field last := by
  obtain ⟨hnamed, htaken | ⟨hnone, hpass, rfl⟩⟩ := hstep <;>
    obtain ⟨hnamed', htaken' | ⟨hnone', hpass', rfl⟩⟩ := hstep'
  · obtain ⟨mid', hmid', hlast⟩ := h.swap htaken htaken'
    exact ⟨mid', ⟨hnamed', .inl hmid'⟩, hnamed, .inl hlast⟩
  · exact ⟨state, ⟨hnamed', .inr ⟨h.declines hnone' _ _, hpass', rfl⟩⟩, hnamed, .inl htaken⟩
  · exact ⟨last, ⟨hnamed', .inl htaken'⟩, hnamed, .inr ⟨h.declines hnone _ _, hpass, rfl⟩⟩
  · exact ⟨_, ⟨hnamed', .inr ⟨hnone', hpass', rfl⟩⟩, hnamed, .inr ⟨hnone, hpass, rfl⟩⟩

/-- Walks over the same fields come to the same, if they come to anything. -/
theorem Orderless.walk_of_perm {r : Record α} (h : r.Orderless)
    {fields fields' : List (String × Json)} (perm : fields.Perm fields') :
    ∀ {state last : r.State}, r.walk state fields = .ok last → r.walk state fields' = .ok last := by
  induction perm with
  | nil => exact fun hwalk => hwalk
  | cons field _ ih =>
      intro state last hwalk
      obtain ⟨mid, hstep, hrest⟩ := walk_cons_eq_ok_iff.mp hwalk
      exact walk_cons_eq_ok_iff.mpr ⟨mid, hstep, ih hrest⟩
  | swap field field' rest =>
      intro state last hwalk
      obtain ⟨mid, hstep, hwalk⟩ := walk_cons_eq_ok_iff.mp hwalk
      obtain ⟨next, hstep', hrest⟩ := walk_cons_eq_ok_iff.mp hwalk
      obtain ⟨mid', hfirst, hsecond⟩ := h.steps_swap hstep hstep'
      exact walk_cons_eq_ok_iff.mpr ⟨mid', hfirst, walk_cons_eq_ok_iff.mpr ⟨next, hsecond, hrest⟩⟩
  | trans _ _ ih ih' => exact fun hwalk => ih' (ih hwalk)

/-- **What is read from an object does not depend on the order of its fields.** -/
theorem Orderless.decode_of_perm {r : Record α} (h : r.Orderless)
    {fields fields' : List (String × Json)} (perm : fields.Perm fields') {a : α}
    (read : r.decode (.object fields) = .ok a) : r.decode (.object fields') = .ok a := by
  obtain ⟨last, hwalk, hfinish⟩ := bind_eq_ok_iff.mp read
  exact bind_eq_ok_iff.mpr ⟨last, h.walk_of_perm perm hwalk, hfinish⟩

end Keyless.Record
