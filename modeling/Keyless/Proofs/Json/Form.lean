/-
Forms that can be read back.

A value that is written as JSON may come back with the fields of its objects in another
order: a text keeps the order in which they were written, and a value that is not read
from a text has them sorted.  So reading back is asked for every order at once.  An
arrangement may reorder fields, on every level, and leaves everything else as it is
(`Json.IsArrangement`); leaving all of it as it is and sorting are two of them.

A form that is read back in every arrangement (`Json.ReadsBack`) can be a field of a
record, and the record then is such a form again, if its keys are distinct
(`Record.readsBack`).  Records are put together field by field, and so are the fields that
are written for them (`Record.Reads`): each step adds the field under one more key, unless
it is left out.
-/
import Keyless.Document.Imprint
import Keyless.Proofs.Json.Record

namespace Keyless

variable {α β γ : Type}

/-! ### Arrangements -/

namespace Json

/-- Fields with their values arranged. -/
def arrangeFields (arrange : Json → Json) (fields : List (String × Json)) :
    List (String × Json) :=
  fields.map fun field => (field.1, arrange field.2)

/-- Only the fields of objects with distinct keys change their places. -/
structure IsArrangement (arrange : Json → Json) : Prop where
  string : ∀ text, arrange (.string text) = .string text
  int : ∀ value, arrange (.int value) = .int value
  array : ∀ items, arrange (.array items) = .array (items.map arrange)
  object : ∀ fields : List (String × Json), (fields.map Prod.fst).Nodup →
    ∃ fields', arrange (.object fields) = .object fields' ∧
      (arrangeFields arrange fields).Perm fields'

theorem isArrangement_id : IsArrangement id where
  string _ := rfl
  int _ := rfl
  array items := by rw [List.map_id]; rfl
  object fields _ := ⟨fields, rfl, by simp [arrangeFields]⟩

theorem sortedItems_eq_map (items : List Json) : sortedItems items = items.map sorted := by
  induction items with
  | nil => simp [sortedItems]
  | cons item rest ih => simp [sortedItems, ih]

/-- A field with a key of its own is put among the others. -/
theorem insertField_perm {key : String} {value : Json} {fields : List (String × Json)}
    (new : key ∉ fields.map Prod.fst) :
    ((key, value) :: fields).Perm (insertField key value fields) := by
  induction fields with
  | nil => exact List.Perm.refl _
  | cons field rest ih =>
      obtain ⟨other, otherValue⟩ := field
      simp only [List.map_cons, List.mem_cons, not_or] at new
      rw [insertField]
      by_cases hlt : key < other
      · rw [if_pos hlt]
      · rw [if_neg hlt, if_neg new.1]
        exact (List.Perm.swap _ _ _).trans ((ih new.2).cons _)

theorem sortedFields_perm {fields : List (String × Json)} :
    ∀ done : List (String × Json), ((done ++ fields).map Prod.fst).Nodup →
      (done ++ arrangeFields sorted fields).Perm (sortedFields done fields) := by
  induction fields with
  | nil =>
      intro done _
      simp [arrangeFields, sortedFields]
  | cons field rest ih =>
      obtain ⟨key, value⟩ := field
      intro done distinct
      have hmoved : (done ++ (key, value) :: rest).Perm ((key, value) :: (done ++ rest)) :=
        List.perm_middle
      have hdistinct := (hmoved.map Prod.fst).nodup_iff.mp distinct
      rw [List.map_cons, List.nodup_cons, List.map_append, List.mem_append, not_or] at hdistinct
      obtain ⟨⟨hnew, hrest⟩, hothers⟩ := hdistinct
      have hinsert : ((key, value.sorted) :: done).Perm (insertField key value.sorted done) :=
        insertField_perm hnew
      have hkeys : ((insertField key value.sorted done ++ rest).map Prod.fst).Nodup := by
        have hperm := ((hinsert.append_right rest).map Prod.fst).nodup_iff
        refine hperm.mp ?_
        simp only [List.cons_append, List.map_cons, List.map_append, List.nodup_cons,
          List.mem_append, not_or]
        exact ⟨⟨hnew, hrest⟩, hothers⟩
      rw [sortedFields]
      have hhead : (done ++ arrangeFields sorted ((key, value) :: rest)).Perm
          ((key, value.sorted) :: done ++ arrangeFields sorted rest) := List.perm_middle
      exact hhead.trans ((hinsert.append_right _).trans (ih _ hkeys))

theorem isArrangement_sorted : IsArrangement sorted where
  string _ := by simp [sorted]
  int _ := by simp [sorted]
  array items := by rw [sorted, sortedItems_eq_map]
  object fields distinct := ⟨sortedFields [] fields, by rw [sorted], sortedFields_perm [] distinct⟩

/-! ### Reading back -/

/-- Neither the absent value nor one whose key is none is read as anything. -/
structure Refuses (read : Json → Except DecodeError α) : Prop where
  null : ∃ fault, read .null = .error fault
  nameless : ∀ key value, ∃ fault, read (.nameless key value) = .error fault

/-- Whatever is written in the form is read back, in every arrangement. -/
structure ReadsBack (form : α → Json) (read : Json → Except DecodeError α) : Prop where
  back : ∀ arrange, IsArrangement arrange → ∀ a, read (arrange (form a)) = .ok a
  refuses : Refuses read

theorem readsBack_text : ReadsBack .string toText where
  back arrange h text := by rw [h.string]; rfl
  refuses := ⟨⟨_, rfl⟩, fun _ _ => ⟨_, rfl⟩⟩

theorem toBounded_nat {bound value : Nat} (h : value ≤ bound) :
    (Json.nat value).toBounded bound = .ok value := by
  have hbounds : (0 : Int) ≤ value ∧ (value : Int) ≤ bound := by omega
  show (if _ then _ else _) = _
  rw [if_pos hbounds]
  rfl

/-- A number of a fixed width is read back from its digits. -/
theorem readsBack_bounded {bound : Nat} {toNat : α → Nat} {ofNat : Nat → α}
    (le : ∀ a, toNat a ≤ bound) (inverse : ∀ a, ofNat (toNat a) = a) :
    ReadsBack (fun a => .nat (toNat a)) (fun value => ofNat <$> value.toBounded bound) where
  back arrange h a := by
    show ofNat <$> (arrange (.int _)).toBounded bound = _
    rw [h.int]
    show ofNat <$> (Json.nat (toNat a)).toBounded bound = _
    rw [toBounded_nat (le a)]
    show Except.ok (ofNat (toNat a)) = _
    rw [inverse]
  refuses := ⟨⟨_, rfl⟩, fun _ _ => ⟨_, rfl⟩⟩

theorem readsBack_uint64 : ReadsBack jsonUInt64 toUInt64 :=
  readsBack_bounded (fun a => by have := a.toNat_lt; simp only [UInt64.size]; omega)
    (fun _ => UInt64.ofNat_toNat)

theorem readsBack_uint8 : ReadsBack (fun n : UInt8 => .nat n.toNat) toUInt8 :=
  readsBack_bounded (fun a => by have := a.toNat_lt; omega) (fun _ => UInt8.ofNat_toNat)

theorem mapM_map_eq_ok {write : α → Json} {read : Json → Except DecodeError α}
    (back : ∀ a, read (write a) = .ok a) (values : List α) :
    (values.map write).mapM read = .ok values := by
  induction values with
  | nil => rfl
  | cons a rest ih =>
      rw [List.map_cons, List.mapM_cons, back, ih]
      rfl

theorem ReadsBack.list {form : α → Json} {read : Json → Except DecodeError α}
    (h : ReadsBack form read) : ReadsBack (Json.list form) (toList read) where
  back arrange harrange values := by
    rw [Json.list, harrange.array, List.map_map]
    exact mapM_map_eq_ok (h.back arrange harrange) values
  refuses := ⟨⟨_, rfl⟩, fun _ _ => ⟨_, rfl⟩⟩

/-- A value that may be absent is read back when it is there. -/
theorem ReadsBack.toOption {form : α → Json} {read : Json → Except DecodeError α}
    (h : ReadsBack form read) {arrange : Json → Json} (harrange : IsArrangement arrange) (a : α) :
    Json.toOption read (arrange (form a)) = .ok (some a) := by
  have hback := h.back arrange harrange a
  unfold Json.toOption
  split
  · next hnull =>
      obtain ⟨fault, hfault⟩ := h.refuses.null
      rw [hnull, hfault] at hback
      exact absurd hback (by simp)
  · rw [hback]
    rfl

/-- What is read back does not begin with a key that is none. -/
theorem ReadsBack.named {form : α → Json} {read : Json → Except DecodeError α}
    (h : ReadsBack form read) {arrange : Json → Json} (harrange : IsArrangement arrange) (a : α)
    (key value : Json) : arrange (form a) ≠ .nameless key value := by
  intro heq
  have hback := h.back arrange harrange a
  obtain ⟨fault, hfault⟩ := h.refuses.nameless key value
  rw [heq, hfault] at hback
  exact absurd hback (by simp)

end Json

/-! ### Records -/

namespace Record

open Json (arrangeFields IsArrangement ReadsBack)

theorem forall_mem_arrangeFields {arrange : Json → Json} {fields : List (String × Json)}
    {P : String → Prop} (h : ∀ field ∈ fields, P field.1) :
    ∀ field ∈ arrangeFields arrange fields, P field.1 := by
  intro field hfield
  obtain ⟨before, hbefore, rfl⟩ := List.mem_map.mp hfield
  exact h before hbefore

/-- The first of two records takes its own fields, and the second one's state stays. -/
theorem walk_seq_left {f : Record (α → β)} {r : Record α} (orderless : f.Orderless)
    {fields : List (String × Json)} (own : ∀ field ∈ fields, ¬ f.Declines field.1)
    (other : r.State) : ∀ {state last : f.State}, f.walk state fields = .ok last →
      (f <*> r).walk (state, other) fields = .ok (last, other) := by
  induction fields with
  | nil =>
      intro state last h
      rw [← Except.ok.inj h]
      rfl
  | cons field rest ih =>
      intro state last h
      obtain ⟨mid, ⟨hnamed, hstep⟩, hrest⟩ := walk_cons_eq_ok_iff.mp h
      have htaken : f.accept state field.1 field.2 = some (.ok mid) :=
        hstep.resolve_right fun hpassed =>
          own field List.mem_cons_self (orderless.declines hpassed.1)
      have hothers := ih (fun field hfield => own field (List.mem_cons_of_mem _ hfield)) hrest
      refine walk_cons_eq_ok_iff.mpr ⟨(mid, other), ⟨hnamed, .inl ?_⟩, hothers⟩
      exact both_accept_eq_ok_iff.mpr (.inl ⟨mid, htaken, rfl⟩)

/-- The second takes what the first declines. -/
theorem walk_seq_right {f : Record (α → β)} {r : Record α} {fields : List (String × Json)}
    (declined : ∀ field ∈ fields, f.Declines field.1) (other : f.State) :
    ∀ {state last : r.State}, r.walk state fields = .ok last →
      (f <*> r).walk (other, state) fields = .ok (other, last) := by
  induction fields with
  | nil =>
      intro state last h
      rw [← Except.ok.inj h]
      rfl
  | cons field rest ih =>
      intro state last h
      obtain ⟨mid, ⟨hnamed, hstep⟩, hrest⟩ := walk_cons_eq_ok_iff.mp h
      have hdeclines := declined field List.mem_cons_self other field.2
      have hothers := ih (fun field hfield => declined field (List.mem_cons_of_mem _ hfield)) hrest
      refine walk_cons_eq_ok_iff.mpr ⟨(other, mid), ⟨hnamed, ?_⟩, hothers⟩
      rcases hstep with htaken | ⟨hnone, hpass, rfl⟩
      · exact .inl (both_accept_eq_ok_iff.mpr (.inr ⟨hdeclines, mid, htaken, rfl⟩))
      · exact .inr ⟨both_accept_eq_none_iff.mpr ⟨hdeclines, hnone⟩, hpass, rfl⟩

/-- The fields are some of the record's, and, if no two of its keys are the same, it makes `a` of
them in every arrangement of their values. -/
structure Reads (r : Record α) (fields : List (String × Json)) (a : α) : Prop where
  orderless : r.Orderless
  declines : ∀ key, r.Declines key ↔ key ∉ r.keys
  within : (fields.map Prod.fst).Sublist r.keys
  walk : r.keys.Nodup → ∀ arrange, IsArrangement arrange → ∃ last,
    r.walk r.start (arrangeFields arrange fields) = .ok last ∧ r.finish last = .ok a

/-- **A record whose fields are read back is read back.** -/
theorem readsBack {r : Record α} {fields : α → List (String × Json)}
    (distinct : r.keys.Nodup) (reads : ∀ a, r.Reads (fields a) a) :
    ReadsBack (fun a => .object (fields a)) r.decode where
  back arrange harrange a := by
    obtain ⟨fields', heq, perm⟩ := harrange.object (fields a) (distinct.sublist (reads a).within)
    obtain ⟨last, hwalk, hfinish⟩ := (reads a).walk distinct arrange harrange
    rw [heq]
    exact (reads a).orderless.decode_of_perm perm (bind_eq_ok_iff.mpr ⟨last, hwalk, hfinish⟩)
  refuses := ⟨⟨_, rfl⟩, fun _ _ => ⟨_, rfl⟩⟩

variable {key : String} {value : Json} {fields fields' : List (String × Json)}

theorem reads_field {decode : Json → Except DecodeError α} {absent : Except DecodeError α} {a : α}
    (back : ∀ arrange, IsArrangement arrange →
      decode (arrange value) = .ok a ∧ ∀ k w, arrange value ≠ .nameless k w) :
    (field key decode absent).Reads [(key, value)] a where
  orderless := orderless_field key decode absent
  declines _ := by rw [declines_field_iff, keys_field, List.mem_singleton]
  within := List.Sublist.refl [key]
  walk _ arrange harrange := by
    obtain ⟨hback, hnamed⟩ := back arrange harrange
    refine ⟨some a, walk_cons_eq_ok_iff.mpr ⟨some a, ⟨hnamed, .inl ?_⟩, rfl⟩, rfl⟩
    exact field_accept_eq_ok_iff.mpr ⟨rfl, rfl, a, hback, rfl⟩

theorem reads_absent {decode : Json → Except DecodeError α} {absent : Except DecodeError α} {a : α}
    (h : absent = .ok a) : (field key decode absent).Reads [] a where
  orderless := orderless_field key decode absent
  declines _ := by rw [declines_field_iff, keys_field, List.mem_singleton]
  within := List.nil_sublist [key]
  walk _ _ _ := ⟨none, rfl, h⟩

namespace Reads

theorem mem_keys {r : Record α} {a : α} (h : r.Reads fields a) {field : String × Json}
    (mem : field ∈ fields) : field.1 ∈ r.keys :=
  h.within.subset (List.mem_map_of_mem mem)

theorem map {r : Record α} {a : α} (h : r.Reads fields a) (f : α → β) :
    (f <$> r).Reads fields (f a) where
  orderless := h.orderless.map f
  declines := h.declines
  within := h.within
  walk distinct arrange harrange := by
    obtain ⟨last, hwalk, hfinish⟩ := h.walk distinct arrange harrange
    refine ⟨last, walk_map_eq_ok_iff.mpr hwalk, ?_⟩
    show f <$> r.finish last = _
    rw [hfinish]
    rfl

/-- The fields of one more record are read behind those of the others. -/
theorem seq {f : Record (α → β)} {r : Record α} {g : α → β} {a : α} (h : f.Reads fields g)
    (hr : r.Reads fields' a) : (f <*> r).Reads (fields ++ fields') (g a) where
  orderless := h.orderless.seq hr.orderless
  declines key := by
    rw [declines_seq_iff, h.declines, hr.declines, keys_seq, List.mem_append, not_or]
  within := by
    rw [List.map_append]
    exact h.within.append hr.within
  walk distinct arrange harrange := by
    obtain ⟨hkeys, hothers, hapart⟩ := List.nodup_append.mp distinct
    obtain ⟨last, hwalk, hfinish⟩ := h.walk hkeys arrange harrange
    obtain ⟨last', hwalk', hfinish'⟩ := hr.walk hothers arrange harrange
    have hown : ∀ field ∈ fields, ¬ f.Declines field.1 := fun field hmem hdeclines =>
      (h.declines field.1).mp hdeclines (h.mem_keys hmem)
    have hnew : ∀ field ∈ fields', f.Declines field.1 := fun field hmem =>
      (h.declines field.1).mpr fun hkey => hapart field.1 hkey field.1 (hr.mem_keys hmem) rfl
    refine ⟨(last, last'), ?_, ?_⟩
    · rw [arrangeFields, List.map_append]
      exact walk_append_eq_ok_iff.mpr ⟨(last, r.start),
        walk_seq_left h.orderless
          (forall_mem_arrangeFields (P := fun key => ¬ f.Declines key) hown) r.start hwalk,
        walk_seq_right (forall_mem_arrangeFields (P := f.Declines) hnew) last hwalk'⟩
    · exact bind_eq_ok_iff.mpr ⟨g, hfinish, bind_eq_ok_iff.mpr ⟨a, hfinish', rfl⟩⟩

variable {form : α → Json} {read : Json → Except DecodeError α}

theorem single {absent : Except DecodeError α} (back : ReadsBack form read) (a : α) :
    (field key read absent).Reads [(key, form a)] a :=
  reads_field fun arrange h => ⟨back.back arrange h a, back.named h a⟩

theorem first (back : ReadsBack form read) (f : α → β) (a : α) :
    (f <$> required key read).Reads [(key, form a)] (f a) :=
  Reads.map (single back a) f

variable {f : Record (α → β)} {g : α → β}

theorem required (h : f.Reads fields g) (back : ReadsBack form read) (a : α) :
    (f <*> Record.required key read).Reads (fields ++ [(key, form a)]) (g a) :=
  h.seq (single back a)

theorem defaulted {default : α} (h : f.Reads fields g) (back : ReadsBack form read) (a : α) :
    (f <*> Record.defaulted key read default).Reads (fields ++ [(key, form a)]) (g a) :=
  h.seq (single back a)

/-- An absent value is left out, and read back as absent. -/
theorem optional {f : Record (Option α → β)} {g : Option α → β} (h : f.Reads fields g)
    (back : ReadsBack form read) (o : Option α) :
    (f <*> Record.optional key read).Reads (fields ++ Json.optionalField key form o)
      (g o) := by
  refine h.seq ?_
  cases o with
  | none => exact reads_absent rfl
  | some a => exact reads_field fun arrange h => ⟨back.toOption h a, back.named h a⟩

/-- An empty list is left out, and read back as empty. -/
theorem listed {f : Record (List α → β)} {g : List α → β} (h : f.Reads fields g)
    (back : ReadsBack form read) (values : List α) :
    (f <*> Record.defaulted key (Json.toList read) []).Reads
      (fields ++ if values.isEmpty then [] else [(key, .list form values)]) (g values) := by
  cases values with
  | nil => exact h.seq (reads_absent rfl)
  | cons a rest => exact h.defaulted back.list (a :: rest)

end Reads

end Record

end Keyless
