/-
What is left of a text without the blanks around it.

Trimming drops blanks from the front, turns the text around, drops blanks again and turns it
back.  What it is meant to leave can be said without any of this: a part of the text with
nothing but blanks around it, which itself neither begins nor ends with one
(`Text.IsTrimmed`).  There is one such part, and trimming finds it (`Text.isTrimmed_iff`).
-/
import Mathlib.Data.List.TakeWhile
import Keyless.Text

namespace Keyless.Text

variable {text body : List Char}

/-- The blanks around it are all that the text has beside the body. -/
structure IsTrimmed (body text : List Char) : Prop where
  around : ∃ before after, text = before ++ body ++ after ∧
    (∀ c ∈ before, isBlank c = true) ∧ ∀ c ∈ after, isBlank c = true
  /-- The body does not begin with a blank. -/
  first : ∀ c, body.head? = some c → isBlank c = false
  /-- Nor does it end with one. -/
  last : ∀ c, body.getLast? = some c → isBlank c = false

/-- Dropping stops where it should. -/
theorem head?_dropWhile (c : Char) (h : (text.dropWhile isBlank).head? = some c) :
    isBlank c = false := by
  have hnot := List.head?_dropWhile_not isBlank text
  rw [h] at hnot
  exact hnot

theorem dropWhile_eq_self (h : ∀ c, text.head? = some c → isBlank c = false) :
    text.dropWhile isBlank = text := by
  cases text with
  | nil => rfl
  | cons c rest =>
      have hc : isBlank c = false := h c rfl
      exact List.dropWhile_cons_of_neg (by simp [hc])

/-- A text is what trimming leaves, with blanks around it. -/
theorem exists_trim (text : List Char) : ∃ before after, text = before ++ trim text ++ after ∧
    (∀ c ∈ before, isBlank c = true) ∧ ∀ c ∈ after, isBlank c = true := by
  have hback (l : List Char) :
      l = (l.reverse.dropWhile isBlank).reverse ++ (l.reverse.takeWhile isBlank).reverse := by
    rw [← List.reverse_append, List.takeWhile_append_dropWhile, List.reverse_reverse]
  refine ⟨text.takeWhile isBlank, ((text.dropWhile isBlank).reverse.takeWhile isBlank).reverse,
    ?_, fun c hc => List.mem_takeWhile_imp hc,
    fun c hc => List.mem_takeWhile_imp (List.mem_reverse.mp hc)⟩
  rw [trim, List.append_assoc, ← hback, List.takeWhile_append_dropWhile]

theorem isTrimmed_trim (text : List Char) : IsTrimmed (trim text) text where
  around := exists_trim text
  first := by
    intro c hc
    -- What trimming leaves stands at the front of what the first dropping left.
    have hprefix : trim text <+: text.dropWhile isBlank := by
      have hsuffix := List.dropWhile_suffix (l := (text.dropWhile isBlank).reverse) isBlank
      have := List.reverse_prefix.mpr hsuffix
      rwa [List.reverse_reverse] at this
    obtain ⟨rest, hrest⟩ := hprefix
    obtain ⟨others, hothers⟩ := List.head?_eq_some_iff.mp hc
    have hhead : (text.dropWhile isBlank).head? = some c := by
      rw [← hrest, hothers]
      rfl
    exact head?_dropWhile c hhead
  last := by
    intro c hc
    rw [trim, List.getLast?_reverse] at hc
    exact head?_dropWhile c hc

/-- **Trimming leaves the one part of a text that it should.** -/
theorem isTrimmed_iff : IsTrimmed body text ↔ trim text = body := by
  refine ⟨fun h => ?_, fun h => h ▸ isTrimmed_trim text⟩
  obtain ⟨before, after, rfl, hbefore, hafter⟩ := h.around
  rw [trim, List.append_assoc, List.dropWhile_append_of_pos hbefore]
  by_cases hempty : body = []
  · subst hempty
    have hblank : (List.dropWhile isBlank after) = [] := List.dropWhile_eq_nil_iff.mpr hafter
    rw [List.nil_append, hblank]
    rfl
  · obtain ⟨c, rest, rfl⟩ := List.exists_cons_of_ne_nil hempty
    have hfront : (c :: rest ++ after).dropWhile isBlank = c :: rest ++ after :=
      dropWhile_eq_self fun d hd => h.first d hd
    have hback : (c :: rest).reverse.dropWhile isBlank = (c :: rest).reverse := by
      refine dropWhile_eq_self fun d hd => h.last d ?_
      rwa [List.head?_reverse] at hd
    rw [hfront, List.reverse_append,
      List.dropWhile_append_of_pos fun d hd => hafter d (List.mem_reverse.mp hd), hback,
      List.reverse_reverse]

theorem trim_of_not_isBlank (h : ∀ c ∈ text, isBlank c = false) : trim text = text :=
  isTrimmed_iff.mp
    { around := ⟨[], [], by simp, by simp, by simp⟩
      first := fun c hc => h c (List.mem_of_mem_head? hc)
      last := fun c hc => h c (List.mem_of_mem_getLast? hc) }

end Keyless.Text
