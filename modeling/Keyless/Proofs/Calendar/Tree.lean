/-
The calendar that an honest service keeps, and the paths that it hands out.

Over the seconds `first` to `first + more` the calendar is a tree: a single leaf, or
a left part that is complete and as large as fits, joined to the rest
(`Calendar.root`).  A chain for a second is the path from its leaf to the root, with
the roots of the parts that it passes as siblings (`Calendar.path`).

Three functions look at such a chain, and each is compared with the tree by the
recursion of the path, which is that of the tree.  Folding the path rebuilds the
root (`climb_path`).  Its directions are the route to the second
(`directions_path`), so it registers that second.  And the siblings on its left do
not depend on where the calendar ends: they are the complete parts that the seconds
before it fill (`rightSiblings_path`), because a calendar that reaches into the upper
half of a larger one splits where the larger one does
(`Descent.highBit_eq_of_le`).
-/
import Keyless.Extension.Signature
import Keyless.Proofs.Calendar.Binding
import Keyless.Proofs.Calendar.Route

namespace Keyless

/-- A hash for every second from the epoch on, all of one algorithm that has a function. -/
structure Calendar where
  algorithm : HashAlgorithm
  implemented : algorithm.isImplemented = true
  leaf : Nat → Imprint
  algorithm_leaf : ∀ second, (leaf second).algorithm = algorithm

namespace Calendar

/-! ### The tree -/

/-- The function of the calendar's algorithm. -/
def function (k : Calendar) : HashFunction k.algorithm.digestLength :=
  k.algorithm.function.get (k.algorithm.isImplemented_eq_isSome.symm.trans k.implemented)

/-- The imprint of a message. -/
def digest (k : Calendar) (message : Bytes) : Imprint :=
  ⟨k.algorithm, k.function.digest message, k.function.length_digest message⟩

/-- The root above two roots. -/
def join (k : Calendar) (left right : Imprint) : Imprint :=
  k.digest (left.octets ++ right.octets ++ [0xFF])

/-- The root over the seconds `first` to `first + more`. -/
def root (k : Calendar) (first more : Nat) : Imprint :=
  if _h : more = 0 then k.leaf first
  else
    k.join (k.root first (2 ^ more.log2 - 1))
      (k.root (first + 2 ^ more.log2) (more - 2 ^ more.log2))
termination_by more
decreasing_by
  all_goals
    have := Nat.log2_self_le _h
    have := Nat.two_pow_pos more.log2
    omega

/-- The links from the leaf of a second to the root over `first` to `first + more`. -/
def path (k : Calendar) (second first more : Nat) : List CalendarLink :=
  if _h : more = 0 then []
  else if second < first + 2 ^ more.log2 then
    k.path second first (2 ^ more.log2 - 1) ++
      [{ direction := .left
         sibling := k.root (first + 2 ^ more.log2) (more - 2 ^ more.log2) }]
  else
    k.path second (first + 2 ^ more.log2) (more - 2 ^ more.log2) ++
      [{ direction := .right, sibling := k.root first (2 ^ more.log2 - 1) }]
termination_by more
decreasing_by
  all_goals
    have := Nat.log2_self_le _h
    have := Nat.two_pow_pos more.log2
    omega

/-- The chain from a time to the calendar root of a later one.  The time that a chain states for
itself is no part of the path. -/
def chain (k : Calendar) (stated time publication : Time) : CalendarChain where
  inputHash := k.leaf time.seconds.toNat
  aggregationTime := stated
  publicationTime := publication
  links := k.path time.seconds.toNat 0 publication.seconds.toNat

variable {k : Calendar}

theorem hash_eq (k : Calendar) (message : Bytes) :
    k.algorithm.hash message = .ok (k.digest message) := by
  have hfunction : k.algorithm.function = some k.function := (Option.some_get _).symm
  simp only [HashAlgorithm.hash, hfunction, digest]

theorem root_of_eq_zero (first : Nat) : k.root first 0 = k.leaf first := by
  rw [root, dif_pos rfl]

theorem root_of_ne_zero {first more : Nat} (h : more ≠ 0) :
    k.root first more = k.join (k.root first (2 ^ more.log2 - 1))
      (k.root (first + 2 ^ more.log2) (more - 2 ^ more.log2)) := by
  rw [root, dif_neg h]

theorem algorithm_root (k : Calendar) (first more : Nat) :
    (k.root first more).algorithm = k.algorithm := by
  by_cases h : more = 0
  · rw [h, root_of_eq_zero, k.algorithm_leaf]
  · rw [root_of_ne_zero h]
    rfl

/-! ### Folding a path -/

theorem above_left {running right : Imprint} (h : right.algorithm = k.algorithm) :
    CalendarLink.above { direction := .left, sibling := right } running =
      .ok (k.join running right) := by
  rw [CalendarLink.above, h, k.hash_eq]
  rfl

theorem above_right {running left : Imprint} (h : left.algorithm = k.algorithm) :
    CalendarLink.above { direction := .right, sibling := left } running =
      .ok (k.join left running) := by
  rw [CalendarLink.above, h, k.hash_eq]
  rfl

end Calendar

theorem climbCalendar_concat {links : List CalendarLink} {link : CalendarLink} :
    ∀ {running below : Imprint}, climbCalendar running links = .ok below →
      climbCalendar running (links ++ [link]) = link.above below := by
  induction links with
  | nil =>
      intro running below h
      obtain rfl := Except.ok.inj h
      show (link.above running >>= fun next => .ok next) = link.above running
      cases link.above running <;> rfl
  | cons first rest ih =>
      intro running below h
      obtain ⟨next, hnext, hrest⟩ := climbCalendar_cons.mp h
      rw [List.cons_append, climbCalendar, hnext]
      exact ih hrest

namespace Calendar

variable {k : Calendar}

/-- **Folding the path of a second rebuilds the root.** -/
theorem climb_path {second first more : Nat} (low : first ≤ second)
    (high : second ≤ first + more) :
    climbCalendar (k.leaf second) (k.path second first more) = .ok (k.root first more) := by
  fun_induction path k second first more with
  | case1 first =>
      obtain rfl : second = first := by omega
      rw [root_of_eq_zero]
      rfl
  | case2 first more hmore side ih =>
      rw [climbCalendar_concat (ih low (by omega)), above_left (k.algorithm_root _ _),
        root_of_ne_zero hmore]
  | case3 first more hmore side ih =>
      rw [climbCalendar_concat (ih (by omega) (by omega)), above_right (k.algorithm_root _ _),
        root_of_ne_zero hmore]

/-! ### The shape of a path -/

/-- **The directions of a path are the route to its second.** -/
theorem directions_path {second first more : Nat} :
    (k.path second first more).map CalendarLink.direction =
      (Descent.route second { remaining := more, passed := first }).reverse := by
  fun_induction path k second first more with
  | case1 first => rw [Descent.route_of_remaining_eq_zero rfl, List.map_nil, List.reverse_nil]
  | case2 first more hmore side ih =>
      have hside : second < first + Descent.highBit more := by rwa [Descent.highBit_eq]
      rw [Descent.route_of_lt hmore hside, List.reverse_cons, List.map_append, ih]
      simp only [Descent.step, Descent.highBit_eq, List.map_cons, List.map_nil]
  | case3 first more hmore side ih =>
      have hside : first + Descent.highBit more ≤ second := by
        rw [Descent.highBit_eq]
        exact Nat.not_lt.mp side
      rw [Descent.route_of_le hmore hside, List.reverse_cons, List.map_append, ih]
      simp only [Descent.step, Descent.highBit_eq, List.map_cons, List.map_nil]

/-! ### The past of a path -/

/-- The complete parts that `count` seconds from `first` on fill, the last part first. -/
def past (k : Calendar) (first count : Nat) : List Imprint :=
  if _h : count = 0 then []
  else
    k.past (first + 2 ^ count.log2) (count - 2 ^ count.log2) ++
      [k.root first (2 ^ count.log2 - 1)]
termination_by count
decreasing_by
  have := Nat.two_pow_pos count.log2
  omega

/-- **The roots on the left of a path are the complete parts before its second**, wherever the
calendar ends. -/
theorem rightSiblings_path {second first more : Nat} (low : first ≤ second)
    (high : second ≤ first + more) :
    ((k.path second first more).filter (·.direction = .right)).map CalendarLink.sibling =
      k.past first (second - first) := by
  fun_induction path k second first more with
  | case1 first =>
      obtain rfl : second = first := by omega
      rw [past, dif_pos (Nat.sub_self second)]
      rfl
  | case2 first more hmore side ih =>
      rw [List.filter_append, List.map_append, ih low (by omega)]
      simp
  | case3 first more hmore side ih =>
      have hbit : 2 ^ (second - first).log2 = 2 ^ more.log2 := by
        rw [← Descent.highBit_eq, ← Descent.highBit_eq]
        rw [← Descent.highBit_eq] at side
        exact Descent.highBit_eq_of_le (by omega) (by omega)
      have hpos := Nat.two_pow_pos more.log2
      rw [List.filter_append, List.map_append, ih (by omega) (by omega), past.eq_def k first,
        dif_neg (by omega), hbit, Nat.sub_sub]
      simp

/-! ### The chains of the calendar -/

theorem rightSiblings_chain {stated time publication : Time} (published : time ≤ publication) :
    (k.chain stated time publication).rightSiblings = k.past 0 time.seconds.toNat := by
  rw [Time.le_iff] at published
  exact rightSiblings_path (Nat.zero_le _) (by omega)

/--
**Honest extension passes.**  A chain of the calendar leads to the calendar's root
and registers its own time, and it keeps the past of every other chain of the
calendar for that time, whichever of the two was published first; so a signature
with the one can be extended by the other.
-/
theorem chain_passes (k : Calendar) {stated stated' time publication publication' : Time}
    (begun : 0 ≤ time.seconds) (published : time ≤ publication)
    (published' : time ≤ publication') :
    (k.chain stated time publication).output = .ok (k.root 0 publication.seconds.toNat) ∧
      (k.chain stated time publication).registrationTime = .ok time ∧
      (k.chain stated time publication).keepsPast (k.chain stated' time publication') = true ∧
      ∀ s : Signature, s.calendarChain = some (k.chain stated time publication) →
        s.checkExtension (k.chain stated' time publication') = .ok () := by
  have hwithin := Time.le_iff.mp published
  have keeps :
      (k.chain stated time publication).keepsPast (k.chain stated' time publication') = true := by
    rw [CalendarChain.keepsPast, rightSiblings_chain published, rightSiblings_chain published']
    exact List.isPrefixOf_iff_prefix.mpr List.prefix_rfl
  refine ⟨climb_path (Nat.zero_le _) (by omega), ?_, keeps, fun s own => ?_⟩
  · rw [CalendarChain.registrationTime_eq_ok_iff_shape]
    exact ⟨begun, published, directions_path⟩
  · rw [Signature.checkExtension, Signature.agreesWith, own]
    exact if_pos keeps

/-- A calendar whose leaves repeat every 256 seconds. -/
def cyclic : Calendar where
  algorithm := .sha256
  implemented := rfl
  leaf second := Imprint.uniform .sha256 (UInt8.ofNat second)
  algorithm_leaf _ := rfl

/-- The chains from second 3 to the calendar roots of the seconds 6 and 9. -/
theorem chain_passes_cyclic :
    (cyclic.chain (.ofUInt32 3) (.ofUInt32 3) (.ofUInt32 6)).output = .ok (cyclic.root 0 6) ∧
      (cyclic.chain (.ofUInt32 3) (.ofUInt32 3) (.ofUInt32 6)).registrationTime =
        .ok (.ofUInt32 3) ∧
      (cyclic.chain (.ofUInt32 3) (.ofUInt32 3) (.ofUInt32 6)).keepsPast
        (cyclic.chain (.ofUInt32 3) (.ofUInt32 3) (.ofUInt32 9)) = true ∧
      ∀ s : Signature,
        s.calendarChain = some (cyclic.chain (.ofUInt32 3) (.ofUInt32 3) (.ofUInt32 6)) →
          s.checkExtension (cyclic.chain (.ofUInt32 3) (.ofUInt32 3) (.ofUInt32 9)) = .ok () :=
  cyclic.chain_passes (by decide) (by decide) (by decide)

end Calendar

end Keyless
