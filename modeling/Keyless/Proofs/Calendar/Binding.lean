/-
A calendar root commits to one input for each second.

Two chains that lead to one root at one publication time and register one second
are the same path through the calendar, or they exhibit a collision: a link at
which the two folds hash different octets, with one algorithm, to one digest.

The shape comes first.  The two times fix the directions of a chain
(`directions_eq_of_registrationTime`), so the two folds can be walked side by side,
link against link.  What a link hashes is two imprints and an octet, in an order
that its direction says, and imprints can be read off from the front, so equal
messages at two links of one direction have equal parts (`message_inj`).  This
needs no agreement on algorithms beforehand: an imprint brings its own, and the
algorithm of a step is that of the imprint it ends in.

The induction is on the links from the leaf up.  The induction hypothesis speaks
of what lies above the lowest link, so it is what comes from the root: it hands
down the equality of the two hashes above that link, and the step splits those.
-/
import Keyless.Calendar.Fold
import Keyless.Proofs.Calendar.Shape
import Keyless.Proofs.Imprint

namespace Keyless

/-! ### What a fold hashes -/

/-- What climbing links from a hash feeds to a hash algorithm at a position, and to which. -/
def hashedInCalendar? : Imprint → List CalendarLink → Nat → Option (HashAlgorithm × Bytes)
  | _, [], _ => none
  | running, link :: _, 0 => some (link.sibling.algorithm, link.message running)
  | running, link :: rest, position + 1 =>
    match link.above running with
    | .ok next => hashedInCalendar? next rest position
    | .error _ => none

/-- What the fold of the chain hashes at a link position. -/
def CalendarChain.hashedAt? (c : CalendarChain) (position : Nat) :
    Option (HashAlgorithm × Bytes) :=
  hashedInCalendar? c.inputHash c.links position

/-- Two folds that hash different messages to one digest at a position. -/
def CalendarChain.CollideAt (c c' : CalendarChain) (position : Nat) : Prop :=
  ∃ algorithm message message', c.hashedAt? position = some (algorithm, message) ∧
    c'.hashedAt? position = some (algorithm, message') ∧ algorithm.Collision message message'

theorem climbCalendar_cons {running root : Imprint} {link : CalendarLink}
    {rest : List CalendarLink} :
    climbCalendar running (link :: rest) = .ok root ↔
      ∃ next, link.above running = .ok next ∧ climbCalendar next rest = .ok root :=
  bind_eq_ok_iff

/-! ### One link -/

namespace CalendarLink

theorem algorithm_of_above {link : CalendarLink} {running next : Imprint}
    (h : link.above running = .ok next) : next.algorithm = link.sibling.algorithm :=
  HashAlgorithm.algorithm_of_hash h

/-- **Equal messages at two links of one direction have equal parts.** -/
theorem message_inj {link link' : CalendarLink} {running running' : Imprint}
    (direction : link.direction = link'.direction)
    (h : link.message running = link'.message running') : running = running' ∧ link = link' := by
  obtain ⟨side, sibling⟩ := link
  obtain ⟨side', sibling'⟩ := link'
  obtain rfl : side = side' := direction
  cases side with
  | left =>
      simp only [message, List.append_assoc] at h
      obtain ⟨hrunning, hrest⟩ := Imprint.octets_append_inj h
      obtain ⟨hsibling, -⟩ := Imprint.octets_append_inj hrest
      exact ⟨hrunning, by rw [hsibling]⟩
  | right =>
      simp only [message, List.append_assoc] at h
      obtain ⟨hsibling, hrest⟩ := Imprint.octets_append_inj h
      obtain ⟨hrunning, -⟩ := Imprint.octets_append_inj hrest
      exact ⟨hrunning, by rw [hsibling]⟩

/-- Two links that lead to one imprint are one link, entered with one imprint, or hash different
messages to that imprint. -/
theorem above_inj_or_collision {link link' : CalendarLink} {running running' next : Imprint}
    (direction : link.direction = link'.direction) (h : link.above running = .ok next)
    (h' : link'.above running' = .ok next) :
    (running = running' ∧ link = link') ∨
      (link.sibling.algorithm = link'.sibling.algorithm ∧
        link.sibling.algorithm.Collision (link.message running) (link'.message running')) := by
  have halg : link.sibling.algorithm = link'.sibling.algorithm :=
    (algorithm_of_above h).symm.trans (algorithm_of_above h')
  unfold above at h h'
  rw [← halg] at h'
  rcases HashAlgorithm.eq_or_collision h h' with hmessage | hcollision
  · exact Or.inl (message_inj direction hmessage)
  · exact Or.inr ⟨halg, hcollision⟩

end CalendarLink

/-! ### The whole fold -/

/-- Two climbs along one shape to one root are one climb, or collide at a position. -/
theorem climbCalendar_inj_or_collision {links : List CalendarLink} :
    ∀ {links' : List CalendarLink} {running running' root : Imprint},
      links.map CalendarLink.direction = links'.map CalendarLink.direction →
      climbCalendar running links = .ok root → climbCalendar running' links' = .ok root →
      (running = running' ∧ links = links') ∨
        ∃ position algorithm message message',
          hashedInCalendar? running links position = some (algorithm, message) ∧
          hashedInCalendar? running' links' position = some (algorithm, message') ∧
          algorithm.Collision message message' := by
  induction links with
  | nil =>
      intro links' running running' root shape h h'
      obtain rfl : links' = [] := by simpa using shape.symm
      have hrunning : running = running' :=
        (Except.ok.inj h).trans (Except.ok.inj h').symm
      exact Or.inl ⟨hrunning, rfl⟩
  | cons link rest ih =>
      intro links' running running' root shape h h'
      cases links' with
      | nil => simp at shape
      | cons link' rest' =>
          simp only [List.map_cons, List.cons.injEq] at shape
          obtain ⟨next, hnext, hrest⟩ := climbCalendar_cons.mp h
          obtain ⟨next', hnext', hrest'⟩ := climbCalendar_cons.mp h'
          rcases ih shape.2 hrest hrest' with ⟨hsame, hlinks⟩ | hcollision
          · -- Above the link the folds agree, so the link itself decides.
            rw [← hsame] at hnext'
            rcases CalendarLink.above_inj_or_collision shape.1 hnext hnext' with
              ⟨hrunning, hlink⟩ | ⟨halg, hcollision⟩
            · exact Or.inl ⟨hrunning, by rw [hlink, hlinks]⟩
            · refine Or.inr ⟨0, _, _, _, rfl, ?_, hcollision⟩
              rw [halg]
              rfl
          · -- A collision further up keeps its place, one link higher.
            obtain ⟨position, algorithm, message, message', hfed, hfed', hcoll⟩ := hcollision
            refine Or.inr ⟨position + 1, algorithm, message, message', ?_, ?_, hcoll⟩
            · simp only [hashedInCalendar?, hnext, hfed]
            · simp only [hashedInCalendar?, hnext', hfed']

/--
**A calendar root commits to one input for each second.**  Chains to one
publication time that register one second and have one root have the same input
and the same links, or their folds collide at a link.
-/
theorem CalendarChain.links_eq_or_collide {c c' : CalendarChain} {time : Time} {root : Imprint}
    (published : c.publicationTime = c'.publicationTime)
    (registered : c.registrationTime = .ok time) (registered' : c'.registrationTime = .ok time)
    (output : c.output = .ok root) (output' : c'.output = .ok root) :
    (c.inputHash = c'.inputHash ∧ c.links = c'.links) ∨ ∃ position, c.CollideAt c' position := by
  have shape : c.directions = c'.directions :=
    directions_eq_of_registrationTime published registered registered'
  exact climbCalendar_inj_or_collision shape output output'

/-- The path from second 3 to the calendar root of second 6, through three algorithms.  The time
that it states for itself is no part of its shape. -/
def pathFromThree (stated : Time) : CalendarChain where
  inputHash := Imprint.uniform .sha256 0x11
  aggregationTime := stated
  publicationTime := .ofUInt32 6
  links :=
    [{ direction := .right, sibling := Imprint.uniform .sha512 0x22 },
      { direction := .right, sibling := Imprint.uniform .sha256 0x33 },
      { direction := .left, sibling := Imprint.uniform .sha1 0x44 }]

/-- The root that the path leads to. -/
def rootOfSix : Imprint where
  algorithm := .sha1
  digest := [75, 33, 222, 87, 194, 228, 12, 146, 79, 133, 71, 133, 107, 218, 136, 120, 173, 202,
    238, 84]
  length_digest := rfl

theorem pathFromThree_output (stated : Time) : (pathFromThree stated).output = .ok rootOfSix := by
  have hash : (pathFromThree (.ofUInt32 3)).output.toOption = some rootOfSix := by
    decide +kernel
  exact toOption_eq_some_iff.mp hash

/-- Two chains that differ in a time that the root does not commit to share path and root. -/
theorem CalendarChain.links_eq_or_collide_pathFromThree :
    (pathFromThree (.ofUInt32 3)).registrationTime = .ok (.ofUInt32 3) ∧
      (pathFromThree (.ofUInt32 0)).registrationTime = .ok (.ofUInt32 3) ∧
      (((pathFromThree (.ofUInt32 3)).inputHash = (pathFromThree (.ofUInt32 0)).inputHash ∧
          (pathFromThree (.ofUInt32 3)).links = (pathFromThree (.ofUInt32 0)).links) ∨
        ∃ position,
          (pathFromThree (.ofUInt32 3)).CollideAt (pathFromThree (.ofUInt32 0)) position) :=
  ⟨rfl, rfl, CalendarChain.links_eq_or_collide rfl rfl rfl (pathFromThree_output _)
    (pathFromThree_output _)⟩

end Keyless
