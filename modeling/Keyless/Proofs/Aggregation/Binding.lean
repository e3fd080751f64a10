/-
An aggregation root commits to the whole stack below it.

Two signatures that are consistent in themselves, with chains of the same indexes
and algorithms, and with one root hash, have the same chains, link by link, or
their folds collide: at a link of a chain they hash different octets, with one
algorithm, to one digest.

A step hashes the running imprint, the sibling and the level, and which of the two
comes first depends on the direction, which is not hashed.  So the directions have
to come from elsewhere; the rule about indexes gives them
(`AggregationChain.directions_eq_of_index`).  The rest is read off the message from
its ends: the level is its last octet, the running imprint is at its front or, its
algorithm being known, at the back of what remains, and what is left is the
sibling, which tells itself because the rule about metadata keeps identities from
being taken for imprints (`Sibling.octets_inj`).

The induction comes down from the root, over the links of a chain and over the
chains.  Hashes come down with it.  Levels cannot: they are known to agree just
above a link, where they are hashed, but below the lowest link only because both
stacks begin at level zero.  Therefore the claims about links are conditional on
the levels below them (`Node.climb_inj_or_collision`), and the condition is
discharged one chain at a time, on the way up.
-/
import Mathlib.Data.List.Forall2
import Keyless.Proofs.Aggregation.Index
import Keyless.Proofs.Metadata
import Keyless.Proofs.Signature

namespace Keyless

/-! ### What a fold hashes -/

/-- What the step from a node hashes, if the tree is high enough for the step. -/
def Link.hashed? (link : Link) (node : Node) : Option Bytes :=
  match levelAbove? node.level link.levelCorrection with
  | some level => (link.message node.hash level).toOption
  | none => none

/-- What climbing links, the first of them at `position`, hashes some links further on. -/
def Node.hashedAlong? (algorithm : HashAlgorithm) : Nat → Node → List Link → Nat → Option Bytes
  | _, _, [], _ => none
  | _, node, link :: _, 0 => link.hashed? node
  | position, node, link :: rest, further + 1 =>
    match link.above algorithm position node with
    | .ok next => next.hashedAlong? algorithm (position + 1) rest further
    | .error _ => none

/-- What folding a stack of chains from a level hashes at a link of a chain, and with what. -/
def hashedInStack? :
    UInt64 → List AggregationChain → Nat → Nat → Option (HashAlgorithm × Bytes)
  | _, [], _, _ => none
  | level, chain :: _, 0, link =>
    (Node.hashedAlong? chain.algorithm 0 { hash := chain.inputHash, level } chain.links link).map
      (Prod.mk chain.algorithm)
  | level, chain :: rest, further + 1, link =>
    match chain.output level with
    | .ok node => hashedInStack? node.level rest further link
    | .error _ => none

/-- Two folds that hash different messages to one digest at a link of a chain. -/
def CollideInStack (level level' : UInt64) (chains chains' : List AggregationChain)
    (chain link : Nat) : Prop :=
  ∃ algorithm message message', hashedInStack? level chains chain link = some (algorithm, message) ∧
    hashedInStack? level' chains' chain link = some (algorithm, message') ∧
    algorithm.Collision message message'

/-! ### One link -/

namespace Link

theorem above_eq_ok_iff {algorithm : HashAlgorithm} {position : Nat} {node next : Node}
    {link : Link} :
    link.above algorithm position node = .ok next ↔
      ∃ message, levelAbove? node.level link.levelCorrection = some next.level ∧
        link.message node.hash next.level = .ok message ∧
        algorithm.hash message = .ok next.hash := by
  obtain ⟨hash, level⟩ := next
  unfold above
  cases levelAbove? node.level link.levelCorrection with
  | none => simp
  | some above =>
      simp only [bind_eq_ok_iff, pure, Except.pure, Except.ok.injEq, Node.mk.injEq,
        Option.some.injEq]
      refine ⟨?_, ?_⟩
      · rintro ⟨message, hmessage, hash, hhash, rfl, rfl⟩
        exact ⟨message, rfl, hmessage, hhash⟩
      · rintro ⟨message, rfl, hmessage, hhash⟩
        exact ⟨message, hmessage, hash, hhash, rfl, rfl⟩

theorem level_of_levelAbove? {level correction above : UInt64}
    (h : levelAbove? level correction = some above) : above.toNat ≠ 0 ∧ above.toNat ≤ 255 := by
  obtain ⟨hsum, hmax⟩ := levelAbove?_eq_some_iff.mp h
  exact ⟨by omega, hmax⟩

theorem correction_eq_of_levelAbove? {level above correction correction' : UInt64}
    (h : levelAbove? level correction = some above)
    (h' : levelAbove? level correction' = some above) : correction = correction' := by
  obtain ⟨hsum, -⟩ := levelAbove?_eq_some_iff.mp h
  obtain ⟨hsum', -⟩ := levelAbove?_eq_some_iff.mp h'
  exact UInt64.toNat_inj.mp (by omega)

/-- **Equal messages at two links of one direction have equal parts.** -/
theorem message_inj {link link' : Link} {running running' : Imprint} {level level' : UInt64}
    {message : Bytes} (direction : link.direction = link'.direction)
    (algorithm : running.algorithm = running'.algorithm)
    (trusted : link.sibling.IsTrustworthy) (trusted' : link'.sibling.IsTrustworthy)
    (height : level.toNat ≠ 0 ∧ level.toNat ≤ 255)
    (height' : level'.toNat ≠ 0 ∧ level'.toNat ≤ 255)
    (h : link.message running level = .ok message)
    (h' : link'.message running' level' = .ok message) :
    running = running' ∧ link.sibling = link'.sibling ∧ level = level' := by
  obtain ⟨octets, hoctets, hmessage⟩ := bind_pure_eq_ok_iff.mp h
  obtain ⟨octets', hoctets', hmessage'⟩ := bind_pure_eq_ok_iff.mp h'
  rw [← direction] at hmessage'
  have hsplit : ∀ {front front' : Bytes},
      front ++ Bytes.minimal level = front' ++ Bytes.minimal level' →
        front = front' ∧ level = level' :=
    Bytes.append_level_inj height.1 height.2 height'.1 height'.2
  cases hside : link.direction with
  | left =>
      simp only [hside] at hmessage hmessage'
      obtain ⟨hfront, hlevel⟩ := hsplit (hmessage.trans hmessage'.symm)
      obtain ⟨hrunning, hsibling⟩ := Imprint.octets_append_inj hfront
      rw [← hsibling] at hoctets'
      exact ⟨hrunning, Sibling.octets_inj trusted trusted' hoctets hoctets', hlevel⟩
  | right =>
      simp only [hside] at hmessage hmessage'
      obtain ⟨hfront, hlevel⟩ := hsplit (hmessage.trans hmessage'.symm)
      obtain ⟨hsibling, hrunning⟩ := Imprint.append_octets_inj algorithm hfront
      rw [← hsibling] at hoctets'
      exact ⟨hrunning, Sibling.octets_inj trusted trusted' hoctets hoctets', hlevel⟩

theorem hashed?_eq_some {link : Link} {node : Node} {level : UInt64} {message : Bytes}
    (hlevel : levelAbove? node.level link.levelCorrection = some level)
    (hmessage : link.message node.hash level = .ok message) : link.hashed? node = some message := by
  rw [hashed?, hlevel]
  exact toOption_eq_some_iff.mpr hmessage

/-- Two links of one direction that lead to one hash have the same parts, or hash different messages
to that hash. -/
theorem above_inj_or_collision {link link' : Link} {algorithm : HashAlgorithm} {position : Nat}
    {node node' next next' : Node} (direction : link.direction = link'.direction)
    (algorithms : node.hash.algorithm = node'.hash.algorithm)
    (trusted : link.sibling.IsTrustworthy) (trusted' : link'.sibling.IsTrustworthy)
    (h : link.above algorithm position node = .ok next)
    (h' : link'.above algorithm position node' = .ok next') (hash : next.hash = next'.hash) :
    (node.hash = node'.hash ∧ next.level = next'.level ∧
        (node.level = node'.level → link = link')) ∨
      ∃ message message', link.hashed? node = some message ∧
        link'.hashed? node' = some message' ∧ algorithm.Collision message message' := by
  obtain ⟨message, hlevel, hmessage, hhash⟩ := above_eq_ok_iff.mp h
  obtain ⟨message', hlevel', hmessage', hhash'⟩ := above_eq_ok_iff.mp h'
  rw [← hash] at hhash'
  rcases HashAlgorithm.eq_or_collision hhash hhash' with rfl | hcollision
  · obtain ⟨hrunning, hsibling, habove⟩ := message_inj direction algorithms trusted trusted'
      (level_of_levelAbove? hlevel) (level_of_levelAbove? hlevel') hmessage hmessage'
    refine Or.inl ⟨hrunning, habove, fun hbelow => ?_⟩
    rw [← hbelow, ← habove] at hlevel'
    have hcorrection := correction_eq_of_levelAbove? hlevel hlevel'
    cases link
    cases link'
    simp_all
  · exact Or.inr ⟨message, message', hashed?_eq_some hlevel hmessage,
      hashed?_eq_some hlevel' hmessage', hcollision⟩

end Link

/-! ### One chain -/

namespace Node

theorem climb_cons {algorithm : HashAlgorithm} {position : Nat} {node root : Node} {link : Link}
    {rest : List Link} :
    node.climb algorithm position (link :: rest) = .ok root ↔
      ∃ next, link.above algorithm position node = .ok next ∧
        next.climb algorithm (position + 1) rest = .ok root :=
  bind_eq_ok_iff

theorem algorithm_of_above {algorithm : HashAlgorithm} {position : Nat} {node next : Node}
    {link : Link} (h : link.above algorithm position node = .ok next) :
    next.hash.algorithm = algorithm := by
  obtain ⟨_, _, _, hhash⟩ := Link.above_eq_ok_iff.mp h
  exact HashAlgorithm.algorithm_of_hash hhash

theorem algorithm_of_climb {algorithm : HashAlgorithm} {links : List Link} :
    ∀ {position : Nat} {node root : Node}, links ≠ [] →
      node.climb algorithm position links = .ok root → root.hash.algorithm = algorithm := by
  induction links with
  | nil =>
      intro position node root hne
      exact absurd rfl hne
  | cons link rest ih =>
      intro position node root _ h
      obtain ⟨next, hnext, hrest⟩ := climb_cons.mp h
      by_cases hlast : rest = []
      · rw [hlast] at hrest
        rw [← Except.ok.inj hrest]
        exact algorithm_of_above hnext
      · exact ih hlast hrest

/-- **Two climbs along one shape to one hash start from one hash, and then along the same links if
they start from one level; or they collide at a link.** -/
theorem climb_inj_or_collision {algorithm : HashAlgorithm} {links : List Link} :
    ∀ {links' : List Link} {position : Nat} {node node' root root' : Node},
      links.map Link.direction = links'.map Link.direction →
      node.hash.algorithm = node'.hash.algorithm →
      (∀ link ∈ links, link.sibling.IsTrustworthy) →
      (∀ link ∈ links', link.sibling.IsTrustworthy) →
      node.climb algorithm position links = .ok root →
      node'.climb algorithm position links' = .ok root' → root.hash = root'.hash →
      (node.hash = node'.hash ∧ (links ≠ [] ∨ node.level = node'.level → root.level = root'.level) ∧
          (node.level = node'.level → links = links')) ∨
        ∃ further message message',
          node.hashedAlong? algorithm position links further = some message ∧
          node'.hashedAlong? algorithm position links' further = some message' ∧
          algorithm.Collision message message' := by
  induction links with
  | nil =>
      intro links' position node node' root root' shape _ _ _ h h' hash
      obtain rfl : links' = [] := by simpa using shape.symm
      obtain rfl := Except.ok.inj h
      obtain rfl := Except.ok.inj h'
      exact Or.inl ⟨hash, fun hlevel => hlevel.resolve_left (fun hne => hne rfl), fun _ => rfl⟩
  | cons link rest ih =>
      intro links' position node node' root root' shape algorithms trusted trusted' h h' hash
      cases links' with
      | nil => simp at shape
      | cons link' rest' =>
          simp only [List.map_cons, List.cons.injEq] at shape
          obtain ⟨next, hnext, hrest⟩ := climb_cons.mp h
          obtain ⟨next', hnext', hrest'⟩ := climb_cons.mp h'
          have halg : next.hash.algorithm = next'.hash.algorithm :=
            (algorithm_of_above hnext).trans (algorithm_of_above hnext').symm
          rcases ih shape.2 halg (fun l hl => trusted l (List.mem_cons_of_mem link hl))
              (fun l hl => trusted' l (List.mem_cons_of_mem link' hl)) hrest hrest' hash with
            ⟨habove, hroot, hlinks⟩ | hcollision
          · -- Above the link the climbs agree, so the link itself decides.
            rcases Link.above_inj_or_collision shape.1 algorithms (trusted link List.mem_cons_self)
                (trusted' link' List.mem_cons_self) hnext hnext' habove with
              ⟨hhash, hlevel, hlink⟩ | ⟨message, message', hfed, hfed', hcollision⟩
            · refine Or.inl ⟨hhash, fun _ => hroot (Or.inr hlevel), fun hbelow => ?_⟩
              rw [hlink hbelow, hlinks hlevel]
            · exact Or.inr ⟨0, message, message', hfed, hfed', hcollision⟩
          · -- A collision further up keeps its place, one link further on.
            obtain ⟨further, message, message', hfed, hfed', hcoll⟩ := hcollision
            refine Or.inr ⟨further + 1, message, message', ?_, ?_, hcoll⟩
            · simp only [hashedAlong?, hnext, hfed]
            · simp only [hashedAlong?, hnext', hfed']

theorem climbChains_cons {node root : Node} {chain : AggregationChain}
    {rest : List AggregationChain} :
    node.climbChains (chain :: rest) = .ok root ↔
      ∃ next, chain.output node.level = .ok next ∧ next.climbChains rest = .ok root :=
  bind_eq_ok_iff

end Node

/-! ### The whole stack -/

namespace AggregationChain

/-- Chains that hash in the same order and with the same algorithm. -/
def SameShape (c c' : AggregationChain) : Prop :=
  c.algorithm = c'.algorithm ∧ c.directions = c'.directions

/-- Chains that begin at one hash and have the same links. -/
def SamePath (c c' : AggregationChain) : Prop := c.inputHash = c'.inputHash ∧ c.links = c'.links

/-- None of the chain's identities can be taken for an imprint. -/
def IsTrustworthy (c : AggregationChain) : Prop := ∀ link ∈ c.links, link.sibling.IsTrustworthy

end AggregationChain

/-- Chains that join above a node: each begins at the hash that those below it lead to. -/
def Node.Joins : Node → List AggregationChain → Prop
  | _, [] => True
  | node, chain :: rest =>
    node.hash = chain.inputHash ∧ ∀ next, chain.output node.level = .ok next → next.Joins rest

/-- Each chain, folded from the level that those below it reached, leads to the input of the next
one.  The topmost chain is not folded. -/
def FoldsTogether : UInt64 → List AggregationChain → Prop
  | level, lower :: upper :: rest =>
    ∃ node, lower.output level = .ok node ∧ node.hash = upper.inputHash ∧
      FoldsTogether node.level (upper :: rest)
  | _, _ => True

theorem consistencyVerdict_isClear_iff {chains : List AggregationChain} :
    ∀ {level : UInt64},
      (∃ verdict, consistencyVerdict level chains = .ok verdict ∧ verdict.IsClear) ↔
        FoldsTogether level chains := by
  induction chains with
  | nil =>
      intro level
      simp [consistencyVerdict, FoldsTogether, Verdict.IsClear]
  | cons lower rest ih =>
      intro level
      cases rest with
      | nil => simp [consistencyVerdict, FoldsTogether, Verdict.IsClear]
      | cons upper others =>
          rw [consistencyVerdict, FoldsTogether]
          refine Verdict.exists_isClear_step_iff.trans ?_
          exact exists_congr fun node => and_congr_right fun _ => and_congr_right fun _ => ih

theorem consistencyVerdict_ne {verdict : Verdict} (ok : verdict ≠ .ok) (fail : verdict ≠ .fail)
    {chains : List AggregationChain} : ∀ level, consistencyVerdict level chains ≠ .ok verdict := by
  induction chains with
  | nil =>
      intro level
      simp [consistencyVerdict, ok.symm]
  | cons lower rest ih =>
      intro level
      cases rest with
      | nil => simp [consistencyVerdict, ok.symm]
      | cons upper others =>
          rw [consistencyVerdict]
          exact Verdict.step_ne fail fun node => ih node.level

theorem consistencyVerdict_eq_ok_iff {level : UInt64} {chains : List AggregationChain} :
    consistencyVerdict level chains = .ok .ok ↔ FoldsTogether level chains :=
  (Verdict.exists_isClear_iff (consistencyVerdict_ne (by decide) (by decide) level)).symm.trans
    consistencyVerdict_isClear_iff

/-- Chains that fold together join, whatever hash the lowest one begins at. -/
theorem joins_of_foldsTogether {rest : List AggregationChain} :
    ∀ {lowest : AggregationChain} {level : UInt64}, FoldsTogether level (lowest :: rest) →
      Node.Joins { hash := lowest.inputHash, level } (lowest :: rest) := by
  induction rest with
  | nil =>
      intro lowest level _
      exact ⟨rfl, fun _ _ => trivial⟩
  | cons upper others ih =>
      rintro lowest level ⟨node, hnode, hhash, hrest⟩
      refine ⟨rfl, fun next hnext => ?_⟩
      obtain rfl : node = next := Except.ok.inj (hnode.symm.trans hnext)
      have hjoins := ih hrest
      rw [← hhash] at hjoins
      exact hjoins

/-- **Two stacks of one shape that lead to one hash begin at one hash, and then follow the same
paths if they begin at one level; or they collide at a link of a chain.** -/
theorem Node.climbChains_inj_or_collision {chains : List AggregationChain} :
    ∀ {chains' : List AggregationChain} {node node' root root' : Node},
      List.Forall₂ AggregationChain.SameShape chains chains' →
      node.hash.algorithm = node'.hash.algorithm →
      (∀ c ∈ chains, c.links ≠ []) → (∀ c ∈ chains', c.links ≠ []) →
      (∀ c ∈ chains, c.IsTrustworthy) → (∀ c ∈ chains', c.IsTrustworthy) →
      node.Joins chains → node'.Joins chains' →
      node.climbChains chains = .ok root → node'.climbChains chains' = .ok root' →
      root.hash = root'.hash →
      (node.hash = node'.hash ∧
          (node.level = node'.level → List.Forall₂ AggregationChain.SamePath chains chains')) ∨
        ∃ chain link, CollideInStack node.level node'.level chains chains' chain link := by
  induction chains with
  | nil =>
      intro chains' node node' root root' shape _ _ _ _ _ _ _ h h' hash
      obtain rfl := List.forall₂_nil_left_iff.mp shape
      obtain rfl := Except.ok.inj h
      obtain rfl := Except.ok.inj h'
      exact Or.inl ⟨hash, fun _ => List.Forall₂.nil⟩
  | cons chain rest ih =>
      intro chains' node node' root root' shape algorithms linked linked' trusted trusted' joins
        joins' h h' hash
      obtain ⟨chain', rest', ⟨halg, hdirections⟩, hshape, rfl⟩ :=
        List.forall₂_cons_left_iff.mp shape
      simp only [List.forall_mem_cons] at linked linked' trusted trusted'
      obtain ⟨next, hnext, hrest⟩ := climbChains_cons.mp h
      obtain ⟨next', hnext', hrest'⟩ := climbChains_cons.mp h'
      obtain ⟨hinput, hjoins⟩ := joins
      obtain ⟨hinput', hjoins'⟩ := joins'
      have hnextAlg : next.hash.algorithm = next'.hash.algorithm := by
        rw [algorithm_of_climb linked.1 hnext, algorithm_of_climb linked'.1 hnext', halg]
      rcases ih hshape hnextAlg linked.2 linked'.2 trusted.2 trusted'.2 (hjoins next hnext)
          (hjoins' next' hnext') hrest hrest' hash with ⟨habove, hpaths⟩ | hcollision
      · -- Above the chain the stacks agree, so the chain itself decides.
        have hclimb : Node.climb chain.algorithm 0
            { hash := chain'.inputHash, level := node'.level } chain'.links = .ok next' := by
          rw [halg]
          exact hnext'
        rw [hinput, hinput'] at algorithms
        rcases climb_inj_or_collision hdirections algorithms trusted.1 trusted'.1 hnext hclimb
            habove with ⟨hsame, hlevel, hlinks⟩ | ⟨link, message, message', hfed, hfed', hcoll⟩
        · refine Or.inl ⟨by rw [hinput, hinput']; exact hsame, fun hbelow => ?_⟩
          exact List.Forall₂.cons ⟨hsame, hlinks hbelow⟩ (hpaths (hlevel (Or.inl linked.1)))
        · refine Or.inr ⟨0, link, chain.algorithm, message, message', ?_, ?_, hcoll⟩
          · simp only [hashedInStack?, hfed, Option.map_some]
          · simp only [hashedInStack?, ← halg, hfed', Option.map_some]
      · -- A collision further up keeps its place, one chain higher.
        obtain ⟨further, link, algorithm, message, message', hfed, hfed', hcoll⟩ := hcollision
        refine Or.inr ⟨further + 1, link, algorithm, message, message', ?_, ?_, hcoll⟩
        · simp only [hashedInStack?, hnext, hfed]
        · simp only [hashedInStack?, hnext', hfed']

/-! ### Consistent signatures -/

theorem Signature.metadataVerdict_isClear_iff {s : Signature} :
    s.metadataVerdict.IsClear ↔ ∀ c ∈ s.chains, c.IsTrustworthy := by
  have hall : s.metadataVerdict.IsClear ↔ s.identities.all Metadata.isTrustworthy = true := by
    unfold metadataVerdict
    by_cases hall : s.identities.all Metadata.isTrustworthy = true
    · rw [if_pos hall]
      by_cases hnone : s.identities.isEmpty = true <;> simp [hall, hnone, Verdict.IsClear]
    · simp [hall, Verdict.IsClear]
  rw [hall, List.all_eq_true]
  refine ⟨?_, ?_⟩
  · intro h c hc link hlink m hm
    refine h m (List.mem_flatMap.mpr ⟨c, hc, ?_⟩)
    exact List.mem_filterMap.mpr ⟨link, hlink, hm⟩
  · intro h m hm
    obtain ⟨c, hc, hlinks⟩ := List.mem_flatMap.mp hm
    obtain ⟨link, hlink, hidentity⟩ := List.mem_filterMap.mp hlinks
    exact h c hc link hlink m hidentity

namespace Context

theorem IsConsistent.isTrustworthy {ctx : Context} (h : ctx.IsConsistent) :
    ∀ c ∈ ctx.signature.chains, c.IsTrustworthy :=
  Signature.metadataVerdict_isClear_iff.mp
    ((Rule.holds_iff_of_settled rfl).mp (h .aggregationChainMetadata (by decide)))

theorem IsConsistent.isNumbered {ctx : Context} (h : ctx.IsConsistent) :
    ∀ c ∈ ctx.signature.chains, c.IsNumbered :=
  indexVerdict_isClear_iff.mp (h.verdict .aggregationChainIndex (by decide) rfl)

end Context

/-- The lowest chain's input, at the level of the leaves. -/
def Signature.leaf (s : Signature) : Node := { hash := s.lowestChain.inputHash, level := 0 }

theorem Context.IsConsistent.joins {ctx : Context} (h : ctx.IsConsistent) :
    ctx.signature.leaf.Joins ctx.signature.chains := by
  have hfolds := consistencyVerdict_isClear_iff.mp
    (h.verdict .aggregationChainConsistency (by decide) rfl)
  rw [ctx.signature.chains_eq_cons] at hfolds ⊢
  exact joins_of_foldsTogether hfolds

/-- Folding chains is climbing them from any leaf, as the lowest chain brings its own input. -/
theorem aggregateOutput_of_ne_nil {chains : List AggregationChain} (nonempty : chains ≠ [])
    (input : Imprint) : aggregateOutput chains = Node.climbChains ⟨input, 0⟩ chains := by
  obtain ⟨lowest, rest, rfl⟩ := List.exists_cons_of_ne_nil nonempty
  rfl

theorem Signature.aggregateOutput_eq_climbChains (s : Signature) :
    aggregateOutput s.chains = s.leaf.climbChains s.chains :=
  aggregateOutput_of_ne_nil s.chains_ne_nil s.lowestChain.inputHash

theorem Signature.climbChains_leaf (s : Signature) {root : Node}
    (h : aggregateOutput s.chains = .ok root) : s.leaf.climbChains s.chains = .ok root :=
  s.aggregateOutput_eq_climbChains.symm.trans h

/--
**An aggregation root commits to the whole stack below it.**  Two signatures that are
consistent in themselves, with chains of the same algorithms and indexes and with
one root hash, have chains with the same inputs and the same links, or their folds
collide at a link of a chain.
-/
theorem Signature.paths_eq_or_collide {ctx ctx' : Context} {before before' after after' : Run}
    {root root' : Node} (ok : Policy.internal.EndsOk ctx before after)
    (ok' : Policy.internal.EndsOk ctx' before' after')
    (indexed : List.Forall₂ (fun c c' => c.algorithm = c'.algorithm ∧ c.index = c'.index)
      ctx.signature.chains ctx'.signature.chains)
    (input : ctx.signature.lowestChain.inputHash.algorithm =
      ctx'.signature.lowestChain.inputHash.algorithm)
    (output : aggregateOutput ctx.signature.chains = .ok root)
    (output' : aggregateOutput ctx'.signature.chains = .ok root') (hash : root.hash = root'.hash) :
    List.Forall₂ AggregationChain.SamePath ctx.signature.chains ctx'.signature.chains ∨
      ∃ chain link, CollideInStack 0 0 ctx.signature.chains ctx'.signature.chains chain link := by
  obtain ⟨-, consistent, -⟩ := Policy.internalAnd_endsOk_iff.mp ok
  obtain ⟨-, consistent', -⟩ := Policy.internalAnd_endsOk_iff.mp ok'
  have shape : List.Forall₂ AggregationChain.SameShape ctx.signature.chains
      ctx'.signature.chains := by
    refine List.forall₂_iff_get.mpr ⟨indexed.length_eq, fun i hi hi' => ?_⟩
    obtain ⟨halg, hindex⟩ := indexed.get hi hi'
    exact ⟨halg, AggregationChain.directions_eq_of_index hindex
      (consistent.isNumbered _ (List.get_mem _ _))
      (consistent'.isNumbered _ (List.get_mem _ _))⟩
  have hclimbed := Node.climbChains_inj_or_collision shape input
    (fun _ hc => ctx.signature.links_ne_nil hc) (fun _ hc => ctx'.signature.links_ne_nil hc)
    consistent.isTrustworthy consistent'.isTrustworthy consistent.joins consistent'.joins
    (ctx.signature.climbChains_leaf output) (ctx'.signature.climbChains_leaf output') hash
  exact hclimbed.imp (fun h => h.2 rfl) id

/-- Two storeys above a leaf, an identity in the lower one.  The time that they state is hashed
nowhere. -/
def twoStoreys (stated : Time) : List AggregationChain :=
  [{ inputHash := Imprint.uniform .sha256 0x11
     aggregationTime := stated
     index := [2, 5]
     links :=
       [{ direction := .left
          sibling := .metadata { Metadata.ofClient "a" with padding := some 2 }
          levelCorrection := 1 },
         { direction := .right
           sibling := .imprint (Imprint.uniform .sha512 0x22)
           levelCorrection := 0 }]
     algorithm := .sha256 },
    { inputHash :=
        ⟨.sha256,
          [222, 170, 60, 233, 230, 16, 162, 243, 7, 201, 151, 74, 81, 122, 34, 251, 169, 148, 117,
            32, 7, 100, 135, 76, 226, 65, 98, 243, 178, 70, 109, 250], rfl⟩
      aggregationTime := stated
      index := [2]
      links :=
        [{ direction := .right
           sibling := .imprint (Imprint.uniform .sha1 0x33)
           levelCorrection := 0 }]
      algorithm := .sha256 }]

/-- The root above both storeys. -/
def rootOfTwoStoreys : Node where
  hash :=
    ⟨.sha256,
      [164, 124, 120, 174, 225, 154, 10, 17, 125, 176, 18, 64, 0, 172, 118, 115, 11, 93, 104, 162,
        160, 237, 108, 21, 246, 46, 96, 84, 163, 151, 34, 182], rfl⟩
  level := 4

theorem twoStoreys_output (stated : Time) :
    aggregateOutput (twoStoreys stated) = .ok rootOfTwoStoreys := by
  have output : (aggregateOutput (twoStoreys (.ofUInt32 0))).toOption =
      some rootOfTwoStoreys := by
    decide +kernel
  exact toOption_eq_some_iff.mp output

/-- A signature of two storeys and nothing else. -/
def twoStoreySignature (stated : Time) : Signature where
  parts :=
    { chains := twoStoreys stated, calendarChain := none, authenticationRecord := none
      publicationRecord := none, timestampRecord := none }
  check_parts := rfl

/-- A context with that signature. -/
def twoStoreyContext (stated : Time) : Context := Context.ofSignature (twoStoreySignature stated)

/-- Two signatures that state different times, with one root, have the same paths to it. -/
theorem Signature.paths_eq_or_collide_twoStoreys :
    List.Forall₂ AggregationChain.SamePath (twoStoreys (.ofUInt32 1000))
        (twoStoreys (.ofUInt32 2000)) ∨
      ∃ chain link, CollideInStack 0 0 (twoStoreys (.ofUInt32 1000)) (twoStoreys (.ofUInt32 2000))
        chain link := by
  have ok : Policy.internal.EndsOk (twoStoreyContext (.ofUInt32 1000)) (.start []) _ :=
    Policy.endsOk_of_state (by decide +kernel)
  have ok' : Policy.internal.EndsOk (twoStoreyContext (.ofUInt32 2000)) (.start []) _ :=
    Policy.endsOk_of_state (by decide +kernel)
  exact Signature.paths_eq_or_collide ok ok'
    (List.Forall₂.cons ⟨rfl, rfl⟩ (List.Forall₂.cons ⟨rfl, rfl⟩ List.Forall₂.nil)) rfl
    (twoStoreys_output _) (twoStoreys_output _) rfl

end Keyless
