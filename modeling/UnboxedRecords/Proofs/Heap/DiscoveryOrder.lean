import Mathlib.Data.List.ReduceOption
import UnboxedRecords.Proofs.Heap.Reachability
import UnboxedRecords.Proofs.Record.Partition

/-!
# The order of discovery

A trace marks an object when it discovers it and scans the object that it discovered last, so its
order is neither that of a depth-first nor that of a breadth-first walk.  What it is can be said
without the stack and the marks.  After the roots the objects take turns, and in its turn an object
adds the block of those of its targets that did not occur before.  The next turn is always that of
the object that occurs last among those that have had none (`Heap.Follows`), until all have had one.

The rule leaves no choice (`Heap.Unfolds.unique`).  A trace keeps `Tracing.Tracks` at every turn:
what it reached is what the turns so far have added, and what is pending are the objects that still
wait for a turn, the last one first.  So every trace takes such turns to their end
(`Heap.Sound.trace_unfolds`, `Heap.Reachable.discovery_order`).
-/

namespace UnboxedRecords

namespace Tracing

/-- What `objects` add to the known ones, each object where it occurs first. -/
def additions (known objects : List ObjectRef) : List ObjectRef :=
  (objects.filter (· ∉ known)).eraseDups

/-- A turn of a trace. -/
structure Turn where
  /-- The object whose turn it is. -/
  object : ObjectRef
  /-- The objects that are discovered in the turn, in their order. -/
  block : List ObjectRef

/-- All that is discovered: the roots, and then block after block. -/
def discovered (roots : List ObjectRef) (turns : List Turn) : List ObjectRef :=
  roots.eraseDups ++ turns.flatMap (·.block)

/-- The objects that have had a turn. -/
def served (turns : List Turn) : List ObjectRef := turns.map (·.object)

/-- The discovered objects that have had no turn, in the order of their discovery. -/
def waiting (roots : List ObjectRef) (turns : List Turn) : List ObjectRef :=
  (discovered roots turns).filter (· ∉ served turns)

variable {roots known objects : List ObjectRef} {object : ObjectRef} {turns : List Turn}
  {turn : Turn}

theorem mem_additions : object ∈ additions known objects ↔ object ∈ objects ∧ object ∉ known := by
  simp [additions]

theorem additions_cons_of_mem (h : object ∈ known) :
    additions known (object :: objects) = additions known objects := by
  simp [additions, h]

theorem additions_cons_of_not_mem (h : object ∉ known) :
    additions known (object :: objects) = object :: additions (known ++ [object]) objects := by
  have hfilter : (objects.filter (· ∉ known)).filter (fun other => !other == object) =
      objects.filter (· ∉ known ++ [object]) := by
    rw [List.filter_filter]
    refine List.filter_congr fun other _ => ?_
    simp [Bool.and_comm, Bool.beq_eq_decide_eq]
  rw [additions, List.filter_cons_of_pos (by simpa using h), List.eraseDups_cons, hfilter,
    additions]

theorem nodup_additions (known objects : List ObjectRef) : (additions known objects).Nodup := by
  induction objects generalizing known with
  | nil => simp [additions]
  | cons object objects ih =>
    by_cases h : object ∈ known
    · rw [additions_cons_of_mem h]
      exact ih known
    · rw [additions_cons_of_not_mem h, List.nodup_cons]
      exact ⟨by simp [mem_additions], ih _⟩

theorem additions_nil_left (objects : List ObjectRef) :
    additions [] objects = objects.eraseDups := by
  simp [additions]

@[simp] theorem discovered_nil (roots : List ObjectRef) :
    discovered roots [] = roots.eraseDups := by
  simp [discovered]

@[simp] theorem discovered_append (roots : List ObjectRef) (turns : List Turn) (turn : Turn) :
    discovered roots (turns ++ [turn]) = discovered roots turns ++ turn.block := by
  simp [discovered]

@[simp] theorem served_append (turns : List Turn) (turn : Turn) :
    served (turns ++ [turn]) = served turns ++ [turn.object] := by
  simp [served]

end Tracing

namespace Heap

open Tracing

/-- `targets` are the objects that the reference slots of `object` name, slot by slot in ascending
order of the offsets.  A slot that names no object adds nothing. -/
def SlotTargets (heap : Heap) (object : ObjectRef) (targets : List ObjectRef) : Prop :=
  ∃ entry held, heap.object object = .ok entry ∧
    (entry.layout.slots.filter (·.kind = .reference)).Pairwise (·.offset < ·.offset) ∧
    List.Forall₂ (fun slot target => heap.reference object slot.name = .ok target)
      (entry.layout.slots.filter (·.kind = .reference)) held ∧
    targets = held.reduceOption

/-- `turn` is the turn that comes after `turns`. -/
structure Follows (heap : Heap) (roots : List ObjectRef) (turns : List Turn) (turn : Turn) :
    Prop where
  /-- It is the turn of the object that was discovered last among those that have had none. -/
  latest : (waiting roots turns).getLast? = some turn.object
  /-- Its block are the targets of the object that occur nowhere before. -/
  adds : ∃ targets, heap.SlotTargets turn.object targets ∧
    turn.block = additions (discovered roots turns) targets

/-- Turns that follow one another, from the roots on. -/
inductive Unfolds (heap : Heap) (roots : List ObjectRef) : List Turn → Prop
  | start : Unfolds heap roots []
  | turn {turns : List Turn} {turn : Turn} (before : Unfolds heap roots turns)
      (follows : heap.Follows roots turns turn) : Unfolds heap roots (turns ++ [turn])

variable {heap : Heap} {entry : HeapObject} {object target : ObjectRef}
  {roots targets : List ObjectRef} {turns : List Turn} {turn : Turn}

/-! ## The targets of an object -/

/-- What the slots of an object name in a heap without faults. -/
theorem slotTargets_targets (hsound : heap.Sound) (hintact : heap.Intact)
    (hentry : heap.objects[object.index]? = some entry) :
    heap.SlotTargets object (heap.targets entry) := by
  have hplaced := (hsound.houses hentry).wellPlaced
  have hpairwise := hplaced.scanMap_pairwise
  rw [hplaced.scanMap_eq] at hpairwise
  refine ⟨entry, (entry.layout.slots.filter (·.kind = .reference)).map fun slot =>
    ObjectRef.ofRaw? (heap.word entry slot.offset), object_eq_ok_iff.2 hentry,
    List.pairwise_map.1 hpairwise, ?_, ?_⟩
  · rw [List.forall₂_map_right_iff, List.forall₂_same]
    intro slot hmem
    obtain ⟨hslot, hkind⟩ := List.mem_filter.1 hmem
    have hkind : slot.kind = .reference := of_decide_eq_true hkind
    have hoffset := hplaced.mem_scanMap.2 ⟨slot, hslot, hkind, rfl⟩
    obtain ⟨named, hnamed, hword⟩ := hintact hentry slot.offset hoffset
    rw [hsound.reference_eq hentry hslot hkind, hword, hnamed.decode_eq, ObjectRef.ofRaw?_rawOf]
  · rw [targets, hplaced.scanMap_eq, List.filterMap_map, List.reduceOption, List.filterMap_map]
    rfl

/-- There is one answer to what the slots of an object name. -/
theorem SlotTargets.unique {others : List ObjectRef} (h : heap.SlotTargets object targets)
    (h' : heap.SlotTargets object others) : targets = others := by
  obtain ⟨entry, held, hentry, -, hheld, rfl⟩ := h
  obtain ⟨entry', held', hentry', -, hheld', rfl⟩ := h'
  rw [hentry] at hentry'
  cases hentry'
  have hsame : Relator.RightUnique fun (slot : Slot) target =>
      heap.reference object slot.name = .ok target := by
    intro slot a b ha hb
    rw [ha] at hb
    cases hb
    rfl
  rw [List.right_unique_forall₂' hsame hheld hheld']

theorem SlotTargets.pointsTo (h : heap.SlotTargets object targets) (htarget : target ∈ targets) :
    heap.PointsTo object target := by
  obtain ⟨entry, held, -, -, hheld, rfl⟩ := h
  obtain ⟨i, hi, hget⟩ := List.mem_iff_getElem.1 (List.reduceOption_mem_iff.1 htarget)
  have hslot := List.Forall₂.get hheld (hheld.length_eq ▸ hi) hi
  rw [List.get_eq_getElem, List.get_eq_getElem, hget] at hslot
  exact ⟨_, hslot⟩

/-! ## Turns that follow one another -/

theorem Follows.mem_waiting (h : heap.Follows roots turns turn) :
    turn.object ∈ discovered roots turns ∧ turn.object ∉ served turns := by
  have hmem := List.mem_filter.1 (List.mem_of_getLast? h.latest)
  exact ⟨hmem.1, of_decide_eq_true hmem.2⟩

theorem Follows.mem_block (h : heap.Follows roots turns turn) (htarget : target ∈ turn.block) :
    heap.PointsTo turn.object target ∧ target ∉ discovered roots turns := by
  obtain ⟨targets, htargets, hblock⟩ := h.adds
  rw [hblock, mem_additions] at htarget
  exact ⟨htargets.pointsTo htarget.1, htarget.2⟩

/-- There is one turn that follows. -/
theorem Follows.unique {other : Turn} (h : heap.Follows roots turns turn)
    (h' : heap.Follows roots turns other) : turn = other := by
  obtain ⟨targets, htargets, hblock⟩ := h.adds
  obtain ⟨targets', htargets', hblock'⟩ := h'.adds
  have hobject : turn.object = other.object := Option.some.inj (h.latest.symm.trans h'.latest)
  rw [hobject] at htargets
  rw [htargets.unique htargets', ← hblock'] at hblock
  rcases turn with ⟨object, block⟩
  rcases other with ⟨object', block'⟩
  rw [Turn.mk.injEq]
  exact ⟨hobject, hblock⟩

namespace Unfolds

/-- No object has two turns, and all that have one were discovered. -/
theorem served (h : heap.Unfolds roots turns) :
    (served turns).Nodup ∧ ∀ object ∈ served turns, object ∈ discovered roots turns := by
  induction h with
  | start => simp [Tracing.served]
  | turn before follows ih =>
    obtain ⟨hdiscovered, hnew⟩ := follows.mem_waiting
    rw [served_append, discovered_append]
    refine ⟨List.nodup_append.2 ⟨ih.1, List.nodup_singleton _, ?_⟩, ?_⟩
    · intro other hother served hserved heq
      rw [heq, List.mem_singleton.1 hserved] at hother
      exact hnew hother
    · intro other hother
      rcases List.mem_append.1 hother with hother | hother
      · exact List.mem_append_left _ (ih.2 other hother)
      · rw [List.mem_singleton.1 hother]
        exact List.mem_append_left _ hdiscovered

/-- No object is discovered twice. -/
theorem nodup_discovered (h : heap.Unfolds roots turns) : (discovered roots turns).Nodup := by
  induction h with
  | start =>
    rw [discovered_nil, ← additions_nil_left]
    exact nodup_additions [] roots
  | turn before follows ih =>
    obtain ⟨targets, -, hblock⟩ := follows.adds
    rw [discovered_append]
    refine List.nodup_append.2 ⟨ih, hblock ▸ nodup_additions _ _, ?_⟩
    rintro object hobject _ hother rfl
    exact (follows.mem_block hother).2 hobject

/-- When nobody waits any more, all that are discovered have had their turn. -/
theorem perm_served (h : heap.Unfolds roots turns) (hdone : waiting roots turns = []) :
    (Tracing.served turns).Perm (discovered roots turns) := by
  refine (List.perm_ext_iff_of_nodup h.served.1 h.nodup_discovered).2 fun object =>
    ⟨h.served.2 object, fun hobject => ?_⟩
  simpa using List.filter_eq_nil_iff.1 hdone object hobject

/-- Each of the turns followed those before it. -/
theorem follows {all rest : List Turn} (h : heap.Unfolds roots all)
    (hsplit : all = turns ++ turn :: rest) : heap.Follows roots turns turn := by
  induction h generalizing rest with
  | start => simp at hsplit
  | @turn before last _ follows ih =>
    rcases List.eq_nil_or_concat rest with rfl | ⟨rest, final, rfl⟩
    · obtain ⟨rfl, hlast⟩ := List.append_inj' hsplit rfl
      cases hlast
      exact follows
    · rw [List.concat_eq_append, ← List.cons_append, ← List.append_assoc] at hsplit
      exact ih (List.append_inj' hsplit rfl).1

/-- Of two runs of turns, one goes on from the other. -/
theorem comparable {others : List Turn} (h : heap.Unfolds roots turns)
    (h' : heap.Unfolds roots others) : turns <+: others ∨ others <+: turns := by
  induction h with
  | start => exact Or.inl (List.nil_prefix)
  | @turn turns turn before follows ih =>
    rcases ih with ⟨rest, hrest⟩ | hle
    · rcases rest with _ | ⟨other, rest⟩
      · rw [List.append_nil] at hrest
        exact Or.inr (hrest ▸ List.prefix_append turns [turn])
      · obtain rfl := follows.unique (h'.follows hrest.symm)
        exact Or.inl ⟨rest, by rw [← hrest, List.append_assoc, List.singleton_append]⟩
    · exact Or.inr (hle.trans (List.prefix_append turns [turn]))

/-- Nothing follows when nobody waits any more. -/
theorem eq_of_le {others : List Turn} (h : heap.Unfolds roots others) (hle : turns <+: others)
    (hdone : waiting roots turns = []) : turns = others := by
  obtain ⟨rest, rfl⟩ := hle
  rcases rest with _ | ⟨turn, rest⟩
  · exact (List.append_nil turns).symm
  · have hlatest := (h.follows rfl).latest
    rw [hdone] at hlatest
    cases hlatest

/-- The turns to the end are determined by the heap and the roots. -/
theorem unique {others : List Turn} (h : heap.Unfolds roots turns)
    (hdone : waiting roots turns = []) (h' : heap.Unfolds roots others)
    (hdone' : waiting roots others = []) : turns = others := by
  rcases h.comparable h' with hle | hle
  · exact h'.eq_of_le hle hdone
  · exact (h.eq_of_le hle hdone').symm

/-- What is discovered is a root, or an object before it points to it. -/
theorem exists_source (h : heap.Unfolds roots turns) {earlier later : List ObjectRef}
    (hsplit : discovered roots turns = earlier ++ object :: later) (hroot : object ∉ roots) :
    ∃ source ∈ earlier, heap.PointsTo source object := by
  induction h generalizing later with
  | start =>
    refine absurd (List.mem_eraseDups.1 ?_) hroot
    rw [← discovered_nil, hsplit]
    simp
  | @turn turns turn before follows ih =>
    rw [discovered_append] at hsplit
    -- the object stands before the last block or in it
    rcases List.append_eq_append_iff.1 hsplit with ⟨front, hearlier, hblock⟩ | ⟨rest, hold, hlater⟩
    · have hmem : object ∈ turn.block := by simp [hblock]
      refine ⟨turn.object, ?_, (follows.mem_block hmem).1⟩
      rw [hearlier]
      exact List.mem_append_left _ follows.mem_waiting.1
    · rcases rest with _ | ⟨first, rest⟩
      · rw [List.nil_append] at hlater
        have hmem : object ∈ turn.block := hlater ▸ List.mem_cons_self
        refine ⟨turn.object, ?_, (follows.mem_block hmem).1⟩
        rw [List.append_nil] at hold
        exact hold ▸ follows.mem_waiting.1
      · cases hlater
        exact ih hold

end Unfolds

end Heap

namespace Tracing

variable {heap : Heap} {tracing : Tracing} {roots objects : List ObjectRef} {object : ObjectRef}
  {turns : List Turn} {turn : Turn}

/-! ## The turns of a trace -/

/-- Taking note of several objects puts what they add behind the reached ones, and the same, last
one first, before the pending ones. -/
theorem discoverAll_additions (h : tracing.Marks heap)
    (hobjects : ∀ object ∈ objects, heap.Allocated object) :
    (tracing.discoverAll objects).reached.toList =
        tracing.reached.toList ++ additions tracing.reached.toList objects ∧
      (tracing.discoverAll objects).pending =
        (additions tracing.reached.toList objects).reverse ++ tracing.pending := by
  induction objects generalizing tracing with
  | nil => simp [discoverAll, additions]
  | cons object objects ih =>
    have hobject := hobjects object List.mem_cons_self
    obtain ⟨hreached, hpending⟩ := ih (h.discover hobject)
      fun other hother => hobjects other (List.mem_cons_of_mem object hother)
    have hcons : tracing.discoverAll (object :: objects) =
        (tracing.discover object).discoverAll objects := rfl
    by_cases hmem : object ∈ tracing.reached
    · rw [discover_of_mem h hobject hmem] at hcons hreached hpending
      rw [hcons, hreached, hpending, additions_cons_of_mem (Array.mem_toList_iff.2 hmem)]
      exact ⟨rfl, rfl⟩
    · rw [discover_of_not_mem h hobject hmem] at hcons hreached hpending
      simp only [Array.toList_push] at hreached hpending
      rw [hcons, hreached, hpending,
        additions_cons_of_not_mem (fun hin => hmem (Array.mem_toList_iff.1 hin))]
      simp

/-- A trace from `roots` that has come through `turns`. -/
structure Tracks (heap : Heap) (roots : List ObjectRef) (turns : List Turn) (tracing : Tracing) :
    Prop where
  explores : tracing.Explores heap roots
  unfolds : heap.Unfolds roots turns
  reached_eq : tracing.reached.toList = discovered roots turns
  pending_eq : tracing.pending = (waiting roots turns).reverse

theorem tracks_roots (hroots : ∀ root ∈ roots, heap.Allocated root) :
    ((start heap.objects.size).discoverAll roots).Tracks heap roots [] := by
  obtain ⟨hreached, hpending⟩ := discoverAll_additions (marks_start heap) hroots
  have hnone : (start heap.objects.size).reached.toList = [] := rfl
  rw [hnone, additions_nil_left] at hreached hpending
  refine ⟨explores_roots hroots, .start, ?_, ?_⟩
  · rw [hreached, discovered_nil, List.nil_append]
  · rw [hpending]
    simp [waiting, served, start]

/-- After a turn, those who waited before still wait, and behind them the new ones. -/
theorem waiting_append (h : heap.Unfolds roots turns) {rest block : List ObjectRef}
    (hwaiting : waiting roots turns = rest ++ [object])
    (hblock : ∀ other ∈ block, other ∉ discovered roots turns) :
    waiting roots (turns ++ [⟨object, block⟩]) = rest ++ block := by
  have hmem : object ∈ waiting roots turns := by simp [hwaiting]
  have hobject : object ∉ rest := by
    have hnodup := h.nodup_discovered.filter (· ∉ served turns)
    rw [show (discovered roots turns).filter (· ∉ served turns) = rest ++ [object] from hwaiting]
      at hnodup
    intro hrest
    exact (List.nodup_append.1 hnodup).2.2 object hrest object (List.mem_singleton_self _) rfl
  have hold : (discovered roots turns).filter (· ∉ served turns ++ [object]) = rest := by
    have hsplit : (discovered roots turns).filter (· ∉ served turns ++ [object]) =
        (waiting roots turns).filter (· ≠ object) := by
      rw [waiting, List.filter_filter]
      refine List.filter_congr fun other _ => ?_
      simp [Bool.and_comm]
    rw [hsplit, hwaiting, List.filter_append, List.filter_eq_self.2, List.filter_eq_nil_iff.2,
      List.append_nil]
    · simp
    · intro other hother
      simpa using fun heq : other = object => hobject (heq ▸ hother)
  have hnew : block.filter (· ∉ served turns ++ [object]) = block := by
    refine List.filter_eq_self.2 fun other hother => decide_eq_true fun hin => ?_
    refine hblock other hother ?_
    rcases List.mem_append.1 hin with hin | hin
    · exact h.served.2 other hin
    · rw [List.mem_singleton.1 hin]
      exact (List.mem_filter.1 hmem).1
  rw [waiting, discovered_append, served_append, List.filter_append, hold, hnew]

/-- A turn of a trace is the turn that follows. -/
theorem Tracks.expand (h : tracing.Tracks heap roots turns) (hsound : heap.Sound)
    (hintact : heap.Intact) {rest : List ObjectRef} (hpending : tracing.pending = object :: rest) :
    ∃ next turn, expand heap { tracing with pending := rest } object = .ok next ∧
      next.Tracks heap roots (turns ++ [turn]) := by
  obtain ⟨next, hexpand, hexplores⟩ := h.explores.expand hsound hintact hpending
  have hwaiting : waiting roots turns = rest.reverse ++ [object] := by
    rw [← List.reverse_reverse (waiting roots turns), ← h.pending_eq, hpending, List.reverse_cons]
  have hmem : object ∈ tracing.reached :=
    h.explores.pending_reached object (by rw [hpending]; exact List.mem_cons_self)
  obtain ⟨entry, hentry⟩ := (h.explores.allocated object hmem).exists_entry
  -- the block of the turn
  let block := additions (discovered roots turns) (heap.targets entry)
  have hblock : ∀ other ∈ block, other ∉ discovered roots turns :=
    fun other hother => (mem_additions.1 hother).2
  obtain ⟨hreached', hpending'⟩ := discoverAll_additions (h.explores.marks.setPending rest)
    fun target => Heap.allocated_of_mem_targets hintact hentry
  rw [expand_eq hsound hintact hentry] at hexpand
  cases hexpand
  refine ⟨_, ⟨object, block⟩, expand_eq hsound hintact hentry, hexplores, ?_, ?_, ?_⟩
  · exact .turn h.unfolds ⟨by rw [hwaiting, List.getLast?_concat],
      heap.targets entry, Heap.slotTargets_targets hsound hintact hentry, rfl⟩
  · rw [hreached', discovered_append, h.reached_eq]
  · rw [hpending', waiting_append h.unfolds hwaiting hblock, h.reached_eq,
      List.reverse_append, List.reverse_reverse]

/-- A trace goes on until nobody waits for a turn. -/
theorem Tracks.run (h : tracing.Tracks heap roots turns) (hsound : heap.Sound)
    (hintact : heap.Intact) :
    ∃ last turns, tracing.run heap = .ok last.reached ∧ Tracks heap roots turns last ∧
      last.pending = [] := by
  obtain ⟨last, hrun, ⟨turns, hlast⟩, hdone⟩ :=
    run_induction (motive := fun tracing => ∃ turns, tracing.Tracks heap roots turns)
      (fun {_ _ _} ⟨_, htracks⟩ hpending =>
        let ⟨next, _, hexpand, hnext⟩ := htracks.expand hsound hintact hpending
        ⟨next, hexpand, _, hnext⟩) ⟨turns, h⟩
  exact ⟨last, turns, hrun, hlast, hdone⟩

end Tracing

namespace Heap

open Tracing

variable {heap : Heap} {roots : List ObjectRef}

/-- A trace from allocated roots takes turns until nobody waits for one. -/
theorem Sound.trace_unfolds (h : heap.Sound) (hintact : heap.Intact)
    (hroots : ∀ root ∈ roots, heap.Allocated root) :
    ∃ turns, heap.trace roots = .ok (discovered roots turns) ∧ heap.Unfolds roots turns ∧
      waiting roots turns = [] := by
  obtain ⟨last, turns, hrun, hlast, hdone⟩ := (tracks_roots hroots).run h hintact
  refine ⟨turns, ?_, hlast.unfolds, ?_⟩
  · rw [trace, discoverRoots_of_allocated hroots]
    dsimp only
    rw [hrun, ← hlast.reached_eq]
    rfl
  · rw [← List.reverse_eq_nil_iff, ← hlast.pending_eq, hdone]

/-- From allocated roots a trace finds the roots in their order, each of them once, and then block
after block.  Every object that it finds has one turn, and the block of its turn are the objects
that its slots name, by ascending offset and each of them once, as far as they do not occur before.
The next turn is always that of the object found last among those that have had none.  So whatever
is not a root is pointed to by something before it. -/
theorem Reachable.discovery_order {config : HeapConfig} {platform : Platform}
    (h : heap.Reachable config platform) (hroots : ∀ root ∈ roots, heap.Allocated root) :
    ∃ turns, heap.trace roots = .ok (discovered roots turns) ∧ heap.Unfolds roots turns ∧
      (served turns).Nodup ∧ (served turns).Perm (discovered roots turns) ∧
      ∀ earlier object later, discovered roots turns = earlier ++ object :: later →
        object ∉ roots → ∃ source ∈ earlier, heap.PointsTo source object := by
  obtain ⟨turns, htrace, hunfolds, hdone⟩ := h.sound.1.trace_unfolds h.intact hroots
  exact ⟨turns, htrace, hunfolds, hunfolds.served.1, hunfolds.perm_served hdone,
    fun _ _ _ hsplit hroot => hunfolds.exists_source hsplit hroot⟩

end Heap

/-! ## A graph of forks -/

/-- Two references. -/
def RecordLayout.fork : RecordLayout where
  name := "fork"
  platform := .bits16
  slots := [⟨"left", .reference, 0, 2⟩, ⟨"right", .reference, 2, 2⟩]
  size := 4
  alignment := 2
  scanMap := [0, 2]
  rawSpans := []

theorem RecordLayout.built_fork : fork.Built :=
  ⟨"fork", .bits16, [.addReference "left", .addReference "right"], rfl⟩

/-- The forks 0 to 4 hang together, with a cycle, a shared fork and a slot named twice.  The fork 5
points to two of them, and none points to it. -/
def HeapCall.forks : List HeapCall :=
  List.replicate 6 (.alloc .fork RecordLayout.built_fork) ++
    [.setReference ⟨0⟩ "left" (some ⟨1⟩), .setReference ⟨0⟩ "right" (some ⟨2⟩),
      .setReference ⟨1⟩ "left" (some ⟨4⟩),
      .setReference ⟨2⟩ "left" (some ⟨3⟩), .setReference ⟨2⟩ "right" (some ⟨0⟩),
      .setReference ⟨3⟩ "left" (some ⟨1⟩), .setReference ⟨3⟩ "right" (some ⟨1⟩),
      .setReference ⟨4⟩ "left" (some ⟨4⟩),
      .setReference ⟨5⟩ "left" (some ⟨2⟩), .setReference ⟨5⟩ "right" (some ⟨0⟩)]

namespace Heap

open Tracing

/-- The heap of the forks. -/
def forks : Heap := small.after HeapCall.forks

theorem reachable_forks : forks.Reachable ⟨1024, 2⟩ .bits16 :=
  (Reachable.create create_small).after _

set_option maxRecDepth 10000 in
theorem allocated_forks : ∀ root ∈ [⟨0⟩, ⟨0⟩], forks.Allocated root := by decide +kernel

set_option maxRecDepth 10000 in
/-- Depth first the fork 4 would come before the fork 2, and breadth first before the fork 3. -/
theorem trace_forks :
    forks.trace [⟨0⟩, ⟨0⟩] = .ok [⟨0⟩, ⟨1⟩, ⟨2⟩, ⟨3⟩, ⟨4⟩] := by decide +kernel

theorem discovery_order_forks :
    forks.Reachable ⟨1024, 2⟩ .bits16 ∧ (∀ root ∈ [⟨0⟩, ⟨0⟩], forks.Allocated root) ∧
      ∃ turns, discovered [⟨0⟩, ⟨0⟩] turns = [⟨0⟩, ⟨1⟩, ⟨2⟩, ⟨3⟩, ⟨4⟩] ∧
        forks.Unfolds [⟨0⟩, ⟨0⟩] turns ∧ (served turns).Nodup ∧
        (served turns).Perm (discovered [⟨0⟩, ⟨0⟩] turns) := by
  obtain ⟨turns, htrace, hunfolds, hnodup, hperm, -⟩ :=
    reachable_forks.discovery_order allocated_forks
  rw [trace_forks] at htrace
  exact ⟨reachable_forks, allocated_forks, turns, (Except.ok.inj htrace).symm, hunfolds, hnodup,
    hperm⟩

end Heap

end UnboxedRecords
