import UnboxedRecords.Proofs.Heap.DiscoveryOrder
import UnboxedRecords.Proofs.Heap.RoundTrip

/-!
# What a trace depends on

A trace reads the reference slots of the objects that it finds, and nothing else.  A later heap has
other memory and more objects, and a trace of it keeps more marks, so the two traces do not run side
by side.  But the turns of the one are also turns of the other as long as the found objects name
what they named (`Heap.Unfolds.congr`), and turns that come to an end are what a trace takes
(`Heap.Sound.trace_eq_of_unfolds`).

So no call changes what is found but one that sets a reference of a found object
(`Heap.Effect.trace_eq`), and the same holds for every run of such calls
(`Heap.Reachable.trace_local`).
-/

namespace UnboxedRecords

/-- The call sets no reference of an object in `found`. -/
def HeapCall.Spares (call : HeapCall) (found : List ObjectRef) : Prop :=
  ∀ object slot target, call = .setReference object slot target → object ∉ found

namespace Heap

open Tracing

variable {heap next : Heap} {entry : HeapObject} {object : ObjectRef} {call : HeapCall}
  {result : Except HeapError (Option ObjectRef)} {roots found targets : List ObjectRef}
  {turns : List Turn} {turn : Turn}

/-! ## Turns in two heaps -/

theorem Follows.congr (h : heap.Follows roots turns turn)
    (hsame : ∀ targets, heap.SlotTargets turn.object targets →
      next.SlotTargets turn.object targets) : next.Follows roots turns turn := by
  obtain ⟨targets, htargets, hblock⟩ := h.adds
  exact ⟨h.latest, targets, hsame targets htargets, hblock⟩

/-- Turns are turns of every heap in which the discovered objects name the same. -/
theorem Unfolds.congr (h : heap.Unfolds roots turns)
    (hsame : ∀ object ∈ discovered roots turns, ∀ targets, heap.SlotTargets object targets →
      next.SlotTargets object targets) : next.Unfolds roots turns := by
  induction h with
  | start => exact .start
  | turn before follows ih =>
    rw [discovered_append] at hsame
    have hbefore := fun object hobject => hsame object (List.mem_append_left _ hobject)
    exact .turn (ih hbefore) (follows.congr (hbefore _ follows.mem_waiting.1))

/-- Turns that come to an end are those that a trace takes. -/
theorem Sound.trace_eq_of_unfolds (h : heap.Sound) (hintact : heap.Intact)
    (hroots : ∀ root ∈ roots, heap.Allocated root) (hunfolds : heap.Unfolds roots turns)
    (hdone : waiting roots turns = []) : heap.trace roots = .ok (discovered roots turns) := by
  obtain ⟨others, htrace, hothers, hdone'⟩ := h.trace_unfolds hintact hroots
  rw [htrace, hunfolds.unique hdone hothers hdone']

/-! ## The effect of a call -/

/-- Every object stays what it is. -/
theorem Effect.keeps_entry (heffect : heap.Effect call result next) {i : Nat}
    (hentry : heap.objects[i]? = some entry) : next.objects[i]? = some entry := by
  cases heffect with
  | allocated _ =>
    obtain ⟨hlt, -⟩ := Array.getElem?_eq_some_iff.1 hentry
    rw [heap.getElem?_objects_add_of_lt _ hlt, hentry]
  | refused _ | written _ _ _ _ _ | filled _ _ _ _ | referred _ _ _ _ _ => exact hentry

theorem Effect.keeps_allocated (heffect : heap.Effect call result next)
    (hobject : heap.Allocated object) : next.Allocated object :=
  Nat.lt_of_lt_of_le hobject heffect.size_le

/-- Unless a call sets one of its references, an object has the same targets afterwards. -/
theorem Effect.targets_eq (heffect : heap.Effect call result next) (hsound : heap.Sound)
    (hintact : heap.Intact) (hentry : heap.objects[object.index]? = some entry)
    (hspares : call.Spares [object]) : next.targets entry = heap.targets entry := by
  refine List.filterMap_congr fun offset hoffset => ?_
  obtain ⟨slot, hslot, hkind, rfl⟩ := (hsound.houses hentry).wellPlaced.mem_scanMap.1 hoffset
  obtain ⟨target, htarget, hword⟩ := hintact hentry slot.offset hoffset
  have hnames : heap.Names object entry slot target := ⟨hentry, hslot, hkind, hword, htarget⟩
  have hnext := heffect.names hsound hnames fun other hcall =>
    hspares object slot.name other hcall (List.mem_singleton_self object)
  rw [hword, hnext.word_eq]

theorem Effect.slotTargets (heffect : heap.Effect call result next) (hsound : heap.Sound)
    (hintact : heap.Intact) (hspares : call.Spares [object])
    (h : heap.SlotTargets object targets) : next.SlotTargets object targets := by
  have ⟨entry, _, hobject, _⟩ := h
  have hentry := object_eq_ok_iff.1 hobject
  rw [h.unique (slotTargets_targets hsound hintact hentry),
    ← heffect.targets_eq hsound hintact hentry hspares]
  exact slotTargets_targets (heffect.sound hsound).1 (heffect.intact hsound hintact)
    (heffect.keeps_entry hentry)

/-- A call that sets no reference of a found object changes nothing of what is found. -/
theorem Effect.trace_eq (heffect : heap.Effect call result next) (hsound : heap.Sound)
    (hintact : heap.Intact) (hroots : ∀ root ∈ roots, heap.Allocated root)
    (htrace : heap.trace roots = .ok found) (hspares : call.Spares found) :
    next.trace roots = .ok found := by
  obtain ⟨turns, hturns, hunfolds, hdone⟩ := hsound.trace_unfolds hintact hroots
  rw [htrace] at hturns
  cases hturns
  refine (heffect.sound hsound).1.trace_eq_of_unfolds (heffect.intact hsound hintact)
    (fun root hroot => heffect.keeps_allocated (hroots root hroot)) (hunfolds.congr ?_) hdone
  intro object hobject targets
  refine heffect.slotTargets hsound hintact fun other slot target hcall hother => ?_
  obtain rfl := List.mem_singleton.1 hother
  exact hspares other slot target hcall hobject

/-- What one call keeps, a run keeps. -/
theorem trace_after (hsound : heap.Sound) (hintact : heap.Intact)
    (hroots : ∀ root ∈ roots, heap.Allocated root) (htrace : heap.trace roots = .ok found)
    {calls : List HeapCall} (hspares : ∀ call ∈ calls, call.Spares found) :
    (heap.after calls).trace roots = .ok found := by
  induction calls generalizing heap with
  | nil => exact htrace
  | cons call calls ih =>
    rw [List.forall_mem_cons] at hspares
    have heffect := hsound.effect call
    exact ih (hsound.perform call) (heffect.intact hsound hintact)
      (fun root hroot => heffect.keeps_allocated (hroots root hroot))
      (heffect.trace_eq hsound hintact hroots htrace hspares.1) hspares.2

/-- What is found from allocated roots is found in the same order after any allocation, refused or
not, and after a reference of any object that is not found was set.  The same holds after every run
of calls that sets no reference of a found object: the others may point where they like. -/
theorem Reachable.trace_local {config : HeapConfig} {platform : Platform}
    (h : heap.Reachable config platform) (hroots : ∀ root ∈ roots, heap.Allocated root) :
    ∃ found, heap.trace roots = .ok found ∧
      (∀ layout : RecordLayout, layout.Built →
        (heap.alloc layout).state.trace roots = .ok found) ∧
      (∀ object slot target, object ∉ found →
        (heap.setReference object slot target).state.trace roots = .ok found) ∧
      ∀ calls : List HeapCall, (∀ call ∈ calls, call.Spares found) →
        (heap.after calls).trace roots = .ok found := by
  obtain ⟨turns, htrace, -⟩ := h.sound.1.trace_unfolds h.intact hroots
  have hrun : ∀ calls : List HeapCall, (∀ call ∈ calls, call.Spares (discovered roots turns)) →
      (heap.after calls).trace roots = .ok (discovered roots turns) :=
    fun _ => trace_after h.sound.1 h.intact hroots htrace
  refine ⟨_, htrace, fun layout built => ?_, fun object slot target hobject => ?_, hrun⟩
  · refine hrun [.alloc layout built] (List.forall_mem_singleton.2 ?_)
    rintro _ _ _ ⟨⟩
  · refine hrun [.setReference object slot target] (List.forall_mem_singleton.2 ?_)
    rintro _ _ _ ⟨⟩
    exact hobject

/-- The sixth fork and a new one are made to point to found forks and to each other. -/
def callsBeside : List HeapCall :=
  [.alloc .fork RecordLayout.built_fork, .setReference ⟨6⟩ "left" (some ⟨4⟩),
    .setReference ⟨6⟩ "right" (some ⟨5⟩), .setReference ⟨5⟩ "left" (some ⟨6⟩)]

theorem trace_local_forks :
    forks.Reachable ⟨1024, 2⟩ .bits16 ∧ (∀ root ∈ [⟨0⟩, ⟨0⟩], forks.Allocated root) ∧
      (∀ call ∈ callsBeside, call.Spares [⟨0⟩, ⟨1⟩, ⟨2⟩, ⟨3⟩, ⟨4⟩]) ∧
      (forks.alloc .fork).state.trace [⟨0⟩, ⟨0⟩] = .ok [⟨0⟩, ⟨1⟩, ⟨2⟩, ⟨3⟩, ⟨4⟩] ∧
      (forks.setReference ⟨5⟩ "left" none).state.trace [⟨0⟩, ⟨0⟩] =
        .ok [⟨0⟩, ⟨1⟩, ⟨2⟩, ⟨3⟩, ⟨4⟩] ∧
      (forks.after callsBeside).trace [⟨0⟩, ⟨0⟩] = .ok [⟨0⟩, ⟨1⟩, ⟨2⟩, ⟨3⟩, ⟨4⟩] := by
  have hspares : ∀ call ∈ callsBeside, call.Spares [⟨0⟩, ⟨1⟩, ⟨2⟩, ⟨3⟩, ⟨4⟩] := by
    simp only [callsBeside, List.forall_mem_cons]
    refine ⟨?_, ?_, ?_, ?_, by simp⟩ <;> rintro _ _ _ ⟨⟩ <;> decide
  obtain ⟨found, htrace, halloc, hset, hrun⟩ := reachable_forks.trace_local allocated_forks
  rw [trace_forks] at htrace
  cases htrace
  exact ⟨reachable_forks, allocated_forks, hspares, halloc .fork RecordLayout.built_fork,
    hset ⟨5⟩ "left" none (by decide), hrun callsBeside hspares⟩

end Heap

end UnboxedRecords
