import Mathlib.Logic.Relation
import UnboxedRecords.Heap.Tracing
import UnboxedRecords.Proofs.Heap.References

/-!
# What a trace finds

An object points to another when one of its reference slots names it.  A trace finds just the
objects that the roots lead to along this relation, each of them once, whatever cycles and shared
targets there are (`Heap.Reachable.trace_finds`).

The trace keeps `Tracing.Explores` at every turn: all that it reached is reached rightly, and an
object that is no longer pending has all its targets among the reached ones.  When nothing is
pending, the reached objects are closed under the relation, and so they are all there are.
-/

namespace UnboxedRecords

open Relation (ReflTransGen)

namespace Heap

/-- Some reference slot of `source` names `target`. -/
def PointsTo (heap : Heap) (source target : ObjectRef) : Prop :=
  ∃ slot, heap.reference source slot = .ok (some target)

/-- The objects that the reference slots of an object name, in the order of the slots. -/
def targets (heap : Heap) (entry : HeapObject) : List ObjectRef :=
  entry.layout.scanMap.filterMap fun offset => ObjectRef.ofRaw? (heap.word entry offset)

variable {heap : Heap} {entry : HeapObject} {object target : ObjectRef}

theorem allocated_of_getElem? (h : heap.objects[object.index]? = some entry) :
    heap.Allocated object :=
  (Array.getElem?_eq_some_iff.1 h).1

theorem Allocated.exists_entry (h : heap.Allocated object) :
    ∃ entry, heap.objects[object.index]? = some entry :=
  ⟨_, Array.getElem?_eq_getElem h⟩

/-- What a slot is read as is what its word names. -/
theorem ofRaw?_of_decode {raw : Nat} (h : heap.decode raw = .ok (some target)) :
    ObjectRef.ofRaw? raw = some target := by
  rw [decode] at h
  split at h
  · cases h
  · next named hnamed =>
    split at h
    · cases h
      exact hnamed
    · cases h

theorem pointsTo_iff (hsound : heap.Sound) (hintact : heap.Intact)
    (hentry : heap.objects[object.index]? = some entry) :
    heap.PointsTo object target ↔ target ∈ heap.targets entry := by
  rw [targets, List.mem_filterMap]
  constructor
  · rintro ⟨name, hreference⟩
    rcases hsound.referencePlace_cases object name with
      ⟨error, herror, -⟩ | ⟨found, slot, hfound, hslot, rfl, hkind, -⟩
    · rw [reference, herror] at hreference
      cases hreference
    · obtain rfl : entry = found := Option.some.inj (hentry.symm.trans hfound)
      rw [hsound.reference_eq hentry hslot hkind] at hreference
      exact ⟨slot.offset,
        (hsound.houses hentry).wellPlaced.mem_scanMap.2 ⟨slot, hslot, hkind, rfl⟩,
        ofRaw?_of_decode hreference⟩
  · rintro ⟨offset, hoffset, hraw⟩
    obtain ⟨named, hnamed, hword⟩ := hintact hentry offset hoffset
    obtain ⟨slot, hslot, hkind, rfl⟩ := (hsound.houses hentry).wellPlaced.mem_scanMap.1 hoffset
    rw [hword, ObjectRef.ofRaw?_rawOf] at hraw
    refine ⟨slot.name, ?_⟩
    rw [hsound.reference_eq hentry hslot hkind, hword, hnamed.decode_eq, hraw]

theorem allocated_of_mem_targets (hintact : heap.Intact) {i : Nat}
    (hentry : heap.objects[i]? = some entry) (h : target ∈ heap.targets entry) :
    heap.Allocated target := by
  obtain ⟨offset, hoffset, hraw⟩ := List.mem_filterMap.1 h
  obtain ⟨named, hnamed, hword⟩ := hintact hentry offset hoffset
  rw [hword, ObjectRef.ofRaw?_rawOf] at hraw
  exact (hnamed target hraw).1

end Heap

namespace Tracing

variable {heap : Heap} {tracing : Tracing} {roots : List ObjectRef} {object other : ObjectRef}

/-! ## Discovering objects -/

/-- The marks are those of the reached objects, each of which was reached once. -/
structure Marks (heap : Heap) (tracing : Tracing) : Prop where
  size_eq : tracing.marked.size = heap.objects.size
  marked_iff : ∀ object, tracing.marked[object.index]? = some true ↔ object ∈ tracing.reached
  nodup : tracing.reached.toList.Nodup

/-- The pending objects have no part in the marks. -/
theorem Marks.setPending (h : tracing.Marks heap) (pending : List ObjectRef) :
    ({ tracing with pending } : Tracing).Marks heap :=
  ⟨h.size_eq, h.marked_iff, h.nodup⟩

theorem marks_start (heap : Heap) : (start heap.objects.size).Marks heap where
  size_eq := Array.size_replicate
  marked_iff := by simp [start, Array.getElem?_replicate]
  nodup := List.nodup_nil

theorem Marks.index_lt (h : tracing.Marks heap) (hobject : heap.Allocated object) :
    object.index < tracing.marked.size := by
  rw [h.size_eq]
  exact hobject

/-- An allocated object is new exactly when it was not reached before. -/
theorem Marks.unmarked_iff (h : tracing.Marks heap) (hobject : heap.Allocated object) :
    tracing.marked[object.index]? = some false ↔ object ∉ tracing.reached := by
  rw [← h.marked_iff, Array.getElem?_eq_getElem (h.index_lt hobject)]
  simp

theorem discover_of_mem (h : tracing.Marks heap) (hobject : heap.Allocated object)
    (hmem : object ∈ tracing.reached) : tracing.discover object = tracing := by
  have hmarked : ¬ tracing.marked[object.index]? = some false := by
    rw [h.unmarked_iff hobject]
    exact not_not_intro hmem
  obtain ⟨marked, reached, pending⟩ := tracing
  exact if_neg hmarked

theorem discover_of_not_mem (h : tracing.Marks heap) (hobject : heap.Allocated object)
    (hmem : object ∉ tracing.reached) :
    tracing.discover object = ⟨tracing.marked.setIfInBounds object.index true,
      tracing.reached.push object, object :: tracing.pending⟩ := by
  have hmarked := (h.unmarked_iff hobject).2 hmem
  obtain ⟨marked, reached, pending⟩ := tracing
  exact if_pos hmarked

theorem Marks.discover (h : tracing.Marks heap) (hobject : heap.Allocated object) :
    (tracing.discover object).Marks heap := by
  by_cases hmem : object ∈ tracing.reached
  · rw [discover_of_mem h hobject hmem]
    exact h
  · rw [discover_of_not_mem h hobject hmem]
    refine ⟨?_, ?_, ?_⟩
    · rw [Array.size_setIfInBounds]
      exact h.size_eq
    · intro other
      rw [Array.getElem?_setIfInBounds, Array.mem_push]
      by_cases hindex : object.index = other.index
      · have hother : other = object := ObjectRef.ext hindex.symm
        rw [if_pos hindex, if_pos (h.index_lt hobject)]
        simp [hother]
      · -- the mark of another object is untouched
        rw [if_neg hindex, h.marked_iff]
        constructor
        · exact Or.inl
        · rintro (hother | rfl)
          · exact hother
          · exact absurd rfl hindex
    · rw [Array.toList_push]
      exact List.nodup_append.2 ⟨h.nodup, List.nodup_singleton _, by
        intro a ha b hb hab
        rw [List.mem_singleton.1 hb] at hab
        exact hmem (hab ▸ Array.mem_toList_iff.1 ha)⟩

theorem mem_reached_discover (h : tracing.Marks heap) (hobject : heap.Allocated object) :
    other ∈ (tracing.discover object).reached ↔ other ∈ tracing.reached ∨ other = object := by
  by_cases hmem : object ∈ tracing.reached
  · rw [discover_of_mem h hobject hmem]
    constructor
    · exact Or.inl
    · rintro (hother | rfl)
      · exact hother
      · exact hmem
  · rw [discover_of_not_mem h hobject hmem]
    exact Array.mem_push

theorem mem_pending_discover (h : tracing.Marks heap) (hobject : heap.Allocated object) :
    other ∈ (tracing.discover object).pending ↔
      other ∈ tracing.pending ∨ other = object ∧ other ∉ tracing.reached := by
  by_cases hmem : object ∈ tracing.reached
  · rw [discover_of_mem h hobject hmem]
    constructor
    · exact Or.inl
    · rintro (hother | ⟨rfl, hother⟩)
      · exact hother
      · exact absurd hmem hother
  · rw [discover_of_not_mem h hobject hmem]
    rw [List.mem_cons]
    constructor
    · rintro (rfl | hother)
      · exact Or.inr ⟨rfl, hmem⟩
      · exact Or.inl hother
    · rintro (hother | ⟨rfl, -⟩)
      · exact Or.inr hother
      · exact Or.inl rfl

/-- The trace after several objects were taken note of. -/
def discoverAll (tracing : Tracing) (objects : List ObjectRef) : Tracing :=
  objects.foldl discover tracing

/-- Taking note of several objects keeps the marks and adds just these objects, the new ones among
them to the pending ones too. -/
theorem Marks.discoverAll (h : tracing.Marks heap) {objects : List ObjectRef}
    (hobjects : ∀ object ∈ objects, heap.Allocated object) :
    (tracing.discoverAll objects).Marks heap ∧
      (∀ other, other ∈ (tracing.discoverAll objects).reached ↔
        other ∈ tracing.reached ∨ other ∈ objects) ∧
      ∀ other, other ∈ (tracing.discoverAll objects).pending ↔
        other ∈ tracing.pending ∨ other ∈ objects ∧ other ∉ tracing.reached := by
  -- each discovery leaves another trace, for which the rest has to be known
  induction objects generalizing tracing with
  | nil => simpa [Tracing.discoverAll] using h
  | cons object objects ih =>
    have hobject := hobjects object List.mem_cons_self
    obtain ⟨hmarks, hreached, hpending⟩ := ih (h.discover hobject)
      fun other hother => hobjects other (List.mem_cons_of_mem object hother)
    refine ⟨hmarks, fun other => ?_, fun other => ?_⟩
    · rw [Tracing.discoverAll, List.foldl_cons]
      rw [show other ∈ (objects.foldl Tracing.discover (tracing.discover object)).reached ↔ _ from
        hreached other, mem_reached_discover h hobject, List.mem_cons, or_assoc]
    · rw [Tracing.discoverAll, List.foldl_cons]
      rw [show other ∈ (objects.foldl Tracing.discover (tracing.discover object)).pending ↔ _ from
        hpending other, mem_pending_discover h hobject, mem_reached_discover h hobject,
        List.mem_cons]
      by_cases hother : other = object
      · simp [hother]
      · simp [hother]

/-- Following words that dangle nowhere is taking note of the objects that they name. -/
theorem followAll_eq {words : List Nat}
    (h : ∀ word ∈ words, ∃ target, heap.CanName target ∧ word = ObjectRef.rawOf target) :
    tracing.followAll heap words =
      .ok (tracing.discoverAll (words.filterMap ObjectRef.ofRaw?)) := by
  induction words generalizing tracing with
  | nil => rfl
  | cons word words ih =>
    obtain ⟨target, htarget, rfl⟩ := h word List.mem_cons_self
    have hwords := fun other hother => h other (List.mem_cons_of_mem _ hother)
    rw [followAll, follow, htarget.decode_eq]
    rcases target with _ | target
    · exact ih hwords
    · exact ih hwords

theorem foldl_append_singleton {α β : Type} (f : α → β) (as : List α) (start : List β) :
    as.foldl (fun seen a => seen ++ [f a]) start = start ++ as.map f := by
  induction as generalizing start with
  | nil => simp
  | cons a as ih => simp [ih]

/-- A scan of an object takes note of its targets. -/
theorem expand_eq (hsound : heap.Sound) (hintact : heap.Intact) {entry : HeapObject}
    (hentry : heap.objects[object.index]? = some entry) :
    tracing.expand heap object = .ok (tracing.discoverAll (heap.targets entry)) := by
  have hwords : ∀ word ∈ entry.layout.scanMap.map (heap.word entry),
      ∃ target, heap.CanName target ∧ word = ObjectRef.rawOf target := by
    intro word hword
    obtain ⟨offset, hoffset, rfl⟩ := List.mem_map.1 hword
    exact hintact hentry offset hoffset
  rw [expand, hsound.scan_eq hentry, foldl_append_singleton, List.nil_append]
  dsimp only
  rw [followAll_eq hwords, List.filterMap_map]
  rfl

/-! ## Turn after turn -/

/-- What holds at every turn of a trace from `roots`. -/
structure Explores (heap : Heap) (roots : List ObjectRef) (tracing : Tracing) : Prop where
  marks : tracing.Marks heap
  allocated : ∀ object ∈ tracing.reached, heap.Allocated object
  pending_reached : ∀ object ∈ tracing.pending, object ∈ tracing.reached
  roots_reached : ∀ root ∈ roots, root ∈ tracing.reached
  rightly : ∀ object ∈ tracing.reached, ∃ root ∈ roots, ReflTransGen heap.PointsTo root object
  closed : ∀ object ∈ tracing.reached, object ∉ tracing.pending →
    ∀ target, heap.PointsTo object target → target ∈ tracing.reached

/-- At first just the roots are reached, and all of them are pending. -/
theorem explores_roots (hroots : ∀ root ∈ roots, heap.Allocated root) :
    ((start heap.objects.size).discoverAll roots).Explores heap roots := by
  obtain ⟨hmarks, hreached, hpending⟩ := (marks_start heap).discoverAll hroots
  have hreached' : ∀ object, object ∈ ((start heap.objects.size).discoverAll roots).reached ↔
      object ∈ roots := by
    intro object
    rw [hreached]
    simp [start]
  have hpending' : ∀ object, object ∈ ((start heap.objects.size).discoverAll roots).pending ↔
      object ∈ roots := by
    intro object
    rw [hpending]
    simp [start]
  refine ⟨hmarks, ?_, ?_, ?_, ?_, ?_⟩
  · intro object hobject
    exact hroots object ((hreached' object).1 hobject)
  · intro object hobject
    exact (hreached' object).2 ((hpending' object).1 hobject)
  · intro root hroot
    exact (hreached' root).2 hroot
  · intro object hobject
    exact ⟨object, (hreached' object).1 hobject, ReflTransGen.refl⟩
  · intro object hobject hnot
    exact absurd ((hpending' object).2 ((hreached' object).1 hobject)) hnot

/-- A turn takes note of all targets of the object that was discovered last. -/
theorem Explores.expand (h : tracing.Explores heap roots) (hsound : heap.Sound)
    (hintact : heap.Intact) {rest : List ObjectRef} (hpending : tracing.pending = object :: rest) :
    ∃ next, expand heap { tracing with pending := rest } object = .ok next ∧
      next.Explores heap roots := by
  have hmem : object ∈ tracing.reached :=
    h.pending_reached object (by rw [hpending]; exact List.mem_cons_self)
  obtain ⟨entry, hentry⟩ := (h.allocated object hmem).exists_entry
  have hpoints : ∀ target, heap.PointsTo object target ↔ target ∈ heap.targets entry :=
    fun target => Heap.pointsTo_iff hsound hintact hentry
  have hallocated : ∀ target ∈ heap.targets entry, heap.Allocated target :=
    fun target => Heap.allocated_of_mem_targets hintact hentry
  obtain ⟨hmarks', hreached', hpending'⟩ := (h.marks.setPending rest).discoverAll hallocated
  refine ⟨_, expand_eq hsound hintact hentry, hmarks', ?_, ?_, ?_, ?_, ?_⟩
  · intro other hother
    rcases (hreached' other).1 hother with hother | hother
    · exact h.allocated other hother
    · exact hallocated other hother
  · intro other hother
    refine (hreached' other).2 ?_
    rcases (hpending' other).1 hother with hother | ⟨hother, -⟩
    · exact Or.inl (h.pending_reached other (by rw [hpending]; exact List.mem_cons_of_mem _ hother))
    · exact Or.inr hother
  · intro root hroot
    exact (hreached' root).2 (Or.inl (h.roots_reached root hroot))
  · intro other hother
    rcases (hreached' other).1 hother with hother | hother
    · exact h.rightly other hother
    · obtain ⟨root, hroot, hpath⟩ := h.rightly object hmem
      exact ⟨root, hroot, hpath.tail ((hpoints other).2 hother)⟩
  · intro other hother hnot target htarget
    rw [hpending', not_or, not_and_not_right] at hnot
    obtain ⟨hrest, hnew⟩ := hnot
    -- what is settled now was reached before: a new object would be pending
    refine (hreached' target).2 ?_
    have hold : other ∈ tracing.reached := by
      rcases (hreached' other).1 hother with hother | hother
      · exact hother
      · exact hnew hother
    by_cases hobject : other = object
    · -- the object of this turn, all of whose targets were just taken note of
      rw [hobject] at htarget
      exact Or.inr ((hpoints target).1 htarget)
    · refine Or.inl (h.closed other hold ?_ target htarget)
      rw [hpending, List.mem_cons, not_or]
      exact ⟨hobject, hrest⟩

theorem run_of_pending_nil (heap : Heap) (h : tracing.pending = []) :
    tracing.run heap = .ok tracing.reached := by
  rw [run]
  split
  · rfl
  · next hcons => simp [h] at hcons

theorem run_of_pending_cons (heap : Heap) {rest : List ObjectRef}
    (h : tracing.pending = object :: rest) :
    tracing.run heap =
      expand heap { tracing with pending := rest } object >>= fun next => next.run heap := by
  rw [run]
  split
  · next hnil => simp [h] at hnil
  · next first others hcons =>
    rw [h] at hcons
    cases hcons
    split
    · next error herror =>
      rw [herror]
      rfl
    · next next hnext =>
      dsimp only
      rw [hnext, ok_bind]

/-- A turn leaves less work. -/
theorem work_lt_of_expand {next : Tracing} {rest : List ObjectRef}
    (hpending : tracing.pending = object :: rest)
    (hexpand : expand heap { tracing with pending := rest } object = .ok next) :
    next.work < tracing.work := by
  rw [work_expand hexpand]
  simp [work, hpending]

/-- What every turn goes on to, without an error, is so when nothing is pending any more. -/
theorem run_induction {motive : Tracing → Prop}
    (hturn : ∀ {tracing : Tracing} {object : ObjectRef} {rest : List ObjectRef}, motive tracing →
      tracing.pending = object :: rest →
      ∃ next, expand heap { tracing with pending := rest } object = .ok next ∧ motive next)
    (h : motive tracing) :
    ∃ last : Tracing, tracing.run heap = .ok last.reached ∧ motive last ∧ last.pending = [] := by
  -- the trace ends because each turn leaves less work
  induction hwork : tracing.work using Nat.strongRecOn generalizing tracing with
  | ind work ih =>
    rcases hpending : tracing.pending with _ | ⟨object, rest⟩
    · exact ⟨tracing, run_of_pending_nil heap hpending, h, hpending⟩
    · obtain ⟨next, hexpand, hnext⟩ := hturn h hpending
      have hless : next.work < work := hwork ▸ work_lt_of_expand hpending hexpand
      obtain ⟨last, hrun, hlast, hdone⟩ := ih next.work hless hnext rfl
      refine ⟨last, ?_, hlast, hdone⟩
      rw [run_of_pending_cons heap hpending, hexpand, ok_bind, hrun]

/-- A trace ends without an error when nothing is pending any more. -/
theorem Explores.run (h : tracing.Explores heap roots) (hsound : heap.Sound)
    (hintact : heap.Intact) :
    ∃ last : Tracing, tracing.run heap = .ok last.reached ∧ last.Explores heap roots ∧
      last.pending = [] :=
  run_induction (fun hexplores hpending => hexplores.expand hsound hintact hpending) h

/-- The reached objects of a trace that has ended. -/
theorem Explores.mem_reached_iff (h : tracing.Explores heap roots) (hdone : tracing.pending = []) :
    object ∈ tracing.reached ↔ ∃ root ∈ roots, ReflTransGen heap.PointsTo root object := by
  constructor
  · exact h.rightly object
  · rintro ⟨root, hroot, hpath⟩
    induction hpath with
    | refl => exact h.roots_reached root hroot
    | tail _ hpoints ih => exact h.closed _ ih (by rw [hdone]; exact List.not_mem_nil) _ hpoints

/-! ## Whole traces -/

theorem discoverRoots_of_allocated (hroots : ∀ root ∈ roots, heap.Allocated root) :
    tracing.discoverRoots heap roots = .ok (tracing.discoverAll roots) := by
  induction roots generalizing tracing with
  | nil => rfl
  | cons root roots ih =>
    obtain ⟨entry, hentry⟩ := (hroots root List.mem_cons_self).exists_entry
    rw [discoverRoots, Heap.object_eq_ok_iff.2 hentry]
    exact ih fun other hother => hroots other (List.mem_cons_of_mem root hother)

theorem discoverRoots_of_find? {root : ObjectRef}
    (h : (roots.find? fun root => ¬ heap.Allocated root) = some root) :
    tracing.discoverRoots heap roots = .error (.unknownObject root) := by
  induction roots generalizing tracing with
  | nil => cases h
  | cons first roots ih =>
    rw [discoverRoots]
    rcases hobject : heap.object first with error | entry
    · have hfirst : ¬ heap.Allocated first := by
        intro hallocated
        obtain ⟨entry, hentry⟩ := hallocated.exists_entry
        rw [Heap.object_eq_ok_iff.2 hentry] at hobject
        cases hobject
      rw [List.find?_cons_of_pos (by simpa using hfirst)] at h
      cases h
      rw [Heap.object_eq_error hobject]
    · have hfirst := Heap.allocated_of_getElem? (Heap.object_eq_ok_iff.1 hobject)
      rw [List.find?_cons_of_neg (by simpa using hfirst)] at h
      exact ih h

end Tracing

namespace Heap

variable {heap : Heap} {roots : List ObjectRef} {entry : HeapObject} {object target : ObjectRef}

theorem trace_of_find? {root : ObjectRef}
    (h : (roots.find? fun root => ¬ heap.Allocated root) = some root) :
    heap.trace roots = .error (.unknownObject root) := by
  rw [trace, Tracing.discoverRoots_of_find? h]

/-- From allocated roots, the objects that the roots lead to are found, each of them once. -/
theorem Sound.trace_of_allocated (h : heap.Sound) (hintact : heap.Intact)
    (hroots : ∀ root ∈ roots, heap.Allocated root) :
    ∃ found, heap.trace roots = .ok found ∧ found.Nodup ∧
      ∀ object, object ∈ found ↔ ∃ root ∈ roots, ReflTransGen heap.PointsTo root object := by
  obtain ⟨last, hrun, hlast, hdone⟩ := (Tracing.explores_roots hroots).run h hintact
  refine ⟨last.reached.toList, ?_, hlast.marks.nodup, fun object => ?_⟩
  · rw [trace, Tracing.discoverRoots_of_allocated hroots]
    dsimp only
    rw [hrun]
    rfl
  · rw [Array.mem_toList_iff]
    exact hlast.mem_reached_iff hdone

/-- In a heap in use an object points to another exactly if one of its reference words is the number
of the other. -/
theorem Reachable.pointsTo_iff_wordAt {config : HeapConfig} {platform : Platform}
    (h : heap.Reachable config platform) (hobject : heap.object object = .ok entry) :
    heap.PointsTo object target ↔
      ∃ offset ∈ entry.layout.scanMap, heap.wordAt object offset = .ok target.raw := by
  have hsound := h.sound.1
  have hentry := object_eq_ok_iff.1 hobject
  rw [pointsTo_iff hsound h.intact hentry, targets, List.mem_filterMap]
  refine exists_congr fun offset => and_congr_right fun hoffset => ?_
  rw [hsound.wordAt_eq hentry hoffset, ObjectRef.ofRaw?_eq_some_iff, Except.ok.injEq]

/-- A trace reports the first root that is not allocated.  If there is none, it finds just the
objects that the roots lead to by way of reference slots, each of them once.  What a reference slot
leads to is the object whose number it holds as a word (`Reachable.pointsTo_iff_wordAt`). -/
theorem Reachable.trace_finds {config : HeapConfig} {platform : Platform}
    (h : heap.Reachable config platform) (roots : List ObjectRef) :
    (∀ root, (roots.find? fun root => ¬ heap.Allocated root) = some root →
      heap.trace roots = .error (.unknownObject root)) ∧
    ((∀ root ∈ roots, heap.Allocated root) → ∃ found, heap.trace roots = .ok found ∧ found.Nodup ∧
      ∀ object, object ∈ found ↔ ∃ root ∈ roots, ReflTransGen heap.PointsTo root object) := by
  constructor
  · intro root hroot
    exact trace_of_find? hroot
  · intro hroots
    exact h.sound.1.trace_of_allocated h.intact hroots

set_option maxRecDepth 10000 in
theorem trace_ring : ring.trace [⟨0⟩, ⟨0⟩] = .ok [⟨0⟩, ⟨1⟩] := by decide +kernel

/-- The first node points to the second and to no other, and the two of them are what is found from
the first, named twice as a root.  Of two unknown roots the first is reported. -/
theorem trace_finds_ring :
    ring.Reachable ⟨1024, 2⟩ .bits16 ∧
    (([⟨0⟩, ⟨7⟩, ⟨8⟩].find? fun root => ¬ ring.Allocated root) = some ⟨7⟩ ∧
      ring.trace [⟨0⟩, ⟨7⟩, ⟨8⟩] = .error (.unknownObject ⟨7⟩)) ∧
    (∀ root ∈ [⟨0⟩, ⟨0⟩], ring.Allocated root) ∧ ring.trace [⟨0⟩, ⟨0⟩] = .ok [⟨0⟩, ⟨1⟩] ∧
      (∀ target, ring.PointsTo ⟨0⟩ target ↔ target = ⟨1⟩) ∧
      ∀ object, object ∈ [⟨0⟩, ⟨1⟩] ↔
        ∃ root ∈ [⟨0⟩, ⟨0⟩], ReflTransGen ring.PointsTo root object := by
  have hunknown : ([⟨0⟩, ⟨7⟩, ⟨8⟩].find? fun root => ¬ ring.Allocated root) = some ⟨7⟩ := by
    simp [Allocated, size_ring]
  have hroots : ∀ root ∈ [⟨0⟩, ⟨0⟩], ring.Allocated root := by
    simp [Allocated, size_ring]
  have hpoints : ∀ target, ring.PointsTo ⟨0⟩ target ↔ target = ⟨1⟩ := by
    intro target
    have hnumber : 2 = target.raw ↔ target = ⟨1⟩ := by
      rw [ObjectRef.ext_iff]
      change 2 = target.index + 1 ↔ target.index = 1
      omega
    rw [reachable_ring.pointsTo_iff_wordAt object_ring, ← hnumber]
    simp only [RecordLayout.node, List.mem_singleton, exists_eq_left, wordAt_ring, Except.ok.injEq]
  obtain ⟨found, htrace, -, hfound⟩ := (reachable_ring.trace_finds _).2 hroots
  obtain rfl : [⟨0⟩, ⟨1⟩] = found := Except.ok.inj (trace_ring.symm.trans htrace)
  exact ⟨reachable_ring, ⟨hunknown, (reachable_ring.trace_finds _).1 ⟨7⟩ hunknown⟩, hroots,
    trace_ring, hpoints, hfound⟩

end Heap

end UnboxedRecords
