import UnboxedRecords.Heap.Scanning

/-!
# Tracing

A trace finds every object that can be reached from given roots through reference slots, in the
order in which the objects are discovered.  An object is marked when it is discovered and becomes
pending; the one discovered last is scanned next, and the objects that its slots name are
discovered in the order of the slots.

Each turn scans one pending object for good.  Discovery moves an object from the unmarked ones to
the pending ones, so that their number together, `Tracing.work`, goes down by one with each turn;
this is why a trace ends, also on cycles.
-/

namespace UnboxedRecords

/-- The state of a trace. -/
structure Tracing where
  /-- For every object of the heap, whether it is discovered. -/
  marked : Array Bool
  /-- The discovered objects in the order of their discovery. -/
  reached : Array ObjectRef
  /-- The discovered objects that are still to be scanned, the latest first. -/
  pending : List ObjectRef

namespace Tracing

/-- A trace of a heap with `count` objects that has discovered nothing yet. -/
def start (count : Nat) : Tracing := ⟨Array.replicate count false, #[], []⟩

/-- The number of scans that may still be needed. -/
def work (tracing : Tracing) : Nat := tracing.marked.count false + tracing.pending.length

/-- Take note of an object, unless it is known already. -/
def discover (tracing : Tracing) (object : ObjectRef) : Tracing :=
  match tracing with
  | ⟨marked, reached, pending⟩ =>
    if marked[object.index]? = some false then
      ⟨marked.setIfInBounds object.index true, reached.push object, object :: pending⟩
    else
      ⟨marked, reached, pending⟩

/-- Discovering an object trades an unmarked one for a pending one. -/
theorem work_discover (tracing : Tracing) (object : ObjectRef) :
    (tracing.discover object).work = tracing.work := by
  obtain ⟨marked, reached, pending⟩ := tracing
  unfold discover
  dsimp only
  split
  · next h =>
    obtain ⟨hi, hfalse⟩ := Array.getElem?_eq_some_iff.1 h
    have hcount : 0 < marked.count false :=
      Array.count_pos_iff.2 (hfalse ▸ Array.getElem_mem hi)
    have hset : (marked.setIfInBounds object.index true).count false = marked.count false - 1 := by
      rw [Array.setIfInBounds, dif_pos hi, Array.count_set]
      simp [hfalse]
    simp only [work, hset, List.length_cons]
    omega
  · rfl

/-- Take note of the object that a reference word names. -/
def follow (heap : Heap) (tracing : Tracing) (word : Nat) : Except HeapError Tracing :=
  match heap.decode word with
  | .error error => .error error
  | .ok none => .ok tracing
  | .ok (some object) => .ok (tracing.discover object)

/-- Take note of the objects that the words name, one after the other. -/
def followAll (heap : Heap) (tracing : Tracing) : List Nat → Except HeapError Tracing
  | [] => .ok tracing
  | word :: words =>
    match tracing.follow heap word with
    | .error error => .error error
    | .ok tracing => tracing.followAll heap words

theorem work_follow {heap : Heap} {tracing next : Tracing} {word : Nat}
    (h : tracing.follow heap word = .ok next) : next.work = tracing.work := by
  unfold follow at h
  split at h
  · simp at h
  · simp_all
  · simp only [Except.ok.injEq] at h
    rw [← h, work_discover]

theorem work_followAll {heap : Heap} {tracing next : Tracing} {words : List Nat}
    (h : tracing.followAll heap words = .ok next) : next.work = tracing.work := by
  induction words generalizing tracing with
  | nil => simp_all [followAll]
  | cons word words ih =>
    unfold followAll at h
    split at h
    · simp at h
    · next hword => rw [ih h, work_follow hword]

/-- Scan `object` and take note of all that it refers to. -/
def expand (heap : Heap) (tracing : Tracing) (object : ObjectRef) : Except HeapError Tracing :=
  match heap.scan object (fun words _ word => words ++ [word]) [] with
  | .error error => .error error
  | .ok (words, _) => tracing.followAll heap words

theorem work_expand {heap : Heap} {tracing next : Tracing} {object : ObjectRef}
    (h : tracing.expand heap object = .ok next) : next.work = tracing.work := by
  unfold expand at h
  split at h
  · simp at h
  · exact work_followAll h

/-- Scan pending objects until there are none. -/
def run (heap : Heap) (tracing : Tracing) : Except HeapError (Array ObjectRef) :=
  match hpending : tracing.pending with
  | [] => .ok tracing.reached
  | object :: rest =>
    match hnext : expand heap { tracing with pending := rest } object with
    | .error error => .error error
    | .ok next =>
      have : next.work < tracing.work := by
        rw [work_expand hnext]
        simp [work, hpending]
      run heap next
termination_by tracing.work

/-- Take note of the roots, each of which has to be allocated. -/
def discoverRoots (heap : Heap) (tracing : Tracing) : List ObjectRef → Except HeapError Tracing
  | [] => .ok tracing
  | root :: roots =>
    match heap.object root with
    | .error error => .error error
    | .ok _ => (tracing.discover root).discoverRoots heap roots

end Tracing

/-- All objects that can be reached from `roots`, in the order of their discovery. -/
def Heap.trace (heap : Heap) (roots : List ObjectRef) : Except HeapError (List ObjectRef) :=
  match (Tracing.start heap.objects.size).discoverRoots heap roots with
  | .error error => .error error
  | .ok tracing => (tracing.run heap).map (·.toList)

end UnboxedRecords
