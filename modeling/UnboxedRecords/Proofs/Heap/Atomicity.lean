import UnboxedRecords.Proofs.Heap.Effects

/-!
# Refused calls

A call that is refused leaves the heap as it was, at whatever depth the refusal comes about: before
any memory is asked for, in the arena, or at a slot that does not suit the call.  So a run comes to
the same as the run of those of its calls that are granted (`Heap.granted`): these have the same
results, and the heap that is left behind is the same, object numbers, places and bytes included
(`Heap.Reachable.refusals_leave_no_trace`).
-/

namespace UnboxedRecords

namespace Heap

variable {heap : Heap} {call : HeapCall} {earlier later calls : List HeapCall}

/-- The calls of a run that are granted. -/
def granted (heap : Heap) (calls : List HeapCall) : List HeapCall :=
  ((heap.transcript calls).filter (·.2.isOk)).map Prod.fst

theorem granted_cons_of_ok {value : Option ObjectRef} (h : (heap.perform call).result = .ok value)
    (calls : List HeapCall) :
    heap.granted (call :: calls) = call :: (heap.perform call).state.granted calls := by
  rw [granted, transcript_cons, h, List.filter_cons_of_pos rfl, List.map_cons, granted]

theorem granted_cons_of_error {error : HeapError} (h : (heap.perform call).result = .error error)
    (calls : List HeapCall) :
    heap.granted (call :: calls) = (heap.perform call).state.granted calls := by
  rw [granted, transcript_cons, h, List.filter_cons_of_neg Bool.false_ne_true, granted]

/-! ## Runs in two parts -/

theorem after_append (heap : Heap) (earlier later : List HeapCall) :
    heap.after (earlier ++ later) = (heap.after earlier).after later :=
  List.foldl_append

theorem transcript_append (heap : Heap) (earlier later : List HeapCall) :
    heap.transcript (earlier ++ later) =
      heap.transcript earlier ++ (heap.after earlier).transcript later := by
  induction earlier generalizing heap with
  | nil => rfl
  | cons call earlier ih =>
    rw [List.cons_append, transcript_cons, ih, transcript_cons, after_cons, List.cons_append]

theorem granted_append (heap : Heap) (earlier later : List HeapCall) :
    heap.granted (earlier ++ later) =
      heap.granted earlier ++ (heap.after earlier).granted later := by
  rw [granted, transcript_append, List.filter_append, List.map_append]
  rfl

namespace Sound

/-- A refused call leaves no trace. -/
theorem state_perform_of_error (h : heap.Sound) {error : HeapError}
    (herror : (heap.perform call).result = .error error) : (heap.perform call).state = heap := by
  have heffect := h.effect call
  rw [herror] at heffect
  exact heffect.eq_of_error

/-- The granted calls alone lead to the same heap. -/
theorem after_granted (h : heap.Sound) (calls : List HeapCall) :
    heap.after (heap.granted calls) = heap.after calls := by
  induction calls generalizing heap with
  | nil => rfl
  | cons call calls ih =>
    rw [after_cons]
    rcases hresult : (heap.perform call).result with error | value
    · rw [granted_cons_of_error hresult, h.state_perform_of_error hresult]
      exact ih h
    · rw [granted_cons_of_ok hresult, after_cons]
      exact ih (h.perform call)

/-- The granted calls alone are granted again, and with the same results. -/
theorem transcript_granted (h : heap.Sound) (calls : List HeapCall) :
    heap.transcript (heap.granted calls) = (heap.transcript calls).filter (·.2.isOk) := by
  induction calls generalizing heap with
  | nil => rfl
  | cons call calls ih =>
    rw [transcript_cons heap call]
    rcases hresult : (heap.perform call).result with error | value
    · rw [granted_cons_of_error hresult, h.state_perform_of_error hresult,
        List.filter_cons_of_neg Bool.false_ne_true]
      exact ih h
    · rw [granted_cons_of_ok hresult, transcript_cons, hresult, List.filter_cons_of_pos rfl,
        ih (h.perform call)]

end Sound

/-- A call on a heap in use that is refused leaves the heap as it was.  So the calls of a run that
are refused can be left out of it: those that are granted have the same results without them, all
calls that come later, be they granted or not, have the same results, and at every later time the
heap is the same. -/
theorem Reachable.refusals_leave_no_trace {config : HeapConfig} {platform : Platform}
    (h : heap.Reachable config platform) :
    (∀ call error, (heap.perform call).result = .error error →
      (heap.perform call).state = heap) ∧
    ∀ earlier later : List HeapCall,
      heap.granted (earlier ++ later) =
          heap.granted earlier ++ (heap.after earlier).granted later ∧
        heap.transcript (heap.granted earlier ++ later) =
          (heap.transcript earlier).filter (·.2.isOk) ++ (heap.after earlier).transcript later ∧
        heap.after (heap.granted earlier ++ later) = heap.after (earlier ++ later) := by
  obtain ⟨hsound, -⟩ := h.sound
  refine ⟨fun call error => hsound.state_perform_of_error, fun earlier later => ⟨?_, ?_, ?_⟩⟩
  · exact heap.granted_append earlier later
  · rw [transcript_append, hsound.transcript_granted, hsound.after_granted]
  · rw [after_append, after_append, hsound.after_granted]

end Heap

/-! ## A run with refusals -/

/-- A record without slots, for words of another size than those of the ring. -/
def RecordLayout.foreign : RecordLayout := ⟨"foreign", .bits64, [], 0, 1, [], []⟩

theorem RecordLayout.built_foreign : foreign.Built := ⟨"foreign", .bits64, [], rfl⟩

/-- The ring is made, with a mistake before each step. -/
def HeapCall.stumbling : List HeapCall :=
  [.alloc .foreign RecordLayout.built_foreign, .alloc .node RecordLayout.built_node,
    .setReference ⟨0⟩ "next" (some ⟨1⟩), .alloc .node RecordLayout.built_node,
    .setReference ⟨0⟩ "tag" (some ⟨1⟩), .setReference ⟨0⟩ "next" (some ⟨1⟩),
    .setReference ⟨1⟩ "last" none, .setReference ⟨1⟩ "next" (some ⟨0⟩),
    .fillRaw ⟨0⟩ "next" 255, .fillRaw ⟨0⟩ "tag" 255]

namespace Heap

set_option maxRecDepth 10000 in
theorem granted_stumbling : small.granted HeapCall.stumbling = HeapCall.ring := rfl

set_option maxRecDepth 10000 in
theorem refusals_leave_no_trace_stumbling :
    small.Reachable ⟨1024, 2⟩ .bits16 ∧
      (small.perform (.alloc .foreign RecordLayout.built_foreign)).result =
        .error (.platformMismatch "foreign" 2 8) ∧
      (small.perform (.alloc .foreign RecordLayout.built_foreign)).state = small ∧
      small.transcript (HeapCall.ring ++ [.fillRaw ⟨2⟩ "tag" 0]) =
        (small.transcript HeapCall.stumbling).filter (·.2.isOk) ++
          (small.after HeapCall.stumbling).transcript [.fillRaw ⟨2⟩ "tag" 0] ∧
      ring = small.after HeapCall.stumbling := by
  have hsmall : small.Reachable ⟨1024, 2⟩ .bits16 := .create create_small
  have herror : (small.perform (.alloc .foreign RecordLayout.built_foreign)).result =
      .error (.platformMismatch "foreign" 2 8) := rfl
  obtain ⟨hstate, hruns⟩ := hsmall.refusals_leave_no_trace
  obtain ⟨-, htranscript, -⟩ := hruns HeapCall.stumbling [.fillRaw ⟨2⟩ "tag" 0]
  obtain ⟨-, -, hafter⟩ := hruns HeapCall.stumbling []
  rw [granted_stumbling] at htranscript hafter
  rw [List.append_nil, List.append_nil] at hafter
  exact ⟨hsmall, herror, hstate _ _ herror, htranscript, hafter⟩

end Heap

end UnboxedRecords
