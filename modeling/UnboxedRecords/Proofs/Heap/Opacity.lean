import UnboxedRecords.Proofs.Heap.Reachability

/-!
# The opacity of raw storage

Two heaps are `Heap.Alike` when they have the same objects at the same places, arenas of the same
shape, and the same reference words.  Raw storage may differ at will.  Scans, references and traces
tell alike heaps apart no more than they tell a heap from itself (`Heap.Alike.scan_eq`,
`Heap.Alike.reference_eq`, `Heap.Alike.trace_eq`).

A write into raw storage leads to an alike heap (`Heap.Effect.alike`), and every other call on alike
heaps has the same result and leads to alike heaps again (`Heap.Alike.perform`).  So a run is
followed by the run without its raw writes (`Heap.Alike.run`), and runs that differ in their raw
writes only cannot be told apart (`Heap.opacity`).
-/

namespace UnboxedRecords

namespace Heap

/-- The same objects and the same reference words, whatever lies in raw storage. -/
structure Alike (left right : Heap) : Prop where
  platform_eq : left.platform = right.platform
  objects_eq : left.objects = right.objects
  shape : left.arena.SameShape right.arena
  words : ∀ {i : Nat} {entry : HeapObject}, left.objects[i]? = some entry →
    ∀ offset ∈ entry.layout.scanMap, left.word entry offset = right.word entry offset

variable {heap next left right third : Heap} {entry : HeapObject} {call : HeapCall}
  {result : Except HeapError (Option ObjectRef)}

namespace Alike

theorem refl (heap : Heap) : heap.Alike heap :=
  ⟨rfl, rfl, Arena.SameShape.refl heap.arena, fun _ _ _ => rfl⟩

theorem symm (h : left.Alike right) : right.Alike left where
  platform_eq := h.platform_eq.symm
  objects_eq := h.objects_eq.symm
  shape := h.shape.symm
  words := by
    intro i entry hentry offset hoffset
    rw [← h.objects_eq] at hentry
    exact (h.words hentry offset hoffset).symm

theorem trans (h : left.Alike right) (h' : right.Alike third) : left.Alike third where
  platform_eq := h.platform_eq.trans h'.platform_eq
  objects_eq := h.objects_eq.trans h'.objects_eq
  shape := h.shape.trans h'.shape
  words := by
    intro i entry hentry offset hoffset
    rw [h.words hentry offset hoffset]
    rw [h.objects_eq] at hentry
    exact h'.words hentry offset hoffset

end Alike

/-! ## Raw writes -/

theorem alike_put (h : heap.Sound) {i : Nat} {slot : Slot}
    (hentry : heap.objects[i]? = some entry) (hslot : slot ∈ entry.layout.slots)
    (hraw : slot.kind.isRaw = true) {start : Nat} {bytes : List UInt8}
    (hle : start + bytes.length ≤ slot.size) :
    heap.Alike (heap.put ((entry.place.shift slot.offset).shift start) bytes) where
  platform_eq := rfl
  objects_eq := rfl
  shape := Arena.sameShape_put _ _ _
  words := by
    intro j other hother offset hoffset
    exact (h.word_put_raw hentry hother hslot hraw hoffset hle).symm

/-- A write into raw storage cannot be noticed. -/
theorem Effect.alike (heffect : heap.Effect call result next) (h : heap.Sound)
    (hcall : call.isRawWrite = true) : heap.Alike next := by
  cases heffect with
  | refused _ => exact Alike.refl heap
  | allocated _ => cases hcall
  | written hentry hslot _ hraw hle => exact alike_put h hentry hslot hraw hle
  | filled hentry hslot _ hraw => exact alike_put h hentry hslot hraw (by simp)
  | referred _ _ _ _ _ => cases hcall

/-! ## Allocations and references -/

/-- Once the number and the place are known, a reference is stored without fail. -/
theorem Sound.result_setReference (h : heap.Sound) (object : ObjectRef) (name : String)
    (target : Option ObjectRef) :
    (heap.setReference object name target).result =
      heap.encode target >>= fun _ => (heap.referencePlace object name).map fun _ => () := by
  rcases heap.encode_cases target with ⟨error, herror, -⟩ | ⟨-, hencode⟩
  · rw [setReference, herror]
    rfl
  · rw [hencode, ok_bind]
    rcases h.referencePlace_cases object name with
      ⟨error, herror, -⟩ | ⟨entry, slot, hentry, hslot, rfl, hkind, hplace⟩
    · rw [setReference, hencode, herror]
      rfl
    · rw [h.setReference_eq hentry hslot hkind hencode, hplace]
      rfl

namespace Alike

theorem object_eq (h : left.Alike right) (object : ObjectRef) :
    left.object object = right.object object := by
  rw [Heap.object, Heap.object, h.objects_eq]

theorem referencePlace_eq (h : left.Alike right) (object : ObjectRef) (name : String) :
    left.referencePlace object name = right.referencePlace object name := by
  rw [referencePlace, referencePlace, h.object_eq]

theorem encode_eq (h : left.Alike right) (target : Option ObjectRef) :
    left.encode target = right.encode target := by
  rcases target with _ | target
  · rfl
  · rw [encode, encode, h.object_eq, h.platform_eq]

/-- Requests other than raw writes have the same result on alike heaps. -/
theorem result_eq (h : left.Alike right) (hleft : left.Sound) (hright : right.Sound)
    (hcall : call.isRawWrite = false) :
    (left.perform call).result = (right.perform call).result := by
  cases call with
  | alloc layout built =>
    have halloc := (h.shape.alloc hleft.arena hright.arena built.wellPlaced.slots.powerOfTwo
      layout.size).1
    rw [perform, perform, Outcome.result_map, Outcome.result_map, result_alloc, result_alloc,
      admits, admits, h.platform_eq, h.objects_eq, halloc]
  | writeRaw object name start bytes => cases hcall
  | fillRaw object name byte => cases hcall
  | setReference object name target =>
    rw [perform, perform, Outcome.result_map, Outcome.result_map, hleft.result_setReference,
      hright.result_setReference, h.encode_eq, h.referencePlace_eq]

theorem add (h : left.Alike right) (hleft : left.Sound) (hright : right.Sound)
    (hplaces : left.Places entry) (hplaces' : right.Places entry) :
    (left.add entry).Alike (right.add entry) where
  platform_eq := h.platform_eq
  objects_eq := by rw [objects_add, objects_add, h.objects_eq]
  shape := (h.shape.alloc hleft.arena hright.arena hplaces.built.wellPlaced.slots.powerOfTwo
    entry.layout.size).2
  words := by
    intro i other hother offset hoffset
    have hend := ((hleft.add hplaces).houses hother).word_end_le hoffset
    rw [word, word, HeapObject.wordExtent]
    rcases getElem?_objects_add hother with ⟨-, rfl⟩ | hother
    · rw [hplaces.bytesAt_add hleft hend, hplaces'.bytesAt_add hright hend]
    · have hother' := hother
      rw [h.objects_eq] at hother'
      rw [hleft.bytesAt_add hplaces hother hend, hright.bytesAt_add hplaces' hother' hend]
      exact h.words hother offset hoffset

/-- The same reference, stored in the same slot. -/
theorem put (h : left.Alike right) (hleft : left.Sound) (hright : right.Sound) {i : Nat}
    {slot : Slot} (hentry : left.objects[i]? = some entry) (hslot : slot ∈ entry.layout.slots)
    (hkind : slot.kind = .reference) {bytes : List UInt8} (hlength : bytes.length = slot.size) :
    (left.put ((entry.place.shift slot.offset).shift 0) bytes).Alike
      (right.put ((entry.place.shift slot.offset).shift 0) bytes) where
  platform_eq := h.platform_eq
  objects_eq := h.objects_eq
  shape := (Arena.sameShape_put _ _ _).symm.trans (h.shape.trans (Arena.sameShape_put _ _ _))
  words := by
    have hentry' := hentry
    rw [h.objects_eq] at hentry'
    intro j other hother offset hoffset
    have hother' : right.objects[j]? = some other := h.objects_eq ▸ hother
    rw [hleft.word_put_reference hentry hother hslot hkind hoffset hlength,
      hright.word_put_reference hentry' hother' hslot hkind hoffset hlength,
      h.words hother offset hoffset]

/-- Requests other than raw writes lead from alike heaps to alike heaps. -/
theorem perform (h : left.Alike right) (hleft : left.Sound) (hright : right.Sound)
    (hcall : call.isRawWrite = false) :
    (left.perform call).state.Alike (right.perform call).state := by
  have hresult := h.result_eq hleft hright hcall
  have heffect := hleft.effect call
  have heffect' := hright.effect call
  generalize (left.perform call).result = result at hresult heffect
  generalize (left.perform call).state = next at heffect ⊢
  generalize (right.perform call).result = result' at hresult heffect'
  generalize (right.perform call).state = next' at heffect' ⊢
  cases heffect with
  | refused _ =>
    subst hresult
    rw [heffect'.eq_of_error]
    exact h
  | @allocated layout built place hplaces =>
    cases heffect' with
    | refused _ => cases hresult
    | @allocated _ _ place' hplaces' =>
      -- arenas of the same shape give out the same place
      have halloc := (h.shape.alloc hleft.arena hright.arena
        hplaces.built.wellPlaced.slots.powerOfTwo layout.size).1
      have hplace : (.ok place : Except MemoryError Position) = .ok place' :=
        hplaces.result_eq.symm.trans (halloc.trans hplaces'.result_eq)
      cases hplace
      exact h.add hleft hright hplaces hplaces'
  | written _ _ _ _ _ => cases hcall
  | filled _ _ _ _ => cases hcall
  | @referred object name entry slot target hentry hslot hname hkind htarget =>
    cases heffect' with
    | refused _ => cases hresult
    | @referred _ _ entry' slot' _ hentry' hslot' hname' hkind' htarget' =>
      -- the name leads to the same slot of the same object
      rw [← h.objects_eq] at hentry'
      obtain rfl : entry = entry' := Option.some.inj (hentry.symm.trans hentry')
      obtain rfl := (hleft.houses hentry).wellPlaced.slots.eq_of_name_eq hslot hslot'
        (hname.trans hname'.symm)
      rw [← h.platform_eq]
      exact h.put hleft hright hentry hslot hkind
        ((hleft.houses hentry).length_littleEndian hslot hkind _)

/-! ## Runs -/

/-- A run is followed by the run without its raw writes, from an alike heap. -/
theorem run (h : left.Alike right) (hleft : left.Sound) (hright : right.Sound)
    (calls : List HeapCall) :
    (left.transcript calls).filter (fun entry => !entry.1.isRawWrite) =
        right.transcript (calls.filter fun call => !call.isRawWrite) ∧
      (left.after calls).Alike (right.after (calls.filter fun call => !call.isRawWrite)) := by
  induction calls generalizing left right with
  | nil => exact ⟨rfl, h⟩
  | cons call calls ih =>
    rcases hcall : call.isRawWrite with _ | _
    · obtain ⟨htranscript, halike⟩ :=
        ih (h.perform hleft hright hcall) (hleft.perform call) (hright.perform call)
      rw [List.filter_cons_of_pos (by simp [hcall]), transcript_cons,
        List.filter_cons_of_pos (by simp [hcall]), transcript_cons, htranscript,
        h.result_eq hleft hright hcall]
      exact ⟨rfl, halike⟩
    · -- the run without raw writes stays where it is
      have hwrite : (left.perform call).state.Alike right :=
        ((hleft.effect call).alike hleft hcall).symm.trans h
      rw [List.filter_cons_of_neg (by simp [hcall]), transcript_cons,
        List.filter_cons_of_neg (by simp [hcall])]
      exact ih hwrite (hleft.perform call) hright

/-! ## Observations -/

theorem scan_eq (h : left.Alike right) (hleft : left.Sound) (hright : right.Sound) {σ : Type}
    (object : ObjectRef) (visit : σ → Nat → Nat → σ) (start : σ) :
    left.scan object visit start = right.scan object visit start := by
  rcases left.object_cases object with ⟨error, herror, -⟩ | ⟨entry, hentry, -⟩
  · have herror' := herror
    rw [h.object_eq] at herror'
    rw [scan, scan, layoutOf, layoutOf, herror, herror']
    rfl
  · have hentry' := hentry
    rw [h.objects_eq] at hentry'
    rw [hleft.scan_eq hentry, hright.scan_eq hentry']
    rw [List.foldl_ext _ _ start fun state offset hoffset => by
      rw [h.words hentry offset hoffset]]

theorem decode_eq (h : left.Alike right) (raw : Nat) : left.decode raw = right.decode raw := by
  rw [decode, decode, h.objects_eq]

theorem reference_eq (h : left.Alike right) (hleft : left.Sound) (hright : right.Sound)
    (object : ObjectRef) (name : String) :
    left.reference object name = right.reference object name := by
  rcases hleft.referencePlace_cases object name with
    ⟨error, herror, -⟩ | ⟨entry, slot, hentry, hslot, rfl, hkind, -⟩
  · rw [reference, reference, ← h.referencePlace_eq, herror]
    rfl
  · have hentry' := hentry
    rw [h.objects_eq] at hentry'
    have hoffset := (hleft.houses hentry).wellPlaced.mem_scanMap.2 ⟨slot, hslot, hkind, rfl⟩
    rw [hleft.reference_eq hentry hslot hkind, hright.reference_eq hentry' hslot hkind,
      h.words hentry slot.offset hoffset, h.decode_eq]

end Alike

end Heap

namespace Tracing

variable {left right : Heap}

theorem followAll_congr (h : left.Alike right) (tracing : Tracing) (words : List Nat) :
    tracing.followAll left words = tracing.followAll right words := by
  induction words generalizing tracing with
  | nil => rfl
  | cons word words ih =>
    have hfollow : tracing.follow left word = tracing.follow right word := by
      rw [follow, follow, h.decode_eq]
    rw [followAll, followAll, hfollow]
    rcases tracing.follow right word with error | next
    · rfl
    · exact ih next

theorem expand_congr (h : left.Alike right) (hleft : left.Sound) (hright : right.Sound)
    (tracing : Tracing) (object : ObjectRef) :
    tracing.expand left object = tracing.expand right object := by
  rw [expand, expand, h.scan_eq hleft hright]
  split
  · rfl
  · exact followAll_congr h tracing _

/-- The turns of two traces are the same, one by one. -/
theorem run_congr (h : left.Alike right) (hleft : left.Sound) (hright : right.Sound)
    (tracing : Tracing) : tracing.run left = tracing.run right := by
  induction hwork : tracing.work using Nat.strongRecOn generalizing tracing with
  | ind work ih =>
    rcases hpending : tracing.pending with _ | ⟨object, rest⟩
    · rw [run_of_pending_nil left hpending, run_of_pending_nil right hpending]
    · rw [run_of_pending_cons left hpending, run_of_pending_cons right hpending,
        expand_congr h hleft hright]
      rcases hexpand : expand right { tracing with pending := rest } object with error | next
      · rfl
      · exact ih next.work (hwork ▸ work_lt_of_expand hpending hexpand) next rfl

theorem discoverRoots_congr (h : left.Alike right) (tracing : Tracing) (roots : List ObjectRef) :
    tracing.discoverRoots left roots = tracing.discoverRoots right roots := by
  induction roots generalizing tracing with
  | nil => rfl
  | cons root roots ih =>
    rw [discoverRoots, discoverRoots, h.object_eq]
    split
    · rfl
    · exact ih (tracing.discover root)

end Tracing

namespace Heap

variable {left right : Heap}

theorem Alike.trace_eq (h : left.Alike right) (hleft : left.Sound) (hright : right.Sound)
    (roots : List ObjectRef) : left.trace roots = right.trace roots := by
  rw [trace, trace, Tracing.discoverRoots_congr h, h.objects_eq]
  split
  · rfl
  · rw [Tracing.run_congr h hleft hright]

/-- Two runs from the same new heap that differ in their raw writes only, be it in number, in place
or in content, give the same results to all other calls, and leave heaps that no scan, no trace and
no reference tells apart. -/
theorem opacity {config : HeapConfig} {platform : Platform} {heap : Heap}
    (hcreate : Heap.create config platform = .ok heap) {left right : List HeapCall}
    (hcalls : left.filter (fun call => !call.isRawWrite) =
      right.filter fun call => !call.isRawWrite) :
    (heap.transcript left).filter (fun entry => !entry.1.isRawWrite) =
        (heap.transcript right).filter (fun entry => !entry.1.isRawWrite) ∧
      (∀ (object : ObjectRef) (σ : Type) (visit : σ → Nat → Nat → σ) (start : σ),
        (heap.after left).scan object visit start = (heap.after right).scan object visit start) ∧
      (∀ roots, (heap.after left).trace roots = (heap.after right).trace roots) ∧
      ∀ object slot, (heap.after left).reference object slot =
        (heap.after right).reference object slot := by
  have hsound := (sound_create hcreate).1
  have hleft := ((Reachable.create hcreate).after left).sound.1
  have hright := ((Reachable.create hcreate).after right).sound.1
  obtain ⟨htranscript, halike⟩ := (Alike.refl heap).run hsound hsound left
  obtain ⟨htranscript', halike'⟩ := (Alike.refl heap).run hsound hsound right
  rw [hcalls] at htranscript halike
  have hends : (heap.after left).Alike (heap.after right) := halike.trans halike'.symm
  refine ⟨htranscript.trans htranscript'.symm, ?_, ?_, ?_⟩
  · intro object σ visit start
    exact hends.scan_eq hleft hright object visit start
  · exact hends.trace_eq hleft hright
  · exact hends.reference_eq hleft hright

theorem opacity_ring :
    Heap.create ⟨1024, 2⟩ .bits16 = .ok small ∧
      HeapCall.ring.filter (fun call => !call.isRawWrite) =
        HeapCall.taggedRing.filter (fun call => !call.isRawWrite) ∧
      (small.transcript HeapCall.ring).filter (fun entry => !entry.1.isRawWrite) =
        (small.transcript HeapCall.taggedRing).filter (fun entry => !entry.1.isRawWrite) ∧
      ring.trace [⟨1⟩] = (small.after HeapCall.taggedRing).trace [⟨1⟩] := by
  have hcalls : HeapCall.ring.filter (fun call => !call.isRawWrite) =
      HeapCall.taggedRing.filter (fun call => !call.isRawWrite) := rfl
  obtain ⟨htranscript, -, htrace, -⟩ := opacity create_small hcalls
  exact ⟨create_small, hcalls, htranscript, htrace [⟨1⟩]⟩

end Heap

end UnboxedRecords
