import UnboxedRecords.Proofs.Record.Placement

/-!
# The slots of a run

The slots of a record are those of the calls that were accepted while it was built
(`RecordBuilder.accepted`), in the order of the calls.  Each of them starts at a multiple of the
alignment that its call asked for, and so does every instance of the record, since the alignment of
the record is a multiple of all of them (`RecordBuilder.extends_after`).
-/

namespace UnboxedRecords

namespace RecordBuilder

/-- The calls of a run that are accepted, each with the offset of its slot. -/
def accepted (builder : RecordBuilder) : List SlotCall → List (SlotCall × Nat)
  | [] => []
  | call :: calls =>
    match (builder.call call).result with
    | .ok offset => (call, offset) :: (builder.call call).state.accepted calls
    | .error _ => (builder.call call).state.accepted calls

/-- `next` is the builder with the slots of the calls `placed` at its end, all of them aligned as
their calls asked for. -/
structure Extends (builder : RecordBuilder) (placed : List (SlotCall × Nat))
    (next : RecordBuilder) : Prop where
  platform_eq : next.platform = builder.platform
  slots_eq : next.slots = builder.slots ++ placed.map fun (call, offset) =>
    call.slot builder.platform offset
  powerOfTwo : isPowerOfTwo next.alignment = true
  alignment_dvd : builder.alignment ∣ next.alignment
  aligned : ∀ call offset, (call, offset) ∈ placed →
    call.align builder.platform ∣ offset ∧ call.align builder.platform ∣ next.alignment

variable {builder next : RecordBuilder}

theorem Extends.refl (h : isPowerOfTwo builder.alignment = true) : builder.Extends [] builder where
  platform_eq := rfl
  slots_eq := (List.append_nil _).symm
  powerOfTwo := h
  alignment_dvd := Nat.dvd_refl _
  aligned := by simp

/-- One slot before those of the calls that follow. -/
theorem Extends.cons {call : SlotCall} {offset : Nat} {placed : List (SlotCall × Nat)}
    (h : isPowerOfTwo builder.alignment = true)
    (hadmits : builder.Admits (call.slot builder.platform offset) (call.align builder.platform))
    (hnext : (builder.push (call.slot builder.platform offset)
      (call.align builder.platform)).Extends placed next) :
    builder.Extends ((call, offset) :: placed) next := by
  have hoffset : call.align builder.platform ∣ offset := by
    have hdvd := dvd_of_alignUp? hadmits.powerOfTwo hadmits.offset_eq
    rwa [SlotCall.slot_offset] at hdvd
  have hmax := isPowerOfTwo_max h hadmits.powerOfTwo
  exact {
    platform_eq := hnext.platform_eq
    slots_eq := by
      rw [hnext.slots_eq, push, List.append_assoc]
      rfl
    powerOfTwo := hnext.powerOfTwo
    alignment_dvd := Nat.dvd_trans (dvd_of_isPowerOfTwo h hmax (Nat.le_max_left _ _))
      hnext.alignment_dvd
    aligned := by
      intro other start hmem
      rcases List.mem_cons.1 hmem with heq | hmem
      · cases heq
        exact ⟨hoffset, Nat.dvd_trans (dvd_of_isPowerOfTwo hadmits.powerOfTwo hmax
          (Nat.le_max_right _ _)) hnext.alignment_dvd⟩
      · exact hnext.aligned other start hmem }

/-- A run adds the slots of the calls that are accepted, and nothing else. -/
theorem extends_after (h : isPowerOfTwo builder.alignment = true) (calls : List SlotCall) :
    builder.Extends (builder.accepted calls) (builder.after calls) := by
  induction calls generalizing builder with
  | nil => exact .refl h
  | cons call calls ih =>
    have hcases := builder.call_cases call
    rw [accepted, after_cons]
    generalize (builder.call call).result = result at hcases
    generalize (builder.call call).state = next at hcases
    cases hcases with
    | refused _ => exact ih h
    | placed offset hadmits => exact .cons h hadmits (ih (isPowerOfTwo_max h hadmits.powerOfTwo))

/-- A record has the slots of the calls that were accepted since its builder was new. -/
theorem extends_new (name : String) (platform : Platform) (calls : List SlotCall) :
    ({ name, platform } : RecordBuilder).Extends
      (({ name, platform } : RecordBuilder).accepted calls)
      (({ name, platform } : RecordBuilder).after calls) :=
  extends_after rfl calls

end RecordBuilder

end UnboxedRecords
