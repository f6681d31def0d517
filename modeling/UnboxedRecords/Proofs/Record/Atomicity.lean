import UnboxedRecords.Proofs.Record.Tightness
import UnboxedRecords.UnboxedType.Composition

/-!
# Refused slots

A call on a builder is refused for one of six reasons (`RecordBuilder.Refusal`), and some of them
come to light only after others were ruled out and the place of the slot was computed.  Whatever the
reason, the builder is left as it was, its cursor, its alignment and its table of slots included.
So the refused calls of a run can be left out of it: the others place their slots at the same
offsets, and the layout is the same (`RecordBuilder.refused_calls_leave_no_trace`).
-/

namespace UnboxedRecords

/-- The name of the slot that the call is to make. -/
def SlotCall.name : SlotCall → String
  | .addReference name | .embed name _ | .placeRegion name _ => name

@[simp] theorem SlotCall.slot_name (call : SlotCall) (platform : Platform) (offset : Nat) :
    (call.slot platform offset).name = call.name := by
  cases call <;> rfl

namespace RecordBuilder

/-- Why a call is refused, and with which error. -/
inductive Refusal (builder : RecordBuilder) : SlotCall → LayoutError → Prop
  /-- There is a slot of this name. -/
  | duplicate {call : SlotCall} (htaken : builder.hasSlot call.name = true) :
      Refusal builder call (.duplicateSlot call.name)
  /-- The type was composed for another platform. -/
  | foreign {name : String} {type : UnboxedType} (hplatform : type.platform ≠ builder.platform) :
      Refusal builder (.embed name type)
        (.platformMismatch name builder.platform.wordBytes type.platform.wordBytes)
  /-- The region holds something to be traced. -/
  | scannable {name : String} {region : Region} (hregion : region.isOpaque = false) :
      Refusal builder (.placeRegion name region) (.scannableRegion name)
  /-- No slot can be aligned like this. -/
  | unaligned {call : SlotCall} (hpow : isPowerOfTwo (call.align builder.platform) = false) :
      Refusal builder call (.overflow builder.name)
  /-- The slot would start beyond all addresses. -/
  | startOverflow {call : SlotCall}
      (hstart : alignUp? builder.cursor (call.align builder.platform) = none) :
      Refusal builder call (.overflow builder.name)
  /-- The slot would end beyond all addresses. -/
  | endOverflow {call : SlotCall} {offset : Nat}
      (hstart : alignUp? builder.cursor (call.align builder.platform) = some offset)
      (hend : addressLimit ≤ offset + call.size builder.platform) :
      Refusal builder call (.overflow builder.name)

variable {builder : RecordBuilder} {call : SlotCall} {error : LayoutError}

/-! ## One call -/

/-- The last step of a call refuses a slot for its name or for its place. -/
theorem refusal_of_reserve (call : SlotCall) {kind : SlotKind}
    (h : (builder.reserve call.name kind (call.size builder.platform)
      (call.align builder.platform)).result = .error error) : builder.Refusal call error := by
  rw [reserve] at h
  split at h
  · next htaken =>
    cases h
    exact .duplicate htaken
  · split at h
    · next hnone =>
      cases h
      exact .startOverflow hnone
    · next offset hstart =>
      split at h
      · cases h
      · next hend =>
        cases h
        exact .endOverflow hstart (Nat.le_of_not_lt hend)

/-- A region is checked before it is given a place. -/
theorem refusal_of_placeRegion {name : String} {region : Region}
    (h : (builder.placeRegion name region).result = .error error) :
    builder.Refusal (.placeRegion name region) error := by
  rw [placeRegion] at h
  split at h
  · next hregion =>
    cases h
    exact .scannable (by simpa using hregion)
  · split at h
    · next hpow =>
      cases h
      exact .unaligned (by simpa [SlotCall.align] using hpow)
    · exact refusal_of_reserve (.placeRegion name region) h

theorem refusal_of_error (h : (builder.call call).result = .error error) :
    builder.Refusal call error := by
  cases call with
  | addReference name => exact refusal_of_reserve (.addReference name) h
  | placeRegion name region => exact refusal_of_placeRegion h
  | embed name type =>
    rw [RecordBuilder.call, embed_eq] at h
    split at h
    · next hplatform =>
      cases h
      exact .foreign hplatform
    · split at h
      · next hpow =>
        cases h
        exact .unaligned (by simpa [SlotCall.align] using hpow)
      · exact refusal_of_reserve (.embed name type) h

/-- A call is refused exactly if there is a reason to refuse it. -/
theorem refused_iff : (∃ error, (builder.call call).result = .error error) ↔
    ∃ error, builder.Refusal call error := by
  constructor
  · rintro ⟨error, herror⟩
    exact ⟨error, refusal_of_error herror⟩
  · rintro ⟨error, hrefusal⟩
    rcases hresult : (builder.call call).result with error | offset
    · exact ⟨error, rfl⟩
    · -- an accepted call has passed each check that the reasons speak of
      have hcases := builder.call_cases call
      rw [hresult] at hcases
      generalize (builder.call call).state = next at hcases
      cases hcases with
      | placed offset hadmits =>
        obtain ⟨hfresh, hpow, hoffset, hfits⟩ := hadmits
        rw [SlotCall.slot_name] at hfresh
        rw [SlotCall.slot_offset] at hoffset hfits
        rw [SlotCall.slot_size] at hfits
        cases hrefusal with
        | duplicate htaken => simp [htaken] at hfresh
        | foreign hplatform => simp [RecordBuilder.call, embed, hplatform] at hresult
        | scannable hregion => simp [RecordBuilder.call, placeRegion, hregion] at hresult
        | unaligned hpow' => simp [hpow'] at hpow
        | startOverflow hstart => simp [hstart] at hoffset
        | endOverflow hstart hend =>
          obtain rfl := Option.some.inj (hstart.symm.trans hoffset)
          omega

/-- A refused call leaves no trace. -/
theorem state_call_of_error (h : (builder.call call).result = .error error) :
    (builder.call call).state = builder := by
  have hcases := builder.call_cases call
  rw [h] at hcases
  generalize (builder.call call).state = next at hcases ⊢
  cases hcases
  rfl

/-! ## A run of calls -/

/-- The calls of a run that are granted. -/
def granted (builder : RecordBuilder) (calls : List SlotCall) : List SlotCall :=
  ((builder.transcript calls).filter (·.2.isOk)).map Prod.fst

theorem granted_cons_of_ok {offset : Nat} (h : (builder.call call).result = .ok offset)
    (calls : List SlotCall) :
    builder.granted (call :: calls) = call :: (builder.call call).state.granted calls := by
  rw [granted, transcript_cons, h, List.filter_cons_of_pos rfl, List.map_cons, granted]

theorem granted_cons_of_error (h : (builder.call call).result = .error error)
    (calls : List SlotCall) :
    builder.granted (call :: calls) = builder.granted calls := by
  rw [granted, transcript_cons, h, List.filter_cons_of_neg Bool.false_ne_true,
    state_call_of_error h, granted]

/-- The granted calls alone place the same slots. -/
theorem after_granted (builder : RecordBuilder) (calls : List SlotCall) :
    builder.after (builder.granted calls) = builder.after calls := by
  induction calls generalizing builder with
  | nil => rfl
  | cons call calls ih =>
    rw [after_cons]
    rcases hresult : (builder.call call).result with error | offset
    · rw [granted_cons_of_error hresult, state_call_of_error hresult]
      exact ih builder
    · rw [granted_cons_of_ok hresult, after_cons]
      exact ih _

/-- The granted calls alone are granted again, and with the same offsets. -/
theorem transcript_granted (builder : RecordBuilder) (calls : List SlotCall) :
    builder.transcript (builder.granted calls) =
      (builder.transcript calls).filter (·.2.isOk) := by
  induction calls generalizing builder with
  | nil => rfl
  | cons call calls ih =>
    rw [transcript_cons builder call]
    rcases hresult : (builder.call call).result with error | offset
    · rw [granted_cons_of_error hresult, List.filter_cons_of_neg Bool.false_ne_true,
        state_call_of_error hresult]
      exact ih builder
    · rw [granted_cons_of_ok hresult, transcript_cons, hresult, List.filter_cons_of_pos rfl, ih]

/-- A call is refused exactly if one of its checks fails, and whichever it is, the builder is left
as it was.  So the calls of a run that are refused can be left out of it: those that are granted are
granted without them, at the same offsets, and the builder that is left behind is the same, as is
what it builds. -/
theorem refused_calls_leave_no_trace (builder : RecordBuilder) :
    (∀ call, ((∃ error, (builder.call call).result = .error error) ↔
        ∃ error, builder.Refusal call error) ∧
      ∀ error, (builder.call call).result = .error error →
        builder.Refusal call error ∧ (builder.call call).state = builder) ∧
    ∀ calls : List SlotCall,
      builder.transcript (builder.granted calls) = (builder.transcript calls).filter (·.2.isOk) ∧
        builder.after (builder.granted calls) = builder.after calls ∧
        (builder.after (builder.granted calls)).build = (builder.after calls).build := by
  refine ⟨fun call => ⟨refused_iff, fun error herror => ?_⟩, fun calls => ?_⟩
  · exact ⟨refusal_of_error herror, state_call_of_error herror⟩
  · have hafter := builder.after_granted calls
    exact ⟨builder.transcript_granted calls, hafter, congrArg build hafter⟩

/-- A run in which each check fails once, between three calls that are granted. -/
def stumblingCalls : List SlotCall :=
  [.addReference "next", .addReference "next", .embed "cell" (.empty "cell" .bits32),
    .placeRegion "open" ⟨4, 4, [], false⟩, .placeRegion "odd" ⟨4, 3, [], true⟩,
    .placeRegion "bulk" ⟨18446744073709551592, 8, [], true⟩,
    .placeRegion "far" ⟨0, 32, [], true⟩, .placeRegion "tail" ⟨16, 8, [], true⟩,
    .addReference "last"]

/-- The three calls alone. -/
def steadyCalls : List SlotCall :=
  [.addReference "next", .placeRegion "bulk" ⟨18446744073709551592, 8, [], true⟩,
    .addReference "last"]

theorem granted_stumblingCalls :
    ({ name := "vast", platform := .bits64 } : RecordBuilder).granted stumblingCalls =
      steadyCalls := rfl

theorem refused_calls_leave_no_trace_stumbling :
    ({ name := "vast", platform := .bits64 } : RecordBuilder).transcript steadyCalls =
        (({ name := "vast", platform := .bits64 } : RecordBuilder).transcript
          stumblingCalls).filter (·.2.isOk) ∧
      (({ name := "vast", platform := .bits64 } : RecordBuilder).after steadyCalls).build =
        (({ name := "vast", platform := .bits64 } : RecordBuilder).after stumblingCalls).build := by
  obtain ⟨-, hruns⟩ :=
    refused_calls_leave_no_trace { name := "vast", platform := .bits64 }
  obtain ⟨htranscript, -, hbuild⟩ := hruns stumblingCalls
  rw [granted_stumblingCalls] at htranscript hbuild
  exact ⟨htranscript, hbuild⟩

end RecordBuilder

end UnboxedRecords
