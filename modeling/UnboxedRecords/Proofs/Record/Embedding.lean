import Mathlib.Data.List.Forall2
import UnboxedRecords.Proofs.Record.Tightness
import UnboxedRecords.Proofs.UnboxedType.Alignment

/-!
# Embedding a type or placing its region

There are two ways to put the storage of an unboxed type into a record.  The type can be embedded,
in which case the builder knows it, or it can be placed as a region of which nothing more is known.
The first is made of the second: the slot is added as plain raw storage and gets its kind
afterwards.  This comes to the same as one reservation for a slot of the right kind
(`RecordBuilder.embed_eq`).

A composed type passes both checks that a region may fail, so that the two calls part in nothing but
the kind of the slot (`RecordBuilder.Twins`).  Nothing that a builder does later depends on more
than whether a slot is raw: `RecordBuilder.untyped` is the builder with all types of slots
forgotten, and builders that are equal then stay so, give the same results and build the same
layouts up to the types (`RecordBuilder.embeds_like_region`).
-/

namespace UnboxedRecords

/-- The kind of the slot with the type of its bytes forgotten. -/
def SlotKind.untyped : SlotKind → SlotKind
  | .reference => .reference
  | .raw | .embedded _ => .raw

@[simp] theorem SlotKind.isRaw_untyped (kind : SlotKind) : kind.untyped.isRaw = kind.isRaw := by
  cases kind <;> rfl

@[simp] theorem SlotKind.untyped_eq_reference {kind : SlotKind} :
    kind.untyped = .reference ↔ kind = .reference := by
  cases kind <;> simp [untyped]

/-- The slot with the type of its bytes forgotten. -/
def Slot.untyped (slot : Slot) : Slot := { slot with kind := slot.kind.untyped }

@[simp] theorem Slot.span_untyped (slot : Slot) : slot.untyped.span = slot.span := rfl

/-- The layout with the types of its slots forgotten. -/
def RecordLayout.untyped (layout : RecordLayout) : RecordLayout :=
  { layout with slots := layout.slots.map Slot.untyped }

/-- `other` is the call `call`, or else it places the region of the type that `call` embeds, a
composed type for the platform `platform`. -/
inductive SlotCall.Replaced (platform : Platform) : SlotCall → SlotCall → Prop
  | same (call : SlotCall) : Replaced platform call call
  | region {name : String} {type : UnboxedType} (composed : type.Composed)
      (hplatform : type.platform = platform) :
      Replaced platform (.embed name type) (.placeRegion name type.region)

namespace RecordBuilder

/-- The builder with the types of its slots forgotten. -/
def untyped (builder : RecordBuilder) : RecordBuilder :=
  { builder with slots := builder.slots.map Slot.untyped }

/-- How it ends to embed a type under a name and to place its region under the name instead: with
one result and with two builders, which are the same or differ in the kind of the new slot. -/
inductive Twins (builder : RecordBuilder) (name : String) (type : UnboxedType) :
    Except LayoutError Nat → RecordBuilder → RecordBuilder → Prop
  | duplicate (htaken : builder.hasSlot name = true) :
      Twins builder name type (.error (.duplicateSlot name)) builder builder
  | overflow (hnone : ∀ offset,
      alignUp? builder.cursor type.region.placedAlignment = some offset →
        addressLimit ≤ offset + type.byteSize) :
      Twins builder name type (.error (.overflow builder.name)) builder builder
  | placed {offset : Nat}
      (hadmits : builder.Admits ⟨name, .raw, offset, type.byteSize⟩ type.region.placedAlignment) :
      Twins builder name type (.ok offset)
        (builder.push ⟨name, .embedded type, offset, type.byteSize⟩ type.region.placedAlignment)
        (builder.push ⟨name, .raw, offset, type.byteSize⟩ type.region.placedAlignment)

variable {builder left right : RecordBuilder} {call other : SlotCall} {name : String}
  {type : UnboxedType}

/-! ## One call -/

/-- A type that some composition made passes the checks of a region. -/
theorem region_checks (h : type.Composed) :
    type.region.isOpaque = true ∧ isPowerOfTwo type.region.placedAlignment = true :=
  ⟨type.isOpaque_eq_true, isPowerOfTwo_max h.isPowerOfTwo_alignment rfl⟩

/-- The two calls end alike. -/
theorem twins (h : type.Composed) (hplatform : type.platform = builder.platform) (name : String) :
    (builder.embed name type).result = (builder.placeRegion name type.region).result ∧
      builder.Twins name type (builder.embed name type).result (builder.embed name type).state
        (builder.placeRegion name type.region).state := by
  obtain ⟨hregion, hpow⟩ := region_checks h
  rw [embed_eq, placeRegion, hregion, hpow, Bool.not_true, if_neg (not_not_intro hplatform),
    if_neg Bool.false_ne_true, if_neg Bool.false_ne_true, if_neg Bool.false_ne_true]
  unfold reserve
  split
  · next htaken => exact ⟨rfl, .duplicate htaken⟩
  · next hfresh =>
    split
    · next hnone =>
      refine ⟨rfl, .overflow fun offset hoffset => ?_⟩
      rw [hnone] at hoffset
      cases hoffset
    · next offset hoffset =>
      have hsize : type.region.byteSize = type.byteSize := rfl
      rw [hsize]
      split
      · next hfits => exact ⟨rfl, .placed ⟨by simpa using hfresh, hpow, hoffset, hfits⟩⟩
      · next hfits =>
        refine ⟨rfl, .overflow fun other hother => ?_⟩
        obtain rfl := Option.some.inj (hoffset.symm.trans hother)
        exact Nat.le_of_not_lt hfits

/-! ## Builders with their types forgotten -/

@[simp] theorem name_untyped (builder : RecordBuilder) : builder.untyped.name = builder.name := rfl

@[simp] theorem cursor_untyped (builder : RecordBuilder) :
    builder.untyped.cursor = builder.cursor := rfl

@[simp] theorem alignment_untyped (builder : RecordBuilder) :
    builder.untyped.alignment = builder.alignment := rfl

@[simp] theorem hasSlot_untyped (builder : RecordBuilder) (name : String) :
    builder.untyped.hasSlot name = builder.hasSlot name := by
  rw [hasSlot, hasSlot, untyped, List.any_map]
  rfl

/-- A reservation takes no account of types. -/
theorem reserve_untyped (builder : RecordBuilder) (name : String) (kind : SlotKind)
    (size align : Nat) :
    (builder.untyped.reserve name kind.untyped size align).result =
        (builder.reserve name kind size align).result ∧
      (builder.untyped.reserve name kind.untyped size align).state =
        (builder.reserve name kind size align).state.untyped := by
  unfold reserve
  simp only [hasSlot_untyped, cursor_untyped, name_untyped]
  split
  · exact ⟨rfl, rfl⟩
  · split
    · exact ⟨rfl, rfl⟩
    · split
      · exact ⟨rfl, by simp [untyped, Slot.untyped]⟩
      · exact ⟨rfl, rfl⟩

/-- What is read off the slots without regard to their types. -/
theorem filter_untyped {α : Type} {p : Slot → Bool} {f : Slot → α}
    (hp : ∀ slot : Slot, p slot.untyped = p slot) (hf : ∀ slot : Slot, f slot.untyped = f slot) :
    (builder.untyped.slots.filter p).map f = (builder.slots.filter p).map f := by
  rw [untyped, List.filter_map, List.map_map, show p ∘ Slot.untyped = p from funext hp,
    show f ∘ Slot.untyped = f from funext hf]

theorem build_untyped (builder : RecordBuilder) :
    builder.untyped.build.result = builder.build.result.map RecordLayout.untyped := by
  unfold build
  rw [filter_untyped (fun slot => decide_eq_decide.2 SlotKind.untyped_eq_reference) fun _ => rfl,
    filter_untyped (fun slot => congrArg (· && decide (0 < slot.size)) slot.kind.isRaw_untyped)
      Slot.span_untyped, cursor_untyped, alignment_untyped]
  rcases alignUp? builder.cursor builder.alignment with _ | size
  · rfl
  · dsimp only
    by_cases hmax : builder.platform.maxWord < size
    · rw [if_pos hmax, if_pos (show builder.untyped.platform.maxWord < size from hmax)]
      rfl
    · rw [if_neg hmax, if_neg (show ¬ builder.untyped.platform.maxWord < size from hmax)]
      rfl

/-! ## Two builders that differ in types alone -/

theorem name_and_platform_eq (h : left.untyped = right.untyped) :
    left.name = right.name ∧ left.platform = right.platform := by
  have hname := congrArg name h
  have hplatform := congrArg platform h
  exact ⟨hname, hplatform⟩

theorem reserve_congr (h : left.untyped = right.untyped) (name : String) {kind kind' : SlotKind}
    (hkind : kind.untyped = kind'.untyped) (size align : Nat) :
    (left.reserve name kind size align).result = (right.reserve name kind' size align).result ∧
      (left.reserve name kind size align).state.untyped =
        (right.reserve name kind' size align).state.untyped := by
  obtain ⟨hresult, hstate⟩ := left.reserve_untyped name kind size align
  obtain ⟨hresult', hstate'⟩ := right.reserve_untyped name kind' size align
  rw [h, hkind] at hresult hstate
  exact ⟨hresult.symm.trans hresult', hstate.symm.trans hstate'⟩

theorem placeRegion_congr (h : left.untyped = right.untyped) (name : String) (region : Region) :
    (left.placeRegion name region).result = (right.placeRegion name region).result ∧
      (left.placeRegion name region).state.untyped =
        (right.placeRegion name region).state.untyped := by
  obtain ⟨hname, -⟩ := name_and_platform_eq h
  unfold placeRegion
  rw [hname]
  split
  · exact ⟨rfl, h⟩
  · split
    · exact ⟨rfl, h⟩
    · exact reserve_congr h name rfl _ _

/-- A call and what may stand in its place have the same result, and the builders that they leave
behind differ in types alone, as those before do. -/
theorem call_congr (h : left.untyped = right.untyped)
    (hcall : call.Replaced left.platform other) :
    (left.call call).result = (right.call other).result ∧
      (left.call call).state.untyped = (right.call other).state.untyped := by
  obtain ⟨hname, hplatform⟩ := name_and_platform_eq h
  cases hcall with
  | same call =>
    cases call with
    | addReference name =>
      rw [RecordBuilder.call, RecordBuilder.call, addReference, addReference, hplatform]
      exact reserve_congr h name rfl _ _
    | placeRegion name region => exact placeRegion_congr h name region
    | embed name type =>
      rw [RecordBuilder.call, RecordBuilder.call, embed_eq, embed_eq, hplatform, hname]
      split
      · exact ⟨rfl, h⟩
      · split
        · exact ⟨rfl, h⟩
        · exact reserve_congr h name rfl _ _
  | @region name type htype hown =>
    obtain ⟨hregion, hpow⟩ := region_checks htype
    rw [RecordBuilder.call, RecordBuilder.call, embed_eq, placeRegion, hregion, hpow, Bool.not_true,
      if_neg (not_not_intro hown), if_neg Bool.false_ne_true, if_neg Bool.false_ne_true,
      if_neg Bool.false_ne_true]
    have hkind : (SlotKind.embedded type).untyped = SlotKind.raw.untyped := rfl
    exact reserve_congr h name hkind _ _

theorem platform_call (builder : RecordBuilder) (call : SlotCall) :
    (builder.call call).state.platform = builder.platform := by
  have hcases := builder.call_cases call
  generalize (builder.call call).result = result at hcases
  generalize (builder.call call).state = next at hcases ⊢
  cases hcases with
  | refused _ => rfl
  | placed _ _ => rfl

/-- Two runs in which some calls are replaced have the same results. -/
theorem after_congr {platform : Platform} {calls calls' : List SlotCall}
    (hcalls : List.Forall₂ (SlotCall.Replaced platform) calls calls')
    (hplatform : left.platform = platform) (h : left.untyped = right.untyped) :
    (left.transcript calls).map Prod.snd = (right.transcript calls').map Prod.snd ∧
      (left.after calls).untyped = (right.after calls').untyped := by
  induction hcalls generalizing left right with
  | nil => exact ⟨rfl, h⟩
  | cons hcall _ ih =>
    subst hplatform
    obtain ⟨hresult, hstate⟩ := call_congr h hcall
    obtain ⟨hresults, hstates⟩ := ih (left.platform_call _) hstate
    rw [transcript_cons, transcript_cons, List.map_cons, List.map_cons, hresult, hresults]
    exact ⟨rfl, hstates⟩

/-- Whatever a builder has been through, embedding a type of its platform that some composition made
and placing the region of the type under the same name have the same result, and leave builders that
differ in the kind of the new slot at most; the region is never refused for what it holds or for its
alignment.  So in a run of calls any such types can be placed instead of embedded: all calls have
the same results, and a layout is built from one run exactly if it is from the other, with the same
size and alignment, the same names, offsets and sizes of slots, the same scan map and the same raw
ranges. -/
theorem embeds_like_region (builder : RecordBuilder) :
    (∀ name type, type.Composed → type.platform = builder.platform →
      (builder.embed name type).result = (builder.placeRegion name type.region).result ∧
        builder.Twins name type (builder.embed name type).result (builder.embed name type).state
          (builder.placeRegion name type.region).state ∧
        type.region.isOpaque = true ∧ isPowerOfTwo type.region.placedAlignment = true) ∧
    ∀ calls calls', List.Forall₂ (SlotCall.Replaced builder.platform) calls calls' →
      (builder.transcript calls).map Prod.snd = (builder.transcript calls').map Prod.snd ∧
        (∀ error, (builder.after calls).build.result = .error error →
          (builder.after calls').build.result = .error error) ∧
        ∀ layout, (builder.after calls).build.result = .ok layout →
          ∃ layout', (builder.after calls').build.result = .ok layout' ∧
            layout'.size = layout.size ∧ layout'.alignment = layout.alignment ∧
            layout'.slots.map Slot.untyped = layout.slots.map Slot.untyped ∧
            layout'.scanMap = layout.scanMap ∧ layout'.rawSpans = layout.rawSpans := by
  refine ⟨fun name type htype hplatform => ?_, fun calls calls' hcalls => ?_⟩
  · obtain ⟨hresult, htwins⟩ := twins htype hplatform name
    exact ⟨hresult, htwins, region_checks htype⟩
  · obtain ⟨hresults, hstates⟩ := after_congr hcalls rfl (rfl : builder.untyped = builder.untyped)
    have hbuild : (builder.after calls).build.result.map RecordLayout.untyped =
        (builder.after calls').build.result.map RecordLayout.untyped := by
      rw [← build_untyped, ← build_untyped, hstates]
    refine ⟨hresults, fun error herror => ?_, fun layout hlayout => ?_⟩
    · rw [herror] at hbuild
      rcases hother : (builder.after calls').build.result with error' | layout'
      · rw [hother] at hbuild
        cases hbuild
        rfl
      · rw [hother] at hbuild
        cases hbuild
    · rw [hlayout] at hbuild
      rcases hother : (builder.after calls').build.result with error' | layout'
      · rw [hother] at hbuild
        cases hbuild
      · rw [hother] at hbuild
        have hsame : layout'.untyped = layout.untyped := (Except.ok.inj hbuild).symm
        have hsize := congrArg RecordLayout.size hsame
        have halignment := congrArg RecordLayout.alignment hsame
        have hslots := congrArg RecordLayout.slots hsame
        have hscan := congrArg RecordLayout.scanMap hsame
        have hspans := congrArg RecordLayout.rawSpans hsame
        exact ⟨layout', rfl, hsize, halignment, hslots, hscan, hspans⟩

/-- Two pairs that are embedded, with an attempt to embed the first again, and one to embed a type
for words of another size. -/
def pairCalls : List SlotCall :=
  [.addReference "next", .embed "left" .pair, .embed "left" .pair,
    .embed "far" (.empty "far" .bits32), .embed "right" .pair]

/-- The same calls, with the region of a pair in place of the first one. -/
def halfTypedCalls : List SlotCall :=
  [.addReference "next", .placeRegion "left" UnboxedType.pair.region,
    .placeRegion "left" UnboxedType.pair.region, .embed "far" (.empty "far" .bits32),
    .embed "right" .pair]

theorem replaced_pairCalls :
    List.Forall₂ (SlotCall.Replaced .bits16) pairCalls halfTypedCalls := by
  have hregion : SlotCall.Replaced .bits16 (.embed "left" .pair)
      (.placeRegion "left" UnboxedType.pair.region) := .region UnboxedType.composed_pair rfl
  exact .cons (.same _) (.cons hregion (.cons hregion (.cons (.same _) (.cons (.same _) .nil))))

/-- The layout of the two pairs. -/
def pairLayout : RecordLayout where
  name := "pairs"
  platform := .bits16
  slots := [⟨"next", .reference, 0, 2⟩, ⟨"left", .embedded .pair, 2, 11⟩,
    ⟨"right", .embedded .pair, 14, 11⟩]
  size := 26
  alignment := 2
  scanMap := [0]
  rawSpans := [⟨2, 13⟩, ⟨14, 25⟩]

/-- A builder of pairs that has no slots yet. -/
def pairs : RecordBuilder := { name := "pairs", platform := .bits16 }

theorem build_pairCalls : (pairs.after pairCalls).build.result = .ok pairLayout := rfl

theorem embeds_like_region_pair :
    UnboxedType.pair.Composed ∧ UnboxedType.pair.platform = pairs.platform ∧
      (pairs.embed "left" .pair).result =
        (pairs.placeRegion "left" UnboxedType.pair.region).result ∧
      List.Forall₂ (SlotCall.Replaced pairs.platform) pairCalls halfTypedCalls ∧
      (pairs.after pairCalls).build.result = .ok pairLayout ∧
      ∃ layout, (pairs.after halfTypedCalls).build.result = .ok layout ∧ layout.size = 26 ∧
        layout.scanMap = [0] ∧ layout.rawSpans = [⟨2, 13⟩, ⟨14, 25⟩] := by
  obtain ⟨hcalls, hruns⟩ := pairs.embeds_like_region
  obtain ⟨hresult, -⟩ := hcalls "left" .pair UnboxedType.composed_pair rfl
  obtain ⟨-, -, hlayouts⟩ := hruns _ _ replaced_pairCalls
  obtain ⟨layout, hlayout, hsize, -, -, hscan, hspans⟩ := hlayouts _ build_pairCalls
  exact ⟨UnboxedType.composed_pair, rfl, hresult, replaced_pairCalls, build_pairCalls, layout,
    hlayout, hsize, hscan, hspans⟩

end RecordBuilder

end UnboxedRecords
