import UnboxedRecords.Record.Layout
import UnboxedRecords.UnboxedType.Region

/-!
# Building record layouts

A builder places slots one after the other, each at the next offset that its alignment permits. This
is where raw storage gets aligned: the types embedded in a record carry no padding of their own.  A
call that is refused leaves the builder as it was; for the common last step of all calls this is
`RecordBuilder.state_reserve_of_error`, and `RecordBuilder.reserve_eq_ok` says what a call that is
not refused leaves behind.

`RecordBuilder.build` rounds the size up to the alignment of the record and writes down which words
are references and which bytes are raw.
-/

namespace UnboxedRecords

/-- Why a slot or a record cannot be laid out. -/
inductive LayoutError where
  /-- Two slots have one name. -/
  | duplicateSlot (slot : String)
  /-- A region to be placed holds something that a scanner would have to trace. -/
  | scannableRegion (slot : String)
  /-- A type was composed for words of another size. -/
  | platformMismatch (slot : String) (expected found : Nat)
  /-- The record does not fit the range of addresses. -/
  | overflow (record : String)
deriving DecidableEq, Repr

/-- The wording of a slot that was made for words of another size. -/
def platformMismatchMessage (slot : String) (expected found : Nat) : String :=
  s!"slot '{slot}' was composed for {found}-byte words, record uses {expected}"

/-- The wording of a refused layout. -/
def LayoutError.message : LayoutError → String
  | duplicateSlot slot => s!"duplicate slot '{slot}'"
  | scannableRegion slot => s!"inline slot '{slot}' is not opaque to scanning"
  | platformMismatch slot expected found => platformMismatchMessage slot expected found
  | overflow record => s!"layout of '{record}' overflows the address range"

/-- A record layout in the making. -/
structure RecordBuilder where
  /-- The name of the kind of object. -/
  name : String
  /-- The platform for which the record is laid out. -/
  platform : Platform
  /-- The slots placed so far, in the order of their placement. -/
  slots : List Slot := []
  /-- The end of the last slot. -/
  cursor : Nat := 0
  /-- The alignment of the most aligned slot so far. -/
  alignment : Nat := 1

namespace RecordBuilder

/-- Whether there is a slot called `name`. -/
def hasSlot (builder : RecordBuilder) (name : String) : Bool :=
  builder.slots.any (·.name == name)

/-- Place a slot at the next multiple of `align`, a power of two. -/
def reserve (builder : RecordBuilder) (name : String) (kind : SlotKind) (size align : Nat) :
    Outcome RecordBuilder LayoutError Nat :=
  if builder.hasSlot name then
    .fail builder (.duplicateSlot name)
  else
    match alignUp? builder.cursor align with
    | none => .fail builder (.overflow builder.name)
    | some offset =>
      if offset + size < addressLimit then
        .ok { builder with
            slots := builder.slots ++ [⟨name, kind, offset, size⟩]
            cursor := offset + size
            alignment := max builder.alignment align }
          offset
      else
        .fail builder (.overflow builder.name)

/-- A refused slot leaves no trace. -/
theorem state_reserve_of_error {builder : RecordBuilder} {name : String} {kind : SlotKind}
    {size align : Nat} {error : LayoutError}
    (h : (builder.reserve name kind size align).result = .error error) :
    (builder.reserve name kind size align).state = builder := by
  unfold reserve at h ⊢
  split
  · rfl
  · split
    · rfl
    · split
      · simp_all
      · rfl

/-- Where a slot goes and what is left behind when it is placed. -/
theorem reserve_eq_ok {builder : RecordBuilder} {name : String} {kind : SlotKind}
    {size align offset : Nat} (h : (builder.reserve name kind size align).result = .ok offset) :
    builder.hasSlot name = false ∧ alignUp? builder.cursor align = some offset ∧
      offset + size < addressLimit ∧
      (builder.reserve name kind size align).state =
        { builder with
          slots := builder.slots ++ [⟨name, kind, offset, size⟩]
          cursor := offset + size
          alignment := max builder.alignment align } := by
  unfold reserve at h ⊢
  split at h
  · simp at h
  · next hname =>
    split at h
    · simp at h
    · next start halign =>
      split at h
      · next hfit =>
        simp only [Outcome.result_ok, Except.ok.injEq] at h
        subst h
        refine ⟨by simpa using hname, halign, hfit, ?_⟩
        simp [hname, hfit]
      · simp at h

/-- Add a reference slot, one word wide and aligned to words.  The result is its offset. -/
def addReference (builder : RecordBuilder) (name : String) :
    Outcome RecordBuilder LayoutError Nat :=
  builder.reserve name .reference builder.platform.wordBytes builder.platform.wordBytes

/-- Place a region of raw storage.  A region that is not opaque is refused here, before any instance
of the record can exist, so that no scanner will ever meet one. -/
def placeRegion (builder : RecordBuilder) (name : String) (region : Region) :
    Outcome RecordBuilder LayoutError Nat :=
  if !region.isOpaque then
    .fail builder (.scannableRegion name)
  else if !isPowerOfTwo region.placedAlignment then
    .fail builder (.overflow builder.name)
  else
    builder.reserve name .raw region.byteSize region.placedAlignment

/-- The builder with another kind for the slot called `name`. -/
def setKind (builder : RecordBuilder) (name : String) (kind : SlotKind) : RecordBuilder :=
  { builder with
    slots := builder.slots.map fun slot => if slot.name = name then { slot with kind } else slot }

/-- Embed an unboxed type. -/
def embed (builder : RecordBuilder) (name : String) (type : UnboxedType) :
    Outcome RecordBuilder LayoutError Nat :=
  if type.platform ≠ builder.platform then
    .fail builder
      (.platformMismatch name builder.platform.wordBytes type.platform.wordBytes)
  else
    (builder.placeRegion name type.region).andThen fun builder offset =>
      .ok (builder.setKind name (.embedded type)) offset

/-- The layout of the slots placed so far. -/
def build (builder : RecordBuilder) : Logged LayoutError RecordLayout :=
  match alignUp? builder.cursor builder.alignment with
  | none => .fail (.overflow builder.name)
  | some size =>
    if builder.platform.maxWord < size then
      .fail (.overflow builder.name)
    else
      let layout : RecordLayout := {
        name := builder.name
        platform := builder.platform
        slots := builder.slots
        size := size
        alignment := builder.alignment
        scanMap := (builder.slots.filter (·.kind = .reference)).map (·.offset)
        rawSpans := (builder.slots.filter fun slot => slot.kind.isRaw && 0 < slot.size).map
          (·.span) }
      .ok layout [.layoutBuilt layout.summary]

end RecordBuilder

end UnboxedRecords
