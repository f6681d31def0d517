import Mathlib.Data.List.Induction
import UnboxedRecords.Record.Packing
import UnboxedRecords.Proofs.Record.Tightness

/-!
# Packing and building

A packing and a builder of a record both put regions one behind the other.  They round differently,
the packing by a division in exact numbers and the builder by a mask on 64-bit numbers, and only the
builder keeps track of names, of alignments that are no powers of two and of the end of all
addresses.  Where none of these comes into play (`Packing.Placeable`), they stay in step:
`Packing.Mirrors` is what holds between the two after any run of regions, and
`Packing.places_like_builder` says what it amounts to.
-/

namespace UnboxedRecords

/-- The calls that place the regions in a record, each under its name. -/
def regionCalls (regions : List (String × Region)) : List SlotCall :=
  regions.map fun (name, region) => .placeRegion name region

@[simp] theorem regionCalls_append (earlier later : List (String × Region)) :
    regionCalls (earlier ++ later) = regionCalls earlier ++ regionCalls later :=
  List.map_append

namespace RecordBuilder

/-- The end of the last slot, if there is one. -/
def extent (builder : RecordBuilder) : Nat :=
  (builder.slots.getLast?.map (·.span.stop)).getD 0

/-- The cursor is always at the end of the last slot, and that is an address. -/
theorem cursor_after (name : String) (platform : Platform) (calls : List SlotCall) :
    (({ name, platform } : RecordBuilder).after calls).cursor =
        (({ name, platform } : RecordBuilder).after calls).extent ∧
      (({ name, platform } : RecordBuilder).after calls).cursor < addressLimit := by
  refine after_induction
    (motive := fun next => next.cursor = next.extent ∧ next.cursor < addressLimit)
    (fun builder call offset _ hadmits => ⟨?_, hadmits.fits⟩) calls
    ⟨rfl, Nat.two_pow_pos 64⟩
  rw [extent, push, List.getLast?_concat]
  rfl

end RecordBuilder

namespace Packing

/-- The packing after a run of regions.  A refused region does not end the run. -/
def after (packing : Packing) (regions : List (String × Region)) : Packing :=
  regions.foldl (fun packing (name, region) => (packing.place name region).state) packing

theorem after_append (packing : Packing) (earlier later : List (String × Region)) :
    packing.after (earlier ++ later) = (packing.after earlier).after later :=
  List.foldl_append

/-- The packing with one more region at its end. -/
def push (packing : Packing) (placement : Placement) : Packing where
  used := placement.offset + placement.size
  placements := packing.placements ++ [placement]

/-- The largest alignment of a region that was placed. -/
def alignment (packing : Packing) : Nat := (packing.placements.map (·.alignment)).foldl max 1

/-- Regions of different names, with alignments that are nought or powers of two, which a new record
has the room for: none of them overflows when they are placed in it one after the other. -/
structure Placeable (name : String) (platform : Platform) (regions : List (String × Region)) :
    Prop where
  names : (regions.map Prod.fst).Nodup
  aligned : ∀ entry ∈ regions, entry.2.alignment = 0 ∨ ∃ k, entry.2.alignment = 1 <<< k
  fits : ∀ entry ∈ ({ name, platform } : RecordBuilder).transcript (regionCalls regions),
    ∀ record, entry.2 ≠ .error (.overflow record)

/-- The packing and the builder hold regions of the same names at the same places, the largest
alignments are the same, and the next region comes behind the same byte. -/
structure Mirrors (packing : Packing) (builder : RecordBuilder) : Prop where
  used_eq : packing.used = builder.cursor
  places_eq : packing.placements.map (fun placement =>
      (placement.name, placement.offset, placement.size)) =
    builder.slots.map fun slot => (slot.name, slot.offset, slot.size)
  alignment_eq : packing.alignment = builder.alignment

/-- How it ends to place a region with both: it is refused for what it holds and nothing changes, or
it gets the same offset from both. -/
inductive Agree (packing : Packing) (builder : RecordBuilder) (name : String) (region : Region) :
    Prop
  | refused (hregion : region.isOpaque = false)
      (hpacking : packing.place name region = .fail packing ⟨name⟩)
      (hbuilder : builder.placeRegion name region = .fail builder (.scannableRegion name))
  | placed {offset : Nat} (hregion : region.isOpaque = true)
      (hpacking : packing.place name region =
        .ok (packing.push ⟨name, offset, region.byteSize, region.placedAlignment⟩) offset)
      (hresult : (builder.placeRegion name region).result = .ok offset)
      (hstate : (builder.placeRegion name region).state =
        builder.push ⟨name, .raw, offset, region.byteSize⟩ region.placedAlignment)
      (hfits : offset + region.byteSize < addressLimit)

variable {packing : Packing} {builder : RecordBuilder} {name : String} {platform : Platform}
  {region : Region} {earlier later regions : List (String × Region)}

/-! ## One region -/

theorem place_of_scannable (h : region.isOpaque = false) (packing : Packing) (name : String) :
    packing.place name region = .fail packing ⟨name⟩ := by
  rw [place, h]
  rfl

theorem place_of_raw (h : region.isOpaque = true) (packing : Packing) (name : String) :
    packing.place name region =
      .ok (packing.push ⟨name, alignUp packing.used region.placedAlignment, region.byteSize,
        region.placedAlignment⟩) (alignUp packing.used region.placedAlignment) := by
  rw [place, h]
  rfl

theorem isPowerOfTwo_placedAlignment
    (h : region.alignment = 0 ∨ ∃ k, region.alignment = 1 <<< k) :
    isPowerOfTwo region.placedAlignment = true := by
  rw [Region.placedAlignment]
  rcases h with hzero | ⟨k, hk⟩
  · rw [hzero]
    rfl
  · rw [hk]
    exact isPowerOfTwo_max (isPowerOfTwo_one_shiftLeft k) rfl

/-- A packing and a builder that are in step agree on the next region. -/
theorem Mirrors.agree (h : packing.Mirrors builder)
    (hfresh : name ∉ builder.slots.map (·.name))
    (hpow : isPowerOfTwo region.placedAlignment = true)
    (hfits : ∀ record, (builder.placeRegion name region).result ≠ .error (.overflow record)) :
    packing.Agree builder name region := by
  cases hregion : region.isOpaque with
  | false =>
    refine .refused hregion (place_of_scannable hregion packing name) ?_
    rw [RecordBuilder.placeRegion, hregion]
    rfl
  | true =>
    rcases builder.placeRegion_cases name region with
      ⟨error, hresult, -⟩ | ⟨offset, hresult, hadmits, hstate⟩
    · -- nothing but the room for the region is left to be wrong with it
      have hsettles := RecordBuilder.placeRegion_settles hfresh hregion
      rw [hresult] at hsettles
      cases hsettles
      exact absurd hresult (hfits builder.name)
    · obtain ⟨hoffset, -⟩ := eq_alignUp_of_alignUp? hpow hadmits.offset_eq
      refine .placed hregion ?_ hresult hstate hadmits.fits
      rw [place_of_raw hregion, h.used_eq, ← hoffset]

/-- A region on which they agree leaves them in step. -/
theorem Mirrors.step (h : packing.Mirrors builder) (hagree : packing.Agree builder name region) :
    (packing.place name region).state.Mirrors (builder.placeRegion name region).state := by
  cases hagree with
  | refused _ hpacking hbuilder =>
    rw [hpacking, hbuilder]
    exact h
  | placed _ hpacking _ hstate _ =>
    rw [hpacking, hstate]
    refine ⟨rfl, ?_, ?_⟩
    · simp only [Outcome.state_ok, push, RecordBuilder.push, List.map_append, List.map_singleton,
        h.places_eq]
    · simp only [Outcome.state_ok, push, alignment, RecordBuilder.push, List.map_append,
        List.map_singleton, List.foldl_append, List.foldl_cons, List.foldl_nil, ← h.alignment_eq]

/-! ## A run of regions -/

/-- A packing lists the regions that are raw storage, in the order in which they came. -/
theorem names_after (packing : Packing) (regions : List (String × Region)) :
    (packing.after regions).placements.map (·.name) =
      packing.placements.map (·.name) ++ (regions.filter (·.2.isOpaque)).map Prod.fst := by
  induction regions generalizing packing with
  | nil => exact (List.append_nil _).symm
  | cons entry regions ih =>
    obtain ⟨name, region⟩ := entry
    refine (ih (packing.place name region).state).trans ?_
    cases hregion : region.isOpaque with
    | false =>
      rw [place_of_scannable hregion, List.filter_cons_of_neg (by simpa using hregion)]
      rfl
    | true =>
      rw [place_of_raw hregion, List.filter_cons_of_pos (by simpa using hregion)]
      simp [push]

theorem Placeable.left (h : Placeable name platform (earlier ++ later)) :
    Placeable name platform earlier where
  names := by
    have hnames := h.names
    rw [List.map_append] at hnames
    exact hnames.of_append_left
  aligned entry hentry := h.aligned entry (List.mem_append_left later hentry)
  fits entry hentry := by
    refine h.fits entry ?_
    rw [regionCalls_append, RecordBuilder.transcript_append]
    exact List.mem_append_left _ hentry

/-- A packing and a builder that are in step after all earlier regions agree on the next one. -/
theorem Placeable.agree {slot : String}
    (h : Placeable name platform (earlier ++ [(slot, region)]))
    (hmirrors : (({} : Packing).after earlier).Mirrors
      (({ name, platform } : RecordBuilder).after (regionCalls earlier))) :
    (({} : Packing).after earlier).Agree
      (({ name, platform } : RecordBuilder).after (regionCalls earlier)) slot region := by
  have hlast : (slot, region) ∈ earlier ++ [(slot, region)] := by simp
  refine hmirrors.agree ?_ (isPowerOfTwo_placedAlignment (h.aligned _ hlast)) ?_
  · -- the builder has the names that the packing has, and those are names of earlier regions
    have hnames := congrArg (List.map Prod.fst) hmirrors.places_eq
    rw [List.map_map, List.map_map] at hnames
    have hslots : (({ name, platform } : RecordBuilder).after
        (regionCalls earlier)).slots.map (·.name) =
          (earlier.filter (·.2.isOpaque)).map Prod.fst := hnames.symm.trans (names_after {} earlier)
    rw [hslots]
    intro hmem
    have hearlier : slot ∈ earlier.map Prod.fst :=
      (List.filter_sublist.map Prod.fst).subset hmem
    have hnodup := h.names
    rw [List.map_append, List.map_singleton] at hnodup
    exact List.disjoint_of_nodup_append hnodup hearlier (List.mem_singleton_self slot)
  · refine h.fits (.placeRegion slot region, _) ?_
    rw [regionCalls_append, RecordBuilder.transcript_append]
    exact List.mem_append_right _ (List.mem_singleton_self _)

/-- Placeable regions keep a packing and a builder in step that were both empty. -/
theorem Placeable.mirrors (h : Placeable name platform regions) :
    (({} : Packing).after regions).Mirrors
      (({ name, platform } : RecordBuilder).after (regionCalls regions)) := by
  induction regions using List.reverseRecOn with
  | nil => exact ⟨rfl, rfl, rfl⟩
  | append_singleton earlier entry ih =>
    obtain ⟨slot, region⟩ := entry
    have hmirrors := ih h.left
    have hstep := hmirrors.step (h.agree hmirrors)
    rw [after_append, regionCalls_append, RecordBuilder.after_append]
    exact hstep

/-- Regions of different names, with alignments that are nought or powers of two and with room for
all of them, are placed alike by a packing and by the builder of a record.  Whatever came before it,
a region is refused by both, and leaves both as they were, exactly if it is no raw storage, and
gets the same offset from both if it is.  In the end both list the same names, offsets and sizes,
the bytes in use are those up to the end of the last slot, a 64-bit number, and the record is as
large as the next multiple of the largest alignment. -/
theorem places_like_builder (name : String) (platform : Platform)
    (regions : List (String × Region)) (h : Placeable name platform regions) :
    let packing := ({} : Packing).after regions
    let builder := ({ name, platform } : RecordBuilder).after (regionCalls regions)
    (∀ earlier slot region later, regions = earlier ++ (slot, region) :: later →
      (({} : Packing).after earlier).Agree
        (({ name, platform } : RecordBuilder).after (regionCalls earlier)) slot region) ∧
      packing.placements.map (fun placement =>
          (placement.name, placement.offset, placement.size)) =
        builder.slots.map (fun slot => (slot.name, slot.offset, slot.size)) ∧
      packing.used = builder.extent ∧ packing.used < addressLimit ∧
      ∀ layout, builder.build.result = .ok layout → layout.slots = builder.slots ∧
        NextMultiple packing.used packing.alignment layout.size := by
  intro packing builder
  have hmirrors : packing.Mirrors builder := h.mirrors
  obtain ⟨hextent, hlt⟩ := RecordBuilder.cursor_after name platform (regionCalls regions)
  refine ⟨?_, hmirrors.places_eq, hmirrors.used_eq.trans hextent, hmirrors.used_eq ▸ hlt,
    fun layout hlayout => ?_⟩
  · rintro earlier slot region later rfl
    have hsplit : Placeable name platform ((earlier ++ [(slot, region)]) ++ later) := by
      rwa [List.append_assoc]
    exact hsplit.left.agree hsplit.left.left.mirrors
  · have hpow := (RecordBuilder.extends_new name platform (regionCalls regions)).powerOfTwo
    obtain ⟨hsize, -, heq⟩ := RecordBuilder.build_eq_ok hlayout
    obtain ⟨hround, -⟩ := eq_alignUp_of_alignUp? hpow hsize
    refine ⟨by rw [heq], ?_⟩
    rw [hround, hmirrors.used_eq, hmirrors.alignment_eq]
    exact nextMultiple_alignUp (pos_of_isPowerOfTwo hpow)

/-- Regions with a gap before the second that is placed, one that is refused, one that asks for no
alignment, and an empty one. -/
def assorted : List (String × Region) :=
  [("flags", ⟨3, 0, [], true⟩), ("open", ⟨8, 8, [], false⟩), ("body", ⟨8, 4, [], true⟩),
    ("mark", ⟨0, 16, [], true⟩), ("tail", ⟨5, 1, [], true⟩)]

theorem placeable_assorted : Placeable "assorted" .bits64 assorted where
  names := by decide
  aligned := by
    rw [assorted]
    iterate 5 rw [List.forall_mem_cons]
    exact ⟨.inl rfl, .inr ⟨3, rfl⟩, .inr ⟨2, rfl⟩, .inr ⟨4, rfl⟩, .inr ⟨0, rfl⟩, by simp⟩
  fits := by
    intro entry hentry record herror
    have hresults : (({ name := "assorted", platform := .bits64 } : RecordBuilder).transcript
        (regionCalls assorted)).map Prod.snd =
          [.ok 0, .error (.scannableRegion "open"), .ok 4, .ok 16, .ok 16] := rfl
    have hresult := List.mem_map_of_mem (f := Prod.snd) hentry
    rw [hresults, herror] at hresult
    simp at hresult

theorem places_like_builder_assorted :
    Placeable "assorted" .bits64 assorted ∧
      (({} : Packing).after assorted).placements.map (fun placement =>
          (placement.name, placement.offset, placement.size)) =
        [("flags", 0, 3), ("body", 4, 8), ("mark", 16, 0), ("tail", 16, 5)] ∧
      (({} : Packing).after assorted).used = 21 ∧
      ∃ layout, (({ name := "assorted", platform := .bits64 } : RecordBuilder).after
        (regionCalls assorted)).build.result = .ok layout ∧ NextMultiple 21 16 layout.size := by
  obtain ⟨-, hplaces, hused, -, hbuild⟩ :=
    places_like_builder "assorted" .bits64 assorted placeable_assorted
  obtain ⟨-, hsize⟩ := hbuild _ rfl
  exact ⟨placeable_assorted, hplaces.trans rfl, hused.trans rfl, _, rfl, hsize⟩

end Packing

end UnboxedRecords
