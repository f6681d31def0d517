import UnboxedRecords.Proofs.UnboxedType.Leaves

/-!
# The alignment of leaves

Alignments are powers of two, so that the largest of them is a multiple of all others.  A composed
type that starts at a multiple of its alignment therefore starts at a multiple of the alignment of
each of its fields; and if no field at any depth is misaligned in the type around it, each leaf
comes to lie at a multiple of its own alignment (`UnboxedType.Composed.alignment_dvd_offset`).
-/

namespace UnboxedRecords

theorem RawSpec.isPowerOfTwo_alignment (spec : RawSpec) : isPowerOfTwo spec.alignment = true :=
  isPowerOfTwo_iff.2 (spec.unit.width_eq_one_shiftLeft spec.platform)

namespace UnboxedType

variable {type : UnboxedType} {field : Field}

namespace Packed

theorem alignment_pos (h : type.Packed) : 0 < type.alignment :=
  ((h.alignment_le_iff _).1 (Nat.le_refl _)).1

theorem alignment_le (h : type.Packed) (hfield : field ∈ type.fields) :
    field.kind.alignment ≤ type.alignment :=
  ((h.alignment_le_iff _).1 (Nat.le_refl _)).2 field hfield

/-- Some field asks for all of the alignment of the type, unless it is one. -/
theorem alignment_eq (h : type.Packed) :
    type.alignment = 1 ∨ ∃ field ∈ type.fields, field.kind.alignment = type.alignment := by
  by_contra hnone
  rw [not_or, not_exists] at hnone
  have hpos := h.alignment_pos
  -- otherwise one less would do for all fields
  have hle : type.alignment ≤ type.alignment - 1 := by
    refine (h.alignment_le_iff _).2 ⟨by omega, fun field hfield => ?_⟩
    have hle := h.alignment_le hfield
    have hne : field.kind.alignment ≠ type.alignment := fun heq => hnone.2 field ⟨hfield, heq⟩
    omega
  omega

end Packed

namespace Composed

theorem isPowerOfTwo_alignment (h : type.Composed) : isPowerOfTwo type.alignment = true := by
  refine h.induction (motive := fun type => isPowerOfTwo type.alignment = true) ?_
  intro type _ hpacked ih
  rcases hpacked.alignment_eq with hone | ⟨field, hfield, heq⟩
  · rw [hone]
    rfl
  · rw [← heq]
    rcases hkind : field.kind with spec | inner
    · exact spec.isPowerOfTwo_alignment
    · exact ih field hfield inner hkind

theorem isPowerOfTwo_kind (h : type.Composed) (hfield : field ∈ type.fields) :
    isPowerOfTwo field.kind.alignment = true := by
  rcases hkind : field.kind with spec | inner
  · exact spec.isPowerOfTwo_alignment
  · exact (h.of_nested hfield hkind).isPowerOfTwo_alignment

/-- The alignment of a type is a multiple of that of each field. -/
theorem kind_alignment_dvd (h : type.Composed) (hfield : field ∈ type.fields) :
    field.kind.alignment ∣ type.alignment :=
  dvd_of_isPowerOfTwo (h.isPowerOfTwo_kind hfield) h.isPowerOfTwo_alignment
    (h.packed.alignment_le hfield)

/-- The alignment of a type is a multiple of that of each leaf. -/
theorem leaf_alignment_dvd (h : type.Composed) {base : Nat} {leaf : Leaf}
    (hleaf : leaf ∈ type.leavesAt base) : leaf.spec.alignment ∣ type.alignment :=
  dvd_of_isPowerOfTwo leaf.spec.isPowerOfTwo_alignment h.isPowerOfTwo_alignment
    (((h.alignment_le_iff base _).1 (Nat.le_refl _)).2 leaf hleaf)

end Composed

/-- Where no field is reported as misaligned, each starts at a multiple of its alignment. -/
theorem alignment_dvd_of_misalignedFields_eq_nil (h : type.misalignedFields = [])
    (hfield : field ∈ type.fields) : field.kind.alignment ∣ field.offset := by
  rw [misalignedFields, List.map_eq_nil_iff, List.filter_eq_nil_iff] at h
  have haligned := h field hfield
  simp only [Field.isAligned, Bool.not_eq_true, Bool.not_eq_false', beq_iff_eq] at haligned
  exact Nat.dvd_of_mod_eq_zero haligned

/-- In a type that starts at a multiple of its alignment, and in which no field of any type is
misaligned, every leaf starts at a multiple of its own alignment. -/
theorem Composed.alignment_dvd_offset (h : type.Composed)
    (haligned : ∀ inner : UnboxedType, inner.Within type → inner.misalignedFields = [])
    {base : Nat} (hbase : type.alignment ∣ base) {leaf : Leaf} (hleaf : leaf ∈ type.leavesAt base) :
    leaf.spec.alignment ∣ leaf.offset := by
  refine h.induction (motive := fun type =>
    (∀ inner : UnboxedType, inner.Within type → inner.misalignedFields = []) → ∀ base,
      type.alignment ∣ base → ∀ leaf ∈ type.leavesAt base, leaf.spec.alignment ∣ leaf.offset)
    ?_ haligned base hbase leaf hleaf
  intro type hcomposed _ ih haligned base hbase leaf hleaf
  obtain ⟨field, hfield, hleaf⟩ := mem_leavesAt_iff.1 hleaf
  have hstart : field.kind.alignment ∣ base + field.offset :=
    Nat.dvd_add (Nat.dvd_trans (hcomposed.kind_alignment_dvd hfield) hbase)
      (alignment_dvd_of_misalignedFields_eq_nil (haligned type .self) hfield)
  rcases hkind : field.kind with spec | inner
  · rw [hkind] at hleaf hstart
    rw [List.mem_singleton.1 hleaf]
    exact hstart
  · rw [hkind] at hleaf hstart
    exact ih field hfield inner hkind (fun deeper hwithin => haligned deeper
      (.field hfield hkind hwithin)) _ hstart leaf hleaf

/-- Both cells of the pair start at an even offset, and so do the words in them. -/
theorem misalignedFields_within_pair {inner : UnboxedType} (h : inner.Within pair) :
    inner.misalignedFields = [] := by
  have hcell : inner.Within cell → inner.misalignedFields = [] := by
    intro h
    cases h with
    | self => rfl
    | field hfield hkind _ =>
      rcases List.mem_pair.1 hfield with rfl | rfl
      · cases hkind
      · cases hkind
  cases h with
  | self => rfl
  | field hfield hkind hwithin =>
    simp only [pair, List.mem_cons, List.not_mem_nil, or_false] at hfield
    rcases hfield with rfl | rfl | rfl
    · cases hkind
      exact hcell hwithin
    · cases hkind
    · cases hkind
      exact hcell hwithin

end UnboxedType

end UnboxedRecords
