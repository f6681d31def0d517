import UnboxedRecords.Proofs.Heap.Filling

/-!
# Refusals for want of capacity are final

No call ever makes room: an exhausted heap stays exhausted (`Heap.Effect.exhausted`), for that size
and alignment and for all larger ones (`Heap.Exhausted.mono`).  So once a layout was refused for
want of capacity, neither it nor a larger or more aligned one is ever allocated again
(`Heap.capacity_failures_last`).
-/

namespace UnboxedRecords

namespace Heap

variable {heap next : Heap} {call : HeapCall} {result : Except HeapError (Option ObjectRef)}
  {size alignment : Nat}

/-- A heap without capacity for some record has none for one that is at least as large and as
aligned. -/
theorem Exhausted.mono {larger coarser : Nat} (h : heap.Exhausted size alignment)
    (hsize : size ≤ larger) (halignment : alignment ≤ coarser) : heap.Exhausted larger coarser := by
  rcases h with hlarge | hlarge | hnumber | hlacks
  · exact Or.inl (Nat.lt_of_lt_of_le hlarge hsize)
  · exact Or.inr (Or.inl (Nat.lt_of_lt_of_le hlarge halignment))
  · exact Or.inr (Or.inr (Or.inl hnumber))
  · exact Or.inr (Or.inr (Or.inr (hlacks.mono hsize halignment)))

/-- No call makes room. -/
theorem Effect.exhausted (heffect : heap.Effect call result next) (hsound : heap.Sound)
    (h : heap.Exhausted size alignment) : next.Exhausted size alignment := by
  have hcount := heffect.size_le
  rcases h with hlarge | hlarge | hnumber | hlacks
  · exact Or.inl hlarge
  · exact Or.inr (Or.inl hlarge)
  · exact Or.inr (Or.inr (Or.inl (by omega)))
  · refine Or.inr (Or.inr (Or.inr ?_))
    rcases heffect.arena_cases hsound with hshape | ⟨length, align, place, hgives⟩
    · exact hlacks.of_sameShape hshape
    · exact hlacks.gives hsound.arena hgives

/-- No run makes room. -/
theorem Exhausted.after (h : heap.Exhausted size alignment) (hsound : heap.Sound)
    (calls : List HeapCall) : (heap.after calls).Exhausted size alignment := by
  induction calls generalizing heap with
  | nil => exact h
  | cons call calls ih =>
    exact ih ((hsound.effect call).exhausted hsound h) (hsound.perform call)

/-! ## After a refusal -/

/-- Six blocks fill two segments, but for some bytes at their ends. -/
theorem shape_blocks : (blocks 6).arena.segments.size = 2 ∧
    (blocks 6).arena.used (blocks 6).arena.current = 900 := by
  obtain ⟨filled, hstacked⟩ := filled_blocks.stacked
  have hconfig := (reachable_blocks 6).configured
  have harena := (reachable_blocks 6).sound.1.arena
  have hthree : (blocks 6).arena.segmentBytes / (RecordLayout.block 300 4).size = 3 := by
    rw [hconfig.segmentBytes_eq]
    rfl
  have hcount := hstacked.count_eq
  have hfilled := hstacked.filled_le
  have hle := harena.count_le
  have hlast := harena.current_succ
  rw [hconfig.maxSegments_eq] at hle
  rw [hthree] at hcount hfilled
  have htwo : max 1 (⟨1024, 2⟩ : HeapConfig).maxSegments.toNat = 2 := rfl
  have hthird : filled = 3 := by omega
  refine ⟨by omega, ?_⟩
  rw [hstacked.used_eq, hthird]
  rfl

/-- What there is no capacity for beside six blocks. -/
theorem exhausted_blocks_iff : (blocks 6).Exhausted size alignment ↔
    124 < size ∨ 1024 < alignment := by
  have hconfig := (reachable_blocks 6).configured
  have hbytes : (⟨1024, 2⟩ : HeapConfig).segmentBytes.toNat = 1024 := rfl
  have hmax : (⟨1024, 2⟩ : HeapConfig).maxSegments.toNat = 2 := rfl
  rw [Exhausted, Arena.Lacks, filled_blocks.size_eq, shape_blocks.1, shape_blocks.2,
    hconfig.segmentBytes_eq, hconfig.maxSegments_eq, hbytes, hmax, maxEntry]
  omega

theorem refuses_blocks (built : (RecordLayout.block size alignment).Built)
    (hlarge : 124 < size ∨ 1024 < alignment) : (blocks 6).Refuses (.block size alignment) :=
  ((reachable_blocks 6).refuses_iff built).2 ⟨rfl, exhausted_blocks_iff.2 hlarge⟩

theorem result_alloc_blocks (built : (RecordLayout.block size alignment).Built)
    (hsize : size ≤ 124) (halignment : alignment ≤ 1024) :
    ((blocks 6).alloc (.block size alignment)).result = .ok ⟨6⟩ := by
  rcases (reachable_blocks 6).alloc_settled built rfl with ⟨hexhausted, -⟩ | ⟨-, hok⟩
  · have hlarge : 124 < size ∨ 1024 < alignment := exhausted_blocks_iff.1 hexhausted
    omega
  · rw [hok, filled_blocks.size_eq]

/-- Once a layout was refused for want of capacity, it and every layout of at least its size and
alignment are refused so, at once and after any later calls.  Meanwhile there may be room for a
smaller record, or for a less aligned one. -/
theorem capacity_failures_last :
    (∀ {heap : Heap} {config : HeapConfig} {platform : Platform} {layout wider : RecordLayout},
      heap.Reachable config platform → layout.Built → heap.Refuses layout →
      wider.Built → wider.platform = platform → layout.size ≤ wider.size →
      layout.alignment ≤ wider.alignment →
      ∀ calls : List HeapCall, (heap.after calls).Refuses wider) ∧
    ∃ heap : Heap, heap.Reachable ⟨1024, 2⟩ .bits16 ∧
      (∃ layout smaller : RecordLayout, layout.Built ∧ smaller.Built ∧
        smaller.size < layout.size ∧ smaller.alignment = layout.alignment ∧
        heap.Refuses layout ∧ ∃ object, (heap.alloc smaller).result = .ok object) ∧
      ∃ layout plainer : RecordLayout, layout.Built ∧ plainer.Built ∧
        plainer.size = layout.size ∧ plainer.alignment < layout.alignment ∧
        heap.Refuses layout ∧ ∃ object, (heap.alloc plainer).result = .ok object := by
  constructor
  · intro heap config platform layout wider h built hrefuses built' hplatform hsize halignment calls
    obtain ⟨-, hexhausted⟩ := (h.refuses_iff built).1 hrefuses
    exact ((h.after calls).refuses_iff built').2
      ⟨hplatform, (hexhausted.mono hsize halignment).after h.sound.1 calls⟩
  · have hlarge : (RecordLayout.block 300 4).Built := RecordLayout.built_largeBlock
    have hsmall : (RecordLayout.block 4 4).Built :=
      RecordLayout.built_block ⟨rfl, by decide⟩ (by decide) (by decide)
    have haligned : (RecordLayout.block 0 2048).Built :=
      RecordLayout.built_block ⟨rfl, by decide⟩ (by decide) (by decide)
    have hplain : (RecordLayout.block 0 1).Built :=
      RecordLayout.built_block ⟨rfl, by decide⟩ (by decide) (by decide)
    -- alignment alone makes a difference only where it exceeds the segments
    exact ⟨blocks 6, reachable_blocks 6,
      ⟨_, _, hlarge, hsmall, by decide, rfl, refuses_blocks hlarge (by decide),
        _, result_alloc_blocks hsmall (by decide) (by decide)⟩,
      ⟨_, _, haligned, hplain, rfl, by decide, refuses_blocks haligned (by decide),
        _, result_alloc_blocks hplain (by decide) (by decide)⟩⟩

/-- Calls that follow the refusal of a block: a small record goes into the rest of the segment. -/
def callsAfterwards : List HeapCall :=
  [.alloc .node RecordLayout.built_node, .setReference ⟨6⟩ "next" (some ⟨0⟩),
    .fillRaw ⟨0⟩ "bytes" 255]

theorem capacity_failures_last_blocks :
    (blocks 6).Reachable ⟨1024, 2⟩ .bits16 ∧ (RecordLayout.block 300 4).Built ∧
      (blocks 6).Refuses (.block 300 4) ∧ (RecordLayout.block 304 8).Built ∧
      ((blocks 6).after callsAfterwards).Refuses (.block 304 8) := by
  have hlarge : (RecordLayout.block 300 4).Built := RecordLayout.built_largeBlock
  have hlarger : (RecordLayout.block 304 8).Built :=
    RecordLayout.built_block ⟨rfl, by decide⟩ (by decide) (by decide)
  have hrefuses := refuses_blocks hlarge (by decide)
  exact ⟨reachable_blocks 6, hlarge, hrefuses, hlarger, capacity_failures_last.1
    (reachable_blocks 6) hlarge hrefuses hlarger rfl (by decide) (by decide) callsAfterwards⟩

end Heap

end UnboxedRecords
