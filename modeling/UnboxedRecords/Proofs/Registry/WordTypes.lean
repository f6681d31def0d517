import UnboxedRecords.Proofs.RawStorage.Exactness
import UnboxedRecords.Proofs.Registry.Runs
import UnboxedRecords.Proofs.UnboxedType.Single
import UnboxedRecords.Registry.WordTypes

/-!
# Defining the one-word types

The one-word types are defined one after the other, and the first definition that is refused ends
the row.  There are two reasons for a refusal.  A name may be taken, and then the types before it
stay defined; or a word may be larger than the registry lets its types be, and then the first
definition is refused already, if its name does not stand in the way before that.

What a registry has gained afterwards is said by `Registry.Gains`: types of one word under the next
numbers, and nothing else.  `Registry.defineWords` defines one-word types under any names;
`Registry.exists_gains` says how the first definitions of such a row go through, and
`Registry.defineWordTypes_settled` how the row of four ends.
-/

namespace UnboxedRecords

/-- The type called `name` that is a single word. -/
def UnboxedType.oneWord (name : String) (platform : Platform) : UnboxedType :=
  .single name WordTypes.valueField ⟨.words, 1, platform, platform.wordBytes⟩

/-- The call for the definition of a type that is a single word. -/
def DefineCall.oneWord (name : String) (platform : Platform) : DefineCall :=
  ⟨name, [⟨WordTypes.valueField, .raw ⟨.words, 1, platform, platform.wordBytes⟩⟩]⟩

/-- A type of one word is within the limit. -/
def CompositionRules.FitsWord (rules : CompositionRules) : Prop :=
  rules.platform.wordBytes ≤ rules.sizeLimit

theorem RawSpec.declare_one_word (platform : Platform) :
    (declare .words 1 platform).result = .ok ⟨.words, 1, platform, platform.wordBytes⟩ := by
  cases platform <;> rfl

namespace Registry

variable {registry next : Registry} {call : DefineCall} {type : UnboxedType} {name : String}
  {names : List String}

/-! ## One definition -/

/-- Defining a type of one word is a call like any other. -/
theorem defineWord_eq (registry : Registry) (name : String) :
    (registry.defineWord name).result =
        (registry.perform (.oneWord name registry.rules.platform)).result ∧
      (registry.defineWord name).state =
        (registry.perform (.oneWord name registry.rules.platform)).state := by
  have hspec : (((RawSpec.declare .words 1 registry.rules.platform).mapError
      RegistryError.declaration).result) =
        .ok ⟨.words, 1, registry.rules.platform, registry.rules.platform.wordBytes⟩ := by
    rw [Logged.result_mapError, RawSpec.declare_one_word]
    rfl
  rw [defineWord, Outcome.andThen_of_ok hspec]
  exact ⟨rfl, rfl⟩

theorem defineWord_of_taken (h : (registry.idOf? name).isSome) :
    (registry.defineWord name).result = .error (.duplicateType name) ∧
      (registry.defineWord name).state = registry := by
  obtain ⟨hresult, hstate⟩ := registry.defineWord_eq name
  rw [hresult, hstate, perform_of_taken h]
  exact ⟨rfl, rfl⟩

theorem defineWord_of_large (hfree : registry.idOf? name = none)
    (hroom : registry.size < capacity)
    (hlarge : ¬ registry.rules.FitsWord) :
    (registry.defineWord name).result = .error (.declaration
        (.illegalComposition name (.sizeOverflow registry.rules.sizeLimit))) ∧
      (registry.defineWord name).state = registry := by
  obtain ⟨hresult, hstate⟩ := registry.defineWord_eq name
  rw [hresult, hstate]
  exact perform_of_refused hfree hroom
    (UnboxedType.compose_single_of_lt _ _ rfl (Nat.lt_of_not_le hlarge))

theorem defineWord_of_free (hfree : registry.idOf? name = none) (hroom : registry.size < capacity)
    (hfits : registry.rules.FitsWord) :
    (registry.defineWord name).result = .ok registry.size ∧
      (registry.defineWord name).state =
        registry.insert name (.oneWord name registry.rules.platform) := by
  obtain ⟨hresult, hstate⟩ := registry.defineWord_eq name
  rw [hresult, hstate]
  exact perform_of_admits ⟨hfree, hroom, UnboxedType.compose_single _ _ rfl hfits⟩

/-! ## What a registry gains -/

/-- The registry `next` is `registry` with types of one word behind its own types, one for each of
`names`, and nothing else: all else that it answers is what `registry` answers. -/
structure Gains (registry : Registry) (names : List String) (next : Registry) : Prop where
  rules_eq : next.rules = registry.rules
  size_eq : next.size = registry.size + names.length
  get?_eq : ∀ id, next.get? id = if id < registry.size then registry.get? id
    else names[id - registry.size]?.map (.oneWord · registry.rules.platform)
  idOf?_eq : ∀ name, next.idOf? name =
    (registry.idOf? name).or ((names.idxOf? name).map (registry.size + ·))

namespace Gains

theorem nil (registry : Registry) : registry.Gains [] registry where
  rules_eq := rfl
  size_eq := rfl
  get?_eq := by
    intro id
    split
    · rfl
    · next hid => exact get?_of_size_le (Nat.le_of_not_lt hid)
  idOf?_eq := by simp

/-- What is gained behind a first type of one word is gained together with it. -/
theorem cons (h : (registry.insert name (.oneWord name registry.rules.platform)).Gains names next) :
    registry.Gains (name :: names) next where
  rules_eq := h.rules_eq
  size_eq := by
    rw [h.size_eq, size_insert, List.length_cons]
    omega
  get?_eq := by
    intro id
    rw [h.get?_eq, size_insert, get?_insert, rules_insert]
    rcases Nat.lt_trichotomy id registry.size with hid | rfl | hid
    · rw [if_pos (by omega), if_neg (by omega), if_pos hid]
    · simp
    · rw [if_neg (by omega), if_neg (by omega),
        show id - registry.size = id - (registry.size + 1) + 1 by omega, List.getElem?_cons_succ]
  idOf?_eq := by
    intro other
    rw [h.idOf?_eq, idOf?_insert, size_insert, Option.or_assoc, List.idxOf?_cons]
    congr 1
    by_cases hname : other = name
    · subst hname
      simp
    · have hbeq : (name == other) = false := beq_false_of_ne (Ne.symm hname)
      simp [hname, hbeq, Nat.add_assoc, Nat.add_comm 1, Function.comp_def]

/-- The names that are gained stand for the next numbers, if they were free. -/
theorem map_idOf? (h : registry.Gains names next) (hnames : names.Nodup)
    (hfree : ∀ name ∈ names, registry.idOf? name = none) :
    names.map next.idOf? = (List.range' registry.size names.length).map some := by
  refine List.ext_getElem (by simp) fun i hi _ => ?_
  rw [List.length_map] at hi
  have hplace : names.idxOf? names[i] = some i :=
    List.idxOf?_eq_some_iff.2 ⟨hi, rfl, fun j hj heq =>
      Nat.ne_of_lt hj ((List.Nodup.getElem_inj_iff hnames).1 heq)⟩
  simp [h.idOf?_eq, hfree, hplace]

/-- The types that are gained stand under the next numbers. -/
theorem map_get? (h : registry.Gains names next) :
    (List.range' registry.size names.length).map next.get? =
      names.map fun name => some (.oneWord name registry.rules.platform) := by
  refine List.ext_getElem (by simp) fun i _ hi => ?_
  rw [List.length_map] at hi
  have hbehind : ¬ registry.size + i < registry.size := Nat.not_lt.2 (Nat.le_add_right _ _)
  simp [h.get?_eq, hi, hbehind]

end Gains

/-! ## Any number of definitions -/

/-- Define a type of one word under each of the names in turn, up to the first that is refused. -/
def defineWords (registry : Registry) : List String → Outcome Registry RegistryError (List Nat)
  | [] => .ok registry []
  | name :: names => (registry.defineWord name).andThen fun registry id =>
    (registry.defineWords names).map (id :: ·)

/-- The four one-word types are defined as such a row. -/
theorem map_ids_defineWordTypes (registry : Registry) :
    registry.defineWordTypes.map WordTypes.ids = registry.defineWords WordTypes.names := by
  simp only [defineWordTypes, defineWords, WordTypes.names, WordTypes.ids, Outcome.map_andThen,
    Outcome.map_ok]

theorem defineWords_cons_of_error {error : RegistryError}
    (h : (registry.defineWord name).result = .error error) (names : List String) :
    (registry.defineWords (name :: names)).result = .error error ∧
      (registry.defineWords (name :: names)).state = (registry.defineWord name).state := by
  rw [defineWords, Outcome.andThen_of_error h]
  exact ⟨rfl, rfl⟩

theorem defineWords_cons_of_ok {id : Nat} (h : (registry.defineWord name).result = .ok id)
    (names : List String) :
    (registry.defineWords (name :: names)).result =
        ((registry.defineWord name).state.defineWords names).result.map (id :: ·) ∧
      (registry.defineWords (name :: names)).state =
        ((registry.defineWord name).state.defineWords names).state := by
  rw [defineWords, Outcome.andThen_of_ok h]
  exact ⟨rfl, rfl⟩

theorem keeps_defineWords (registry : Registry) (names : List String) :
    registry.Keeps (registry.defineWords names).state := by
  induction names generalizing registry with
  | nil => exact .refl registry
  | cons name names ih =>
    have hkeeps : registry.Keeps (registry.defineWord name).state := by
      rw [(registry.defineWord_eq name).2]
      exact registry.keeps_perform _
    rcases hresult : (registry.defineWord name).result with error | id
    · rw [(defineWords_cons_of_error hresult names).2]
      exact hkeeps
    · rw [(defineWords_cons_of_ok hresult names).2]
      exact hkeeps.trans (ih _)

section Row

variable (hroom : registry.size + names.length ≤ capacity) (hnames : names.Nodup)
  (hfree : ∀ name ∈ names, registry.idOf? name = none)
  (hfits : names ≠ [] → registry.rules.FitsWord)
include hroom hnames hfree hfits

/-- As long as words are small enough, the names free and the numbers not used up, a row goes
through, and goes on from the registry that has gained the types so far. -/
theorem exists_gains (behind : List String) :
    ∃ next, registry.Gains names next ∧
      (registry.defineWords (names ++ behind)).result = (next.defineWords behind).result.map
        (List.range' registry.size names.length ++ ·) ∧
      (registry.defineWords (names ++ behind)).state = (next.defineWords behind).state := by
  induction names generalizing registry with
  | nil =>
    refine ⟨registry, .nil registry, ?_, rfl⟩
    rw [List.nil_append]
    cases (registry.defineWords behind).result <;> rfl
  | cons name names ih =>
    rw [List.length_cons] at hroom
    obtain ⟨hnew, hnames⟩ := List.nodup_cons.1 hnames
    obtain ⟨hfresh, hfree⟩ := List.forall_mem_cons.1 hfree
    have hfits := hfits (List.cons_ne_nil _ _)
    obtain ⟨hresult, hstate⟩ := defineWord_of_free hfresh (by omega) hfits
    obtain ⟨hrow, hlast⟩ := defineWords_cons_of_ok hresult (names ++ behind)
    -- the names that are left are still free, none of them being the one just defined
    have hfree : ∀ other ∈ names,
        (registry.insert name (.oneWord name registry.rules.platform)).idOf? other = none := by
      intro other hother
      have hne : other ≠ name := fun heq => hnew (heq ▸ hother)
      rw [idOf?_insert, hfree other hother, Option.none_or, if_neg hne]
    have hroom : (registry.insert name (.oneWord name registry.rules.platform)).size +
        names.length ≤ capacity := by
      rw [size_insert]
      omega
    obtain ⟨next, hgains, hresults, hstates⟩ := ih hroom hnames hfree fun _ => hfits
    refine ⟨next, hgains.cons, ?_, ?_⟩
    · rw [List.cons_append, hrow, hstate, hresults, size_insert]
      cases (next.defineWords behind).result <;> rfl
    · rw [List.cons_append, hlast, hstate, hstates]

theorem defineWords_of_free :
    (registry.defineWords names).result = .ok (List.range' registry.size names.length) ∧
      registry.Gains names (registry.defineWords names).state := by
  obtain ⟨next, hgains, hresult, hstate⟩ := exists_gains hroom hnames hfree hfits []
  rw [List.append_nil] at hresult hstate
  rw [hresult, hstate]
  refine ⟨?_, hgains⟩
  change Except.ok (List.range' registry.size names.length ++ []) = _
  rw [List.append_nil]

/-- A row ends at the first name that is taken, with all types before it defined. -/
theorem defineWords_of_taken (htaken : (registry.idOf? name).isSome) (behind : List String) :
    (registry.defineWords (names ++ name :: behind)).result = .error (.duplicateType name) ∧
      registry.Gains names (registry.defineWords (names ++ name :: behind)).state := by
  obtain ⟨next, hgains, hresult, hstate⟩ :=
    exists_gains hroom hnames hfree hfits (name :: behind)
  have hstill : (next.idOf? name).isSome := by
    rw [hgains.idOf?_eq, Option.isSome_or, htaken, Bool.true_or]
  obtain ⟨hrefused, hsame⟩ := defineWord_of_taken hstill
  obtain ⟨herror, hlast⟩ := defineWords_cons_of_error hrefused behind
  rw [hresult, hstate, herror, hlast, hsame]
  exact ⟨rfl, hgains⟩

end Row

/-! ## The four types -/

theorem state_defineWordTypes (registry : Registry) :
    registry.defineWordTypes.state = (registry.defineWords WordTypes.names).state := by
  rw [← map_ids_defineWordTypes, Outcome.state_map]

theorem result_map_ids_defineWordTypes (registry : Registry) :
    registry.defineWordTypes.result.map WordTypes.ids =
      (registry.defineWords WordTypes.names).result := by
  rw [← map_ids_defineWordTypes, Outcome.result_map]

theorem exists_types_of_ok {ids : List Nat}
    (h : (registry.defineWords WordTypes.names).result = .ok ids) :
    ∃ types, registry.defineWordTypes.result = .ok types ∧ types.ids = ids := by
  rw [← result_map_ids_defineWordTypes] at h
  rcases hresult : registry.defineWordTypes.result with error | types
  · rw [hresult] at h
    cases h
  · rw [hresult] at h
    exact ⟨types, rfl, Except.ok.inj h⟩

theorem defineWordTypes_of_error {error : RegistryError}
    (h : (registry.defineWords WordTypes.names).result = .error error) :
    registry.defineWordTypes.result = .error error := by
  rw [← result_map_ids_defineWordTypes] at h
  rcases hresult : registry.defineWordTypes.result with found | types
  · rw [hresult] at h
    cases h
    rfl
  · rw [hresult] at h
    cases h

section Room

variable (hroom : registry.size + 4 ≤ capacity)
include hroom

theorem defineWordTypes_of_free (hfree : ∀ name ∈ WordTypes.names, registry.idOf? name = none)
    (hfits : registry.rules.FitsWord) :
    (∃ types, registry.defineWordTypes.result = .ok types ∧
        types.ids = List.range' registry.size 4) ∧
      registry.Gains WordTypes.names registry.defineWordTypes.state := by
  obtain ⟨hresult, hgains⟩ := defineWords_of_free hroom (by decide) hfree fun _ => hfits
  rw [state_defineWordTypes]
  exact ⟨exists_types_of_ok hresult, hgains⟩

theorem defineWordTypes_of_large (hfree : registry.idOf? "Word" = none)
    (hlarge : ¬ registry.rules.FitsWord) :
    registry.defineWordTypes.result = .error (.declaration
        (.illegalComposition "Word" (.sizeOverflow registry.rules.sizeLimit))) ∧
      registry.defineWordTypes.state = registry := by
  obtain ⟨hresult, hstate⟩ := defineWord_of_large hfree (by omega) hlarge
  obtain ⟨herror, hlast⟩ := defineWords_cons_of_error hresult ["Address", "Offset", "Extent"]
  rw [state_defineWordTypes]
  exact ⟨defineWordTypes_of_error herror, hlast.trans hstate⟩

/-- The first name that is taken ends the definition, if the size of a word has not ended it
before. -/
theorem defineWordTypes_of_taken (hfits : registry.idOf? "Word" = none → registry.rules.FitsWord)
    (htaken : WordTypes.names.find? (fun name => (registry.idOf? name).isSome) = some name) :
    registry.defineWordTypes.result = .error (.duplicateType name) ∧
      registry.Gains (WordTypes.names.takeWhile fun name => (registry.idOf? name).isNone)
        registry.defineWordTypes.state := by
  obtain ⟨hname, before, behind, hnames, hbefore⟩ := List.find?_eq_some_iff_append.1 htaken
  have hfree : ∀ other ∈ before, registry.idOf? other = none := by simpa using hbefore
  have hfirst : WordTypes.names.takeWhile (fun name => (registry.idOf? name).isNone) = before := by
    rw [hnames, List.takeWhile_append_of_pos (by simpa using hfree), List.takeWhile_cons_of_neg
      (by simpa [Option.isSome_iff_ne_none] using hname), List.append_nil]
  have hsub : before.Sublist WordTypes.names := hnames ▸ List.sublist_append_left _ _
  have hlength : before.length ≤ 4 := hsub.length_le
  have hnodup : before.Nodup := hsub.nodup (by decide)
  have hreached : before ≠ [] → registry.rules.FitsWord := by
    intro hne
    obtain ⟨first, rest, rfl⟩ := List.exists_cons_of_ne_nil hne
    obtain rfl : "Word" = first := (List.cons.inj hnames).1
    exact hfits (hfree _ List.mem_cons_self)
  obtain ⟨hresult, hgains⟩ :=
    defineWords_of_taken (by omega) hnodup hfree hreached hname behind
  rw [← hnames] at hresult hgains
  rw [hfirst, state_defineWordTypes]
  exact ⟨defineWordTypes_of_error hresult, hgains⟩

/-- If a row of the four types does not go through, then it ends in one of the two ways. -/
theorem defineWordTypes_ok_iff :
    (∃ types, registry.defineWordTypes.result = .ok types) ↔
      (∀ name ∈ WordTypes.names, registry.idOf? name = none) ∧ registry.rules.FitsWord := by
  constructor
  · rintro ⟨types, htypes⟩
    have hreached : registry.idOf? "Word" = none → registry.rules.FitsWord := by
      intro hword
      by_contra hlarge
      cases htypes.symm.trans (defineWordTypes_of_large hroom hword hlarge).1
    have hfree : ∀ name ∈ WordTypes.names, registry.idOf? name = none := by
      rcases hfirst : WordTypes.names.find? fun name => (registry.idOf? name).isSome with _ | name
      · simpa [List.find?_eq_none] using hfirst
      · cases htypes.symm.trans (defineWordTypes_of_taken hroom hreached hfirst).1
    exact ⟨hfree, hreached (hfree _ List.mem_cons_self)⟩
  · rintro ⟨hfree, hfits⟩
    obtain ⟨⟨types, htypes, -⟩, -⟩ := defineWordTypes_of_free hroom hfree hfits
    exact ⟨types, htypes⟩

end Room

-- a type of its own that is called like the first hides that words are too large
example : (({ rules := ⟨.bits32, some 3⟩ } : Registry).after
    [⟨"Word", [⟨"tag", .raw ⟨.bytes, 3, .bits32, 3⟩⟩]⟩]).defineWordTypes.result =
      .error (.duplicateType "Word") := rfl

end Registry

end UnboxedRecords
