import UnboxedRecords.Event

/-!
# Results together with what happened on the way

A definition that reports events gives a `Logged` value: its result, which may be an error, and the
events up to the point where the result was settled.  Events that precede an error are kept.

An operation on a value that lives on after it, such as a builder or a heap, gives an `Outcome`: the
value it leaves behind, as well as its result and its events.  The value is there also when the
operation fails, so that what a failure leaves behind is a statement about the operation.
-/

namespace UnboxedRecords

/-- A result and the events that led to it, oldest first. -/
structure Logged (ε α : Type) where
  /-- The result, or the reason why there is none. -/
  result : Except ε α
  /-- What happened on the way, oldest first. -/
  events : List Event := []

namespace Logged

variable {ε ε' α β γ : Type}

/-- A result after the events `events`. -/
def ok (value : α) (events : List Event := []) : Logged ε α := ⟨.ok value, events⟩

/-- An error without any event. -/
def fail (reason : ε) : Logged ε α := ⟨.error reason, []⟩

/-- Go on with the result, if there is one. -/
def andThen (step : Logged ε α) (next : α → Logged ε β) : Logged ε β :=
  match step.result with
  | .ok value =>
    let rest := next value
    ⟨rest.result, step.events ++ rest.events⟩
  | .error reason => ⟨.error reason, step.events⟩

/-- The same course of events with its error restated. -/
def mapError (f : ε → ε') (step : Logged ε α) : Logged ε' α := ⟨step.result.mapError f, step.events⟩

/-- Carry out a step for every element in turn, up to the first that fails. -/
def forEach (step : α → Logged ε β) : List α → Logged ε (List β)
  | [] => ok []
  | a :: as => (step a).andThen fun b => (forEach step as).andThen fun bs => ok (b :: bs)

@[simp] theorem result_ok (value : α) (events : List Event) :
    (ok value events : Logged ε α).result = .ok value := rfl

@[simp] theorem events_ok (value : α) (events : List Event) :
    (ok value events : Logged ε α).events = events := rfl

@[simp] theorem result_fail (reason : ε) : (fail reason : Logged ε α).result = .error reason := rfl

@[simp] theorem events_fail (reason : ε) : (fail reason : Logged ε α).events = [] := rfl

@[simp] theorem result_mapError (f : ε → ε') (step : Logged ε α) :
    (step.mapError f).result = step.result.mapError f := rfl

@[simp] theorem events_mapError (f : ε → ε') (step : Logged ε α) :
    (step.mapError f).events = step.events := rfl

theorem andThen_of_ok {step : Logged ε α} {value : α} (h : step.result = .ok value)
    (next : α → Logged ε β) :
    step.andThen next = ⟨(next value).result, step.events ++ (next value).events⟩ := by
  simp [andThen, h]

theorem andThen_of_error {step : Logged ε α} {reason : ε} (h : step.result = .error reason)
    (next : α → Logged ε β) : step.andThen next = ⟨.error reason, step.events⟩ := by
  simp [andThen, h]

@[simp] theorem ok_andThen (value : α) (next : α → Logged ε β) :
    (ok value).andThen next = next value := rfl

theorem andThen_assoc (step : Logged ε α) (next : α → Logged ε β) (last : β → Logged ε γ) :
    (step.andThen next).andThen last = step.andThen fun value => (next value).andThen last := by
  cases h : step.result with
  | error reason => rw [andThen_of_error h, andThen_of_error h, andThen_of_error rfl]
  | ok value =>
    rw [andThen_of_ok h, andThen_of_ok h]
    cases hnext : (next value).result with
    | error reason => rw [andThen_of_error hnext, andThen_of_error rfl]
    | ok middle => rw [andThen_of_ok hnext, andThen_of_ok rfl, List.append_assoc]

/-- A chain of two steps succeeds exactly when both do. -/
theorem andThen_result_eq_ok_iff {step : Logged ε α} {next : α → Logged ε β} {b : β} :
    (step.andThen next).result = .ok b ↔
      ∃ a, step.result = .ok a ∧ (next a).result = .ok b := by
  cases h : step.result with
  | ok a => simp [andThen_of_ok h]
  | error e => simp [andThen_of_error h]

end Logged

/-- What an operation leaves behind, its result, and the events that led to it. -/
structure Outcome (σ ε α : Type) extends Logged ε α where
  /-- The value that lives on after the operation, also after one that failed. -/
  state : σ

namespace Outcome

variable {σ ε ε' α β γ : Type}

/-- A success that leaves `state` behind. -/
def ok (state : σ) (value : α) (events : List Event := []) : Outcome σ ε α :=
  ⟨.ok value events, state⟩

/-- A failure that leaves `state` behind. -/
def fail (state : σ) (reason : ε) : Outcome σ ε α := ⟨.fail reason, state⟩

/-- Go on with what the operation left behind, if it succeeded. -/
def andThen (step : Outcome σ ε α) (next : σ → α → Outcome σ ε β) : Outcome σ ε β :=
  match step.result with
  | .ok value =>
    let rest := next step.state value
    ⟨⟨rest.result, step.events ++ rest.events⟩, rest.state⟩
  | .error reason => ⟨⟨.error reason, step.events⟩, step.state⟩

/-- The same operation with its result restated. -/
def map (f : α → β) (step : Outcome σ ε α) : Outcome σ ε β :=
  ⟨⟨step.result.map f, step.events⟩, step.state⟩

@[simp] theorem state_ok (state : σ) (value : α) (events : List Event) :
    (ok state value events : Outcome σ ε α).state = state := rfl

@[simp] theorem result_ok (state : σ) (value : α) (events : List Event) :
    (ok state value events : Outcome σ ε α).result = .ok value := rfl

@[simp] theorem events_ok (state : σ) (value : α) (events : List Event) :
    (ok state value events : Outcome σ ε α).events = events := rfl

@[simp] theorem state_fail (state : σ) (reason : ε) :
    (fail state reason : Outcome σ ε α).state = state := rfl

@[simp] theorem result_fail (state : σ) (reason : ε) :
    (fail state reason : Outcome σ ε α).result = .error reason := rfl

@[simp] theorem events_fail (state : σ) (reason : ε) :
    (fail state reason : Outcome σ ε α).events = [] := rfl

@[simp] theorem state_map (f : α → β) (step : Outcome σ ε α) :
    (step.map f).state = step.state := rfl

@[simp] theorem result_map (f : α → β) (step : Outcome σ ε α) :
    (step.map f).result = step.result.map f := rfl

@[simp] theorem map_ok (f : α → β) (state : σ) (value : α) (events : List Event) :
    (ok state value events : Outcome σ ε α).map f = ok state (f value) events := rfl

/-- Restating the result of a chain restates that of its last step. -/
theorem map_andThen (f : β → γ) (step : Outcome σ ε α) (next : σ → α → Outcome σ ε β) :
    (step.andThen next).map f = step.andThen fun state value => (next state value).map f := by
  unfold andThen
  split
  · rfl
  · rfl

theorem andThen_of_ok {step : Outcome σ ε α} {value : α} (h : step.result = .ok value)
    (next : σ → α → Outcome σ ε β) :
    step.andThen next = ⟨⟨(next step.state value).result,
      step.events ++ (next step.state value).events⟩, (next step.state value).state⟩ := by
  simp [andThen, h]

theorem andThen_of_error {step : Outcome σ ε α} {reason : ε} (h : step.result = .error reason)
    (next : σ → α → Outcome σ ε β) :
    step.andThen next = ⟨⟨.error reason, step.events⟩, step.state⟩ := by
  simp [andThen, h]

end Outcome

end UnboxedRecords
