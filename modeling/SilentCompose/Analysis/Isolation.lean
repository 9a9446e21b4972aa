/-
# Engine objects do not disturb each other

All engine objects of a process share one heap, and freed addresses are given out again.
Still each of them answers its own calls as an engine alone would, from its creation to
its finalization, whatever happens to the others in between; nothing is ever used after
it was freed; and once all of them are finalized the heap is what it was.
-/

import SilentCompose.Engine.Instances

namespace SilentCompose.Analysis

open SilentCompose.Foundations SilentCompose.Toolkit SilentCompose.Compose SilentCompose.Engine

/-- What an event does with this engine object, if it is about it. -/
def useOf (id : ℕ) (event : Event) : Option Use := if event.id = id then some event.use else none

section Isolation

variable (allocator : Allocator Block) (keyvalToUnicode : KeyvalToUnicode) (heap : Heap Block)

/-- A new process owns nothing. -/
theorem owns_init :
    Owns heap.blocks (processMachine allocator keyvalToUnicode heap).init where
  state _ _ hself := by cases hself
  apart _ _ _ _ hself := by cases hself
  rest _ _ := rfl

variable {allocator keyvalToUnicode} {before : Address → Option Block} {process : Process}

/-- A step of the process serves its event. -/
theorem served_step (howns : Owns before process) (event : Event) :
    ∃ reply process', (processMachine allocator keyvalToUnicode heap).step process event =
        (.ok reply, process') ∧
      Served keyvalToUnicode before process event reply process' := by
  obtain ⟨reply, process', hserve, hserved⟩ := serve_owns allocator keyvalToUnicode howns event
  refine ⟨reply, process', ?_, hserved⟩
  simp [processMachine, hserve]

/-- An event about another object shows nothing of this one and keeps its value. -/
theorem isolated_silent {id : ℕ} (howns : Owns before process) {event : Event}
    (hother : useOf id event = none) :
    Owns before ((processMachine allocator keyvalToUnicode heap).step process event).2 ∧
      ((processMachine allocator keyvalToUnicode heap).step process event).2.value id =
        process.value id := by
  obtain ⟨reply, process', hstep, -, hkept, howns'⟩ :=
    @served_step allocator keyvalToUnicode heap _ _ howns event
  have hne : id ≠ event.id := by
    rintro rfl
    simp [useOf] at hother
  rw [hstep]
  exact ⟨howns', hkept id hne⟩

/-- An event about this object is answered as the engine over values answers it. -/
theorem isolated_move {id : ℕ} (howns : Owns before process) {event : Event} {use : Use}
    (huse : useOf id event = some use) :
    ((processMachine allocator keyvalToUnicode heap).step process event).1 =
        .ok ((lifetime keyvalToUnicode).step (process.value id) use).1 ∧
      Owns before ((processMachine allocator keyvalToUnicode heap).step process event).2 ∧
      ((processMachine allocator keyvalToUnicode heap).step process event).2.value id =
        ((lifetime keyvalToUnicode).step (process.value id) use).2 := by
  obtain ⟨reply, process', hstep, hserved, -, howns'⟩ :=
    @served_step allocator keyvalToUnicode heap _ _ howns event
  obtain ⟨rfl, rfl⟩ : event.id = id ∧ event.use = use := by simpa [useOf] using huse
  rw [hstep, ← hserved]
  exact ⟨rfl, howns', rfl⟩

variable (allocator keyvalToUnicode)

/-- **Isolation.** The answers to the events about one engine object are those of an
engine alone, and none of them is a fault, whatever the other objects do, wherever the
allocator places their blocks and whatever the heap held before. -/
theorem answers_isolated (id : ℕ) (events : List Event) :
    ((processMachine allocator keyvalToUnicode heap).trace events).flatMap
        (fun r => if r.input.id = id then [r.output] else []) =
      ((lifetime keyvalToUnicode).trace (events.filterMap (useOf id))).flatMap
        fun r => [.ok r.output] := by
  refine (processMachine allocator keyvalToUnicode heap).flatMap_traceFrom_eq_of_simulation
    (lifetime keyvalToUnicode) (useOf id) _ _
    (fun process value => Owns heap.blocks process ∧ process.value id = value) (fun _ => True)
    ?_ ?_ ⟨owns_init allocator keyvalToUnicode heap, rfl⟩ (fun _ _ => trivial)
  · rintro process _ event ⟨howns, rfl⟩ - hother
    have hne : event.id ≠ id := by
      intro hid
      simp [useOf, hid] at hother
    exact ⟨if_neg hne, isolated_silent heap howns hother⟩
  · rintro process _ event use ⟨howns, rfl⟩ - huse
    obtain ⟨hanswer, hnext⟩ := @isolated_move allocator keyvalToUnicode heap _ _ id howns _ _ huse
    have hid : event.id = id := by
      by_contra hne
      simp [useOf, hne] at huse
    exact ⟨(if_pos hid).trans (congrArg (fun output => [output]) hanswer), hnext⟩

/-- Over a whole run the process owns what it should, and every object has the value of
an engine alone. -/
theorem owns_stateAfter (events : List Event) :
    Owns heap.blocks ((processMachine allocator keyvalToUnicode heap).stateAfter events) ∧
      ∀ id, ((processMachine allocator keyvalToUnicode heap).stateAfter events).value id =
        (lifetime keyvalToUnicode).stateAfter (events.filterMap (useOf id)) := by
  induction events using List.reverseRecOn with
  | nil => exact ⟨owns_init allocator keyvalToUnicode heap, fun _ => rfl⟩
  | append_singleton events event ih =>
      obtain ⟨howns, hvalues⟩ := ih
      rw [Transducer.stateAfter_concat]
      refine ⟨?_, fun id => ?_⟩
      · obtain ⟨reply, process', hstep, -, -, howns'⟩ :=
          @served_step allocator keyvalToUnicode heap _ _ howns event
        rw [hstep]
        exact howns'
      · rw [List.filterMap_append]
        cases huse : useOf id event with
        | none =>
            rw [List.filterMap_cons_none huse, List.filterMap_nil, List.append_nil, ← hvalues id]
            exact (isolated_silent heap howns huse).2
        | some use =>
            rw [List.filterMap_cons_some huse, List.filterMap_nil, Transducer.stateAfter_concat,
              ← hvalues id]
            exact (isolated_move heap howns huse).2.2

/-- **Nothing leaks.** When the life of every engine object is over, every address of the
heap holds what it held before the first was created. -/
theorem heap_restored (events : List Event)
    (hover : ∀ id,
      (lifetime keyvalToUnicode).stateAfter (events.filterMap (useOf id)) = none) :
    ((processMachine allocator keyvalToUnicode heap).stateAfter events).heap.blocks =
      heap.blocks := by
  obtain ⟨howns, hvalues⟩ := owns_stateAfter allocator keyvalToUnicode heap events
  funext a
  refine howns.rest a fun id self hself => ?_
  obtain ⟨-, s, hstate⟩ := howns.state id self hself
  have hvalue := hvalues id
  rw [hover id, Process.value_of_state hself hstate] at hvalue
  cases hvalue

/-- Two objects, of which one is finalized with an accent still pending. -/
theorem heap_restored_two :
    ((processMachine (.bump Block) smallKeyvalToUnicode .empty).stateAfter
        [⟨0, .create⟩, ⟨1, .create⟩, ⟨0, .call (.processKeyEvent ⟨0x27, 40, 0⟩)⟩,
          ⟨0, .finalize⟩, ⟨1, .call (.processKeyEvent ⟨0x27, 40, 0⟩)⟩,
          ⟨1, .call (.processKeyEvent ⟨0x65, 18, 0⟩)⟩, ⟨1, .finalize⟩]).heap.blocks =
      (Heap.empty : Heap Block).blocks := by
  refine heap_restored _ _ _ _ fun id => ?_
  match id with
  | 0 => decide
  | 1 => decide
  | _ + 2 => rfl

end Isolation

end SilentCompose.Analysis
