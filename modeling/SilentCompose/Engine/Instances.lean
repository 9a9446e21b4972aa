/-
# One process, many engine objects

IBus creates engine objects in one process, calls them in any order and finalizes them,
and all of them allocate from the same heap. Each event uses one engine object. A process
owns one compose state for every living object, at an address of its own, and nothing
else; seen from one object, it is the engine over values during that object's life.
-/

import SilentCompose.Engine.Memory

namespace SilentCompose.Engine

open SilentCompose.Foundations SilentCompose.Toolkit SilentCompose.Compose

/-! ## Processes -/

/-- A process: its heap, and the engine objects that IBus holds. -/
structure Process where
  heap : Heap Block
  engines : ℕ → Option Memory.ScEngine

/-- What IBus does with an engine object. -/
inductive Use
  | create
  | call (call : Call)
  | finalize
  deriving DecidableEq

/-- A use of one of the engine objects. -/
structure Event where
  id : ℕ
  use : Use
  deriving DecidableEq

section Processes

variable (allocator : Allocator Block) (keyvalToUnicode : KeyvalToUnicode)

/-- Serve one event. An object is created once and used only while it lives, so the other
events change nothing. -/
def Process.serve (process : Process) (event : Event) :
    Except HeapFault (Option Reply × Process) :=
  match event.use, process.engines event.id with
  | .create, none => do
    let (self, heap) ← (Memory.scEngineInit allocator).run process.heap
    pure (none, ⟨heap, Function.update process.engines event.id (some self)⟩)
  | .call call, some self => do
    let ((reply, self), heap) ← (Memory.call allocator keyvalToUnicode self call).run process.heap
    pure (some reply, ⟨heap, Function.update process.engines event.id (some self)⟩)
  | .finalize, some self => do
    let (_, heap) ← (Memory.finalize self).run process.heap
    pure (none, ⟨heap, Function.update process.engines event.id none⟩)
  | _, _ => pure (none, process)

/-- A process as a machine; a fault is its answer, and changes nothing else here. -/
def processMachine (heap : Heap Block) :
    Transducer Process Event (Except HeapFault (Option Reply)) where
  init := ⟨heap, fun _ => none⟩
  step process event :=
    match process.serve allocator keyvalToUnicode event with
    | .ok (reply, process') => (.ok reply, process')
    | .error fault => (.error fault, process)

/-- One engine object over values: absent, or an engine. -/
def lifetime : Transducer (Option ScEngine) Use (Option Reply) where
  init := none
  step
    | none, .create => (none, some scEngineInit)
    | some self, .call call =>
      (some ((engine keyvalToUnicode).step self call).1,
        some ((engine keyvalToUnicode).step self call).2)
    | some _, .finalize => (none, none)
    | self, _ => (none, self)

end Processes

/-! ## What a process owns -/

/-- The value of an engine object: its compose state in the heap, and its flag. -/
def Process.value (process : Process) (id : ℕ) : Option ScEngine :=
  match process.engines id with
  | some self =>
    match process.heap.blocks self.compose with
    | some (.composeState state) => some ⟨state, self.altgr⟩
    | _ => none
  | none => none

/-- Over what was in the heap before, a process owns the compose states of its living
engine objects and nothing else. -/
structure Owns (before : Address → Option Block) (process : Process) : Prop where
  /-- Every object has its state at an address that was free. -/
  state : ∀ id self, process.engines id = some self →
    before self.compose = none ∧
      ∃ s, process.heap.blocks self.compose = some (.composeState s)
  /-- No two objects share one. -/
  apart : ∀ i j self other, process.engines i = some self → process.engines j = some other →
    self.compose = other.compose → i = j
  /-- Everything else is as it was. -/
  rest : ∀ a, (∀ id self, process.engines id = some self → self.compose ≠ a) →
    process.heap.blocks a = before a

namespace Process

variable {process process' : Process} {id : ℕ}

theorem value_of_absent (h : process.engines id = none) : process.value id = none := by
  simp [value, h]

theorem value_of_state {self : Memory.ScEngine} {s : ComposeState}
    (hself : process.engines id = some self)
    (hstate : process.heap.blocks self.compose = some (.composeState s)) :
    process.value id = some ⟨s, self.altgr⟩ := by
  simp [value, hself, hstate]

/-- An object whose block is the same has the same value. -/
theorem value_congr (hengines : process'.engines id = process.engines id)
    (hblocks : ∀ self, process.engines id = some self →
      process'.heap.blocks self.compose = process.heap.blocks self.compose) :
    process'.value id = process.value id := by
  simp only [value, hengines]
  cases hself : process.engines id with
  | none => rfl
  | some self => simp [hblocks self hself]

end Process

namespace Owns

variable {before : Address → Option Block} {process : Process}

/-- No object of a process is at a free address. -/
theorem ne_of_free (howns : Owns before process) {a : Address}
    (hfree : process.heap.blocks a = none) {id : ℕ} {self : Memory.ScEngine}
    (hself : process.engines id = some self) : self.compose ≠ a := by
  rintro rfl
  obtain ⟨-, s, hstate⟩ := howns.state id self hself
  rw [hstate] at hfree
  cases hfree

/-- What the process does not own was free before, if it is free now. -/
theorem free_before (howns : Owns before process) {a : Address}
    (hfree : process.heap.blocks a = none) : before a = none := by
  rw [← howns.rest a fun id self hself => howns.ne_of_free hfree hself]
  exact hfree

/-- Replacing one object together with the block at its address keeps ownership, and the
values of the other objects. -/
theorem replace (howns : Owns before process) {process' : Process} {id : ℕ}
    {entry : Option Memory.ScEngine} {a : Address} {content : Option Block}
    (hengines : process'.engines = Function.update process.engines id entry)
    (hheap : process'.heap.blocks = Function.update process.heap.blocks a content)
    (hbefore : before a = none)
    (hothers : ∀ j other, j ≠ id → process.engines j = some other → other.compose ≠ a)
    (hhere : ∀ self, process.engines id = some self → self.compose = a)
    (hsome : ∀ self, entry = some self →
      self.compose = a ∧ ∃ s, content = some (.composeState s))
    (hnone : entry = none → content = none) :
    Owns before process' ∧ ∀ j, j ≠ id → process'.value j = process.value j := by
  have hblocks : ∀ x, x ≠ a → process'.heap.blocks x = process.heap.blocks x := fun x hx => by
    rw [hheap, Function.update_of_ne hx]
  have helsewhere : ∀ j, j ≠ id → process'.engines j = process.engines j := fun j hj => by
    rw [hengines, Function.update_of_ne hj]
  have hreplaced : process'.engines id = entry := by rw [hengines, Function.update_self]
  -- An object other than the replaced one is an object of before, at another address.
  have hother : ∀ j other, j ≠ id → process'.engines j = some other →
      process.engines j = some other ∧ other.compose ≠ a := fun j other hj hengine => by
    rw [helsewhere j hj] at hengine
    exact ⟨hengine, hothers j other hj hengine⟩
  refine ⟨⟨?_, ?_, ?_⟩, ?_⟩
  · intro j self hself
    by_cases hj : j = id
    · rw [hj, hreplaced] at hself
      obtain ⟨rfl, s, hcontent⟩ := hsome self hself
      exact ⟨hbefore, s, by rw [hheap, Function.update_self, hcontent]⟩
    · obtain ⟨hold, hne⟩ := hother j self hj hself
      obtain ⟨hfree, s, hstate⟩ := howns.state j self hold
      exact ⟨hfree, s, by rw [hblocks _ hne, hstate]⟩
  · intro i j self other hself hengine hsame
    by_cases hi : i = id <;> by_cases hj : j = id
    · rw [hi, hj]
    · rw [hi, hreplaced] at hself
      exact absurd (hsame ▸ (hsome self hself).1) (hother j other hj hengine).2
    · rw [hj, hreplaced] at hengine
      exact absurd (hsame.trans (hsome other hengine).1) (hother i self hi hself).2
    · exact howns.apart i j self other (hother i self hi hself).1 (hother j other hj hengine).1
        hsame
  · intro x hx
    by_cases hxa : x = a
    · subst hxa
      have hgone : entry = none := by
        by_contra hentry
        obtain ⟨self, hself⟩ := Option.ne_none_iff_exists'.mp hentry
        exact hx id self (hreplaced.trans hself) (hsome self hself).1
      rw [hheap, Function.update_self, hnone hgone, hbefore]
    · rw [hblocks x hxa]
      refine howns.rest x fun j self hself => ?_
      by_cases hj : j = id
      · rw [hj] at hself
        rw [hhere self hself]
        exact Ne.symm hxa
      · exact hx j self ((helsewhere j hj).trans hself)
  · intro j hj
    exact Process.value_congr (helsewhere j hj) fun self hself =>
      hblocks _ (hothers j self hj hself)

end Owns

section Steps

variable (allocator : Allocator Block) (keyvalToUnicode : KeyvalToUnicode)
  {before : Address → Option Block} {process : Process}

/-- What one event should do: its object goes on as the engine over values, every other
object keeps its value, and the process still owns what it should. -/
def Served (before : Address → Option Block) (process : Process) (event : Event)
    (reply : Option Reply) (process' : Process) : Prop :=
  (reply, process'.value event.id) =
      (lifetime keyvalToUnicode).step (process.value event.id) event.use ∧
    (∀ id, id ≠ event.id → process'.value id = process.value id) ∧ Owns before process'

theorem serve_create (howns : Owns before process) {id : ℕ} (habsent : process.engines id = none) :
    ∃ reply process',
      process.serve allocator keyvalToUnicode ⟨id, .create⟩ = .ok (reply, process') ∧
        Served keyvalToUnicode before process ⟨id, .create⟩ reply process' := by
  obtain ⟨self, heap, hrun, haltgr, -, hfree, hblocks⟩ :=
    @Memory.scEngineInit_yields allocator process.heap
  let process' : Process := ⟨heap, Function.update process.engines id (some self)⟩
  have hself : process'.engines id = some self := Function.update_self ..
  have hstate : process'.heap.blocks self.compose =
      some (.composeState Compose.composeStateNew) := by
    rw [hblocks, Function.update_self]
  obtain ⟨howns', hkept⟩ : Owns before process' ∧
      ∀ j, j ≠ id → process'.value j = process.value j := by
    refine howns.replace rfl hblocks (howns.free_before hfree)
      (fun j other _ hother => howns.ne_of_free hfree hother) ?_ ?_ ?_
    · intro other hother
      rw [habsent] at hother
      cases hother
    · intro other hother
      cases hother
      exact ⟨rfl, _, rfl⟩
    · intro hnone
      cases hnone
  refine ⟨none, process', ?_, ?_, hkept, howns'⟩
  · simp only [Process.serve, habsent, hrun]
    rfl
  · rw [Process.value_of_state hself hstate, Process.value_of_absent habsent, haltgr]
    rfl

theorem serve_call (howns : Owns before process) {id : ℕ} {self : Memory.ScEngine}
    (hself : process.engines id = some self) (call : Call) :
    ∃ reply process',
      process.serve allocator keyvalToUnicode ⟨id, .call call⟩ = .ok (reply, process') ∧
        Served keyvalToUnicode before process ⟨id, .call call⟩ reply process' := by
  obtain ⟨hbefore, s, hstate⟩ := howns.state id self hself
  obtain ⟨result, heap, hrun, hreply, hengine, hblocks⟩ :=
    Memory.call_yields allocator keyvalToUnicode hstate call
  rcases result with ⟨reply, self'⟩
  simp only at hreply hengine hblocks
  let process' : Process := ⟨heap, Function.update process.engines id (some self')⟩
  have hself' : process'.engines id = some self' := Function.update_self ..
  have haddress : self'.compose = self.compose := by rw [hengine]
  have hstate' : process'.heap.blocks self'.compose = some (.composeState
      ((engine keyvalToUnicode).step ⟨s, self.altgr⟩ call).2.compose) := by
    rw [haddress, hblocks, Function.update_self]
  obtain ⟨howns', hkept⟩ : Owns before process' ∧
      ∀ j, j ≠ id → process'.value j = process.value j := by
    refine howns.replace rfl hblocks hbefore
      (fun j other hj hother hsame => hj (howns.apart j id other self hother hself hsame)) ?_ ?_ ?_
    · intro other hother
      rw [hself] at hother
      cases hother
      rfl
    · intro other hother
      cases hother
      exact ⟨haddress, _, rfl⟩
    · intro hnone
      cases hnone
  refine ⟨some reply, process', ?_, ?_, hkept, howns'⟩
  · simp only [Process.serve, hself, hrun]
    rfl
  · rw [Process.value_of_state hself' hstate', Process.value_of_state hself hstate, hreply, hengine]
    rfl

theorem serve_finalize (howns : Owns before process) {id : ℕ} {self : Memory.ScEngine}
    (hself : process.engines id = some self) :
    ∃ reply process',
      process.serve allocator keyvalToUnicode ⟨id, .finalize⟩ = .ok (reply, process') ∧
        Served keyvalToUnicode before process ⟨id, .finalize⟩ reply process' := by
  obtain ⟨hbefore, s, hstate⟩ := howns.state id self hself
  obtain ⟨_, heap, hrun, hblocks⟩ := Memory.finalize_yields hstate
  let process' : Process := ⟨heap, Function.update process.engines id none⟩
  have hgone : process'.engines id = none := Function.update_self ..
  obtain ⟨howns', hkept⟩ : Owns before process' ∧
      ∀ j, j ≠ id → process'.value j = process.value j := by
    refine howns.replace rfl hblocks hbefore
      (fun j other hj hother hsame => hj (howns.apart j id other self hother hself hsame)) ?_ ?_ ?_
    · intro other hother
      rw [hself] at hother
      cases hother
      rfl
    · intro other hother
      cases hother
    · intro _
      rfl
  refine ⟨none, process', ?_, ?_, hkept, howns'⟩
  · simp only [Process.serve, hself, hrun]
    rfl
  · rw [Process.value_of_absent hgone, Process.value_of_state hself hstate]
    rfl

/-- **One event** is served without a fault, and does what it should. -/
theorem serve_owns (howns : Owns before process) (event : Event) :
    ∃ reply process', process.serve allocator keyvalToUnicode event = .ok (reply, process') ∧
      Served keyvalToUnicode before process event reply process' := by
  rcases event with ⟨id, use⟩
  cases hself : process.engines id with
  | none =>
      have hvalue := Process.value_of_absent hself
      cases use with
      | create => exact serve_create allocator keyvalToUnicode howns hself
      | call call =>
          refine ⟨none, process, by simp [Process.serve, hself, pure, Except.pure], ?_,
            fun _ _ => rfl, howns⟩
          rw [hvalue]
          rfl
      | finalize =>
          refine ⟨none, process, by simp [Process.serve, hself, pure, Except.pure], ?_,
            fun _ _ => rfl, howns⟩
          rw [hvalue]
          rfl
  | some self =>
      cases use with
      | create =>
          obtain ⟨-, s, hstate⟩ := howns.state id self hself
          refine ⟨none, process, by simp [Process.serve, hself, pure, Except.pure], ?_,
            fun _ _ => rfl, howns⟩
          rw [Process.value_of_state hself hstate]
          rfl
      | call call => exact serve_call allocator keyvalToUnicode howns hself call
      | finalize => exact serve_finalize allocator keyvalToUnicode howns hself

end Steps

end SilentCompose.Engine
