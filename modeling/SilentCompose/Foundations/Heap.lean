/-
# A heap of blocks

Blocks are allocated, read, written and freed by address. An allocator may place a new
block at any address that is free, one that was freed a moment ago included. Reading,
writing or freeing an address that holds no block is a fault, so a program that runs
without one frees nothing twice and uses nothing after it was freed.

`Yields` says that a program runs without a fault to a result and a heap with a
property. It has one rule for each operation; what an operation does not mention it
leaves alone, because the heap afterwards is given in full.
-/

import Mathlib.Data.Nat.Basic
import Mathlib.Logic.Function.Basic

namespace SilentCompose.Foundations

/-! ## Heaps and programs over them -/

/-- Where a block is; zero is the null address. -/
abbrev Address := ℕ

/-- What each address holds; beyond some bound, and at the null address, nothing. -/
structure Heap (β : Type) where
  /-- The block at an address. -/
  blocks : Address → Option β
  /-- From here on all addresses are free. -/
  bound : ℕ
  free_of_bound_le : ∀ a, bound ≤ a → blocks a = none
  free_null : blocks 0 = none

/-- Uses of an address that holds no block. -/
inductive HeapFault
  | badLoad (address : Address)
  | badStore (address : Address)
  | badFree (address : Address)
  deriving DecidableEq

/-- A program over a heap, which may run into a fault. -/
abbrev HeapM (β : Type) := StateT (Heap β) (Except HeapFault)

/-- An allocator chooses a free address other than the null one. -/
structure Allocator (β : Type) where
  /-- Where the next block is placed. -/
  place : Heap β → Address
  place_ne_null : ∀ heap, place heap ≠ 0
  place_free : ∀ heap : Heap β, heap.blocks (place heap) = none

namespace Heap

variable {β : Type}

/-- An empty heap. -/
def empty : Heap β where
  blocks _ := none
  bound := 0
  free_of_bound_le _ _ := rfl
  free_null := rfl

/-- Change what an address other than the null one holds. -/
def set (heap : Heap β) (a : Address) (block : Option β) (hnull : a ≠ 0) : Heap β where
  blocks := Function.update heap.blocks a block
  bound := max heap.bound (a + 1)
  free_of_bound_le x hx := by
    have hne : x ≠ a := by omega
    rw [Function.update_of_ne hne]
    exact heap.free_of_bound_le x (by omega)
  free_null := by
    rw [Function.update_of_ne hnull.symm]
    exact heap.free_null

/-- Only an address other than the null one holds a block. -/
theorem ne_null_of_block {heap : Heap β} {a : Address} {block : β}
    (h : heap.blocks a = some block) : a ≠ 0 := by
  rintro rfl
  rw [heap.free_null] at h
  cases h

end Heap

/-- The allocator that never places two blocks at the same address. -/
def Allocator.bump (β : Type) : Allocator β where
  place heap := heap.bound + 1
  place_ne_null heap := Nat.succ_ne_zero heap.bound
  place_free heap := heap.free_of_bound_le _ (Nat.le_succ heap.bound)

section Operations

variable {β : Type}

/-- Place a new block. -/
def malloc (allocator : Allocator β) (block : β) : HeapM β Address := do
  let heap ← get
  let a := allocator.place heap
  set (heap.set a (some block) (allocator.place_ne_null heap))
  pure a

/-- Read the block at an address. -/
def load (a : Address) : HeapM β β := do
  let heap ← get
  match heap.blocks a with
  | some block => pure block
  | none => throw (.badLoad a)

/-- Replace the block at an address. -/
def store (a : Address) (block : β) : HeapM β Unit := do
  let heap ← get
  match h : heap.blocks a with
  | some _ => set (heap.set a (some block) (Heap.ne_null_of_block h))
  | none => throw (.badStore a)

/-- Free the block at an address; on the null address nothing happens. -/
def free (a : Address) : HeapM β Unit := do
  let heap ← get
  if a = 0 then pure ()
  else
    match h : heap.blocks a with
    | some _ => set (heap.set a none (Heap.ne_null_of_block h))
    | none => throw (.badFree a)

end Operations

/-! ## Programs that run without a fault -/

/-- From this heap the program runs without a fault to a result and a heap with this
property. -/
def Yields {β : Type} {α : Type} (program : HeapM β α) (heap : Heap β)
    (post : α → Heap β → Prop) : Prop :=
  ∃ result heap', program.run heap = .ok (result, heap') ∧ post result heap'

namespace Yields

variable {β : Type} {α γ : Type} {program : HeapM β α} {heap : Heap β}
  {post : α → Heap β → Prop}

theorem pure {result : α} (h : post result heap) : Yields (Pure.pure result) heap post :=
  ⟨result, heap, rfl, h⟩

/-- Sequencing: what the first program establishes is what the second starts from. -/
theorem bind {next : α → HeapM β γ} {last : γ → Heap β → Prop} (hfirst : Yields program heap post)
    (hnext : ∀ result heap', post result heap' → Yields (next result) heap' last) :
    Yields (program >>= next) heap last := by
  obtain ⟨result, heap', hrun, hpost⟩ := hfirst
  obtain ⟨final, heap'', hrun', hlast⟩ := hnext result heap' hpost
  refine ⟨final, heap'', ?_, hlast⟩
  rw [StateT.run_bind, hrun]
  exact hrun'

theorem mono {weaker : α → Heap β → Prop} (h : Yields program heap post)
    (hweaker : ∀ result heap', post result heap' → weaker result heap') :
    Yields program heap weaker := by
  obtain ⟨result, heap', hrun, hpost⟩ := h
  exact ⟨result, heap', hrun, hweaker result heap' hpost⟩

variable {a : Address} {block : β}

/-- A program that reads a block goes on with it. -/
theorem load_bind {next : β → HeapM β α} (hblock : heap.blocks a = some block)
    (h : Yields (next block) heap post) : Yields (Foundations.load a >>= next) heap post := by
  have hrun : (Foundations.load a).run heap = .ok (block, heap) := by
    simp only [Foundations.load, StateT.run_bind, StateT.run_get, pure_bind]
    rw [hblock]
    rfl
  obtain ⟨result, heap', hnext, hpost⟩ := h
  refine ⟨result, heap', ?_, hpost⟩
  rw [StateT.run_bind, hrun]
  exact hnext

theorem store (hblock : heap.blocks a = some block) (new : β) :
    Yields (Foundations.store a new) heap fun _ heap' =>
      heap'.blocks = Function.update heap.blocks a (some new) := by
  refine ⟨(), heap.set a (some new) (Heap.ne_null_of_block hblock), ?_, rfl⟩
  simp only [Foundations.store, StateT.run_bind, StateT.run_get, pure_bind]
  split
  · rfl
  · simp_all

theorem free (hblock : heap.blocks a = some block) :
    Yields (Foundations.free a) heap fun _ heap' =>
      heap'.blocks = Function.update heap.blocks a none := by
  refine ⟨(), heap.set a none (Heap.ne_null_of_block hblock), ?_, rfl⟩
  simp only [Foundations.free, StateT.run_bind, StateT.run_get, pure_bind,
    if_neg (Heap.ne_null_of_block hblock)]
  split
  · rfl
  · simp_all

/-- Freeing the null address does nothing. -/
theorem free_null {post : Unit → Heap β → Prop} (h : post () heap) :
    Yields (Foundations.free 0) heap post :=
  ⟨(), heap, rfl, h⟩

end Yields

/-! ## New blocks -/

/-- The address holds a new block of this content, or is null if there is no content;
every other address is as before. -/
def Allocated {β : Type} (before : Address → Option β) (content : Option β) (a : Address)
    (after : Address → Option β) : Prop :=
  match content with
  | none => a = 0 ∧ after = before
  | some block => a ≠ 0 ∧ before a = none ∧ after = Function.update before a (some block)

namespace Allocated

variable {β : Type} {before mid after : Address → Option β} {content other : Option β}
  {a b : Address}

/-- Two new blocks may be thought of in either order. -/
theorem swap (hfirst : Allocated before content a mid) (hsecond : Allocated mid other b after) :
    ∃ mid', Allocated before other b mid' ∧ Allocated mid' content a after := by
  cases content with
  | none =>
      obtain ⟨rfl, rfl⟩ := hfirst
      exact ⟨after, hsecond, rfl, rfl⟩
  | some block =>
      obtain ⟨hnull, hfree, rfl⟩ := hfirst
      cases other with
      | none =>
          obtain ⟨rfl, rfl⟩ := hsecond
          exact ⟨before, ⟨rfl, rfl⟩, hnull, hfree, rfl⟩
      | some second =>
          obtain ⟨hnull', hfree', rfl⟩ := hsecond
          have hne : b ≠ a := by
            rintro rfl
            simp at hfree'
          rw [Function.update_of_ne hne] at hfree'
          refine ⟨Function.update before b (some second), ⟨hnull', hfree', rfl⟩, hnull, ?_, ?_⟩
          · rw [Function.update_of_ne hne.symm]
            exact hfree
          · exact Function.update_comm hne.symm _ _ before

/-- The address is null exactly where there is no content. -/
theorem eq_null_iff (h : Allocated before content a after) : a = 0 ↔ content = none := by
  cases content with
  | none => simpa using h.1
  | some block => simpa using h.1

/-- A new block can be read. -/
theorem get_new {block : β} (h : Allocated before (some block) a after) : after a = some block := by
  obtain ⟨-, -, rfl⟩ := h
  simp

/-- Replacing a block that was there before has nothing to do with a new one. -/
theorem update {p : Address} {old : β} (h : Allocated before content a after)
    (hold : before p = some old) (new : Option β) :
    Allocated (Function.update before p new) content a (Function.update after p new) := by
  cases content with
  | none =>
      obtain ⟨rfl, rfl⟩ := h
      exact ⟨rfl, rfl⟩
  | some block =>
      obtain ⟨hnull, hfree, rfl⟩ := h
      have hne : a ≠ p := by
        rintro rfl
        rw [hfree] at hold
        cases hold
      refine ⟨hnull, ?_, Function.update_comm hne _ _ before⟩
      rw [Function.update_of_ne hne]
      exact hfree

/-- A block that was there before is still there. -/
theorem get_of_before {p : Address} {old : β} (h : Allocated before content a after)
    (hold : before p = some old) : after p = some old := by
  cases content with
  | none =>
      obtain ⟨-, rfl⟩ := h
      exact hold
  | some block =>
      obtain ⟨-, hfree, rfl⟩ := h
      have hne : p ≠ a := by
        rintro rfl
        rw [hfree] at hold
        cases hold
      rw [Function.update_of_ne hne]
      exact hold

end Allocated

section NewBlocks

variable {β : Type} {heap : Heap β} {before : Address → Option β} {content : Option β}
  {a : Address}

/-- Allocation yields a new block. -/
theorem yields_malloc (allocator : Allocator β) (block : β) :
    Yields (malloc allocator block) heap fun a heap' =>
      Allocated heap.blocks (some block) a heap'.blocks :=
  ⟨_, _, rfl, allocator.place_ne_null heap, allocator.place_free heap, rfl⟩

/-- Freeing a new block restores what was before it. -/
theorem Allocated.yields_free (h : Allocated before content a heap.blocks) :
    Yields (free a) heap fun _ heap' => heap'.blocks = before := by
  cases content with
  | none =>
      obtain ⟨rfl, hblocks⟩ := h
      exact Yields.free_null hblocks
  | some block =>
      obtain ⟨-, hfree, hblocks⟩ := h
      have hblock : heap.blocks a = some block := by simp [hblocks]
      refine (Yields.free hblock).mono fun _ heap' hfreed => ?_
      rw [hfreed, hblocks, Function.update_idem]
      exact Function.update_eq_self_iff.mpr hfree.symm

/-- Two new blocks may be freed in the order in which they were allocated. -/
theorem Allocated.yields_free_two {mid : Address → Option β} {other : Option β} {b : Address}
    {α : Type} {next : HeapM β α} {post : α → Heap β → Prop}
    (hfirst : Allocated before content a mid) (hsecond : Allocated mid other b heap.blocks)
    (hnext : ∀ heap', heap'.blocks = before → Yields next heap' post) :
    Yields (do free a; free b; next) heap post := by
  obtain ⟨mid', hother, hcontent⟩ := hfirst.swap hsecond
  refine hcontent.yields_free.bind fun _ heap' hfreed => ?_
  rw [← hfreed] at hother
  exact hother.yields_free.bind fun _ heap'' hrestored => hnext heap'' hrestored

end NewBlocks

end SilentCompose.Foundations
