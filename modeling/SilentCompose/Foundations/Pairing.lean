/-
# Greedy pairing of a list

Some elements of a list open a pair and are held back until the next element
closes it; all others stand alone. Reading the list two elements at a time gives
the declarative meaning of a held-back element; a machine that remembers at most
one of them computes the same list from left to right.
-/

import SilentCompose.Foundations.Transducer

namespace SilentCompose.Foundations

universe uα uκ uγ

variable {α : Type uα} {κ : Type uκ} {γ : Type uγ}

/-- How the elements of a list pair up: which ones open a pair, what a pair
yields once it is closed, and what an element outside every pair yields. -/
structure Pairing (α : Type uα) (κ : Type uκ) (γ : Type uγ) where
  /-- What is held back when this element opens a pair. -/
  opens : α → Option κ
  /-- What the pair yields when this element closes it. -/
  close : κ → α → List γ
  /-- What this element yields outside every pair. -/
  alone : α → List γ

namespace Pairing

variable (P : Pairing α κ γ)

/-- Greedy left-to-right pairing. An element that opens a pair yields nothing by
itself, and its pair takes the next element whatever that is. -/
def pairUp : List α → List γ
  | [] => []
  | [a] =>
    match P.opens a with
    | none => P.alone a
    | some _ => []
  | a :: b :: rest =>
    match P.opens a with
    | none => P.alone a ++ pairUp (b :: rest)
    | some k => P.close k b ++ pairUp rest

/-- The machine that holds back at most one opening element. -/
def holding : Transducer (Option κ) α (List γ) where
  init := none
  step
    | none, a =>
      match P.opens a with
      | none => (P.alone a, none)
      | some k => ([], some k)
    | some k, a => (P.close k a, none)

theorem holding_step_alone {a : α} (ha : P.opens a = none) :
    P.holding.step none a = (P.alone a, none) := by
  simp [holding, ha]

theorem holding_step_open {a : α} {k : κ} (ha : P.opens a = some k) :
    P.holding.step none a = ([], some k) := by
  simp [holding, ha]

@[simp]
theorem holding_step_close (k : κ) (a : α) : P.holding.step (some k) a = (P.close k a, none) := rfl

/-- Everything the holding machine yields over a list, from a held element on. -/
def heldYield (held : Option κ) (xs : List α) : List γ :=
  (P.holding.traceFrom held xs).flatMap Record.output

@[simp]
theorem heldYield_nil (held : Option κ) : P.heldYield held [] = [] := rfl

theorem heldYield_cons (held : Option κ) (a : α) (rest : List α) :
    P.heldYield held (a :: rest) =
      (P.holding.step held a).1 ++ P.heldYield (P.holding.step held a).2 rest := rfl

/-- **The holding machine computes the greedy pairing.** -/
theorem heldYield_none (xs : List α) : P.heldYield none xs = P.pairUp xs := by
  induction xs using pairUp.induct P with
  | case1 => rfl
  | case2 a ha => simp [heldYield_cons, P.holding_step_alone ha, pairUp, ha]
  | case3 a k ha => simp [heldYield_cons, P.holding_step_open ha, pairUp, ha]
  | case4 a b rest ha ih => rw [heldYield_cons, P.holding_step_alone ha, ih, pairUp, ha]
  | case5 a b rest k ha ih =>
      rw [heldYield_cons, P.holding_step_open ha, heldYield_cons, holding_step_close, ih, pairUp,
        ha]
      rfl

end Pairing

end SilentCompose.Foundations
