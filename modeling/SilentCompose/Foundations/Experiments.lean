/-
# Experiments on machines

What an observer who sees only answers can do with a machine. A word that leads every
reachable state back to the fresh one makes the future independent of the past, and a
word that no two reachable states answer alike identifies the state, so that no part of
it is redundant.

Two machines work in a row when the second reads what the first answers. Together they
are one machine, whose answers are those of the second to the answers of the first. A
machine that takes the steps of another one under a translation of states answers as it
does.
-/

import SilentCompose.Foundations.Transducer
import Mathlib.Data.Set.Function

namespace SilentCompose.Foundations

universe uσ uτ uα uβ uγ

namespace Transducer

variable {σ : Type uσ} {τ : Type uτ} {α : Type uα} {β : Type uβ} {γ : Type uγ}

section Experiments

variable (M : Transducer σ α β)

/-! ## Answers -/

/-- What the machine answers to a list of inputs, from `s` on. -/
def answersFrom (s : σ) (xs : List α) : List β := (M.traceFrom s xs).map Record.output

/-- What a fresh machine answers to a list of inputs. -/
def answers (xs : List α) : List β := M.answersFrom M.init xs

@[simp]
theorem answersFrom_nil (s : σ) : M.answersFrom s [] = [] := rfl

@[simp]
theorem answersFrom_cons (s : σ) (a : α) (rest : List α) :
    M.answersFrom s (a :: rest) = (M.step s a).1 :: M.answersFrom (M.step s a).2 rest := rfl

theorem answersFrom_append (s : σ) (xs ys : List α) :
    M.answersFrom s (xs ++ ys) = M.answersFrom s xs ++ M.answersFrom (M.stateFrom s xs) ys := by
  simp only [answersFrom, traceFrom_append, List.map_append]

/-! ## Resetting -/

/-- **After a reset the past is forgotten.** Behind a word that leads to the fresh state
the answers are those of a fresh machine. -/
theorem answers_append_of_reset {before word : List α}
    (hreset : M.stateFrom (M.stateAfter before) word = M.init) (after : List α) :
    M.answers (before ++ word ++ after) =
      M.answers before ++ M.answersFrom (M.stateAfter before) word ++ M.answers after := by
  rw [answers, answersFrom_append, answersFrom_append, stateFrom_append]
  change _ ++ M.answersFrom (M.stateFrom (M.stateAfter before) word) after = _
  rw [hreset]
  rfl

/-! ## Identifying the state -/

/-- No two reachable states answer this word alike. -/
def Identifies (word : List α) : Prop :=
  Set.InjOn (fun s => M.answersFrom s word) {s | M.Reachable s}

/-- A word identifies the state if its answers determine a label and every reachable
state is determined by its label. -/
theorem identifies_of_label {κ : Type*} {word : List α} {state : κ → σ}
    (hreach : ∀ s, M.Reachable s → ∃ k, state k = s)
    (hlabel : Function.Injective fun k => M.answersFrom (state k) word) :
    M.Identifies word := by
  intro s hs t ht hsame
  obtain ⟨k, rfl⟩ := hreach s hs
  obtain ⟨l, rfl⟩ := hreach t ht
  exact congrArg state (hlabel hsame)

end Experiments

/-! ## Machines in a row -/

/-- Both machines in a row. -/
def cascade (first : Transducer σ α β) (second : Transducer τ β γ) : Transducer (σ × τ) α γ where
  init := (first.init, second.init)
  step state a :=
    let (b, s) := first.step state.1 a
    let (c, t) := second.step state.2 b
    (c, (s, t))

/-- The second machine answers the answers of the first. -/
theorem answersFrom_cascade (first : Transducer σ α β) (second : Transducer τ β γ) (s : σ) (t : τ)
    (xs : List α) :
    (first.cascade second).answersFrom (s, t) xs =
      second.answersFrom t (first.answersFrom s xs) := by
  induction xs generalizing s t with
  | nil => rfl
  | cons a rest ih =>
      rw [answersFrom_cons, answersFrom_cons, answersFrom_cons, ← ih]
      rfl

theorem answers_cascade (first : Transducer σ α β) (second : Transducer τ β γ) (xs : List α) :
    (first.cascade second).answers xs = second.answers (first.answers xs) :=
  answersFrom_cascade first second _ _ xs

/-- **Translated states, same answers.** -/
theorem answersFrom_of_translation (M : Transducer σ α β) (N : Transducer τ α β) {f : τ → σ}
    (hstep : ∀ t a, M.step (f t) a = ((N.step t a).1, f (N.step t a).2)) (t : τ) (xs : List α) :
    M.answersFrom (f t) xs = N.answersFrom t xs := by
  induction xs generalizing t with
  | nil => rfl
  | cons a rest ih => rw [answersFrom_cons, answersFrom_cons, hstep, ih]

end Transducer

end SilentCompose.Foundations
