/-
# A buffer of one place

Items are numbered by the step that brings them. A step puts its item into the
buffer, empties the buffer without a trace, delivers the buffered item and then its
own, or lets its own item pass by. Items are delivered in the order they came as
long as none passes by a full buffer.
-/

import Mathlib.Data.List.Basic

namespace SilentCompose.Foundations

/-- What a step does with its item and the buffer. -/
inductive Move
  | hold
  | drop
  | deliver
  | pass
  deriving DecidableEq

/-- The items delivered, in order. `buffered` is the item in the buffer and `item`
the one the next step brings; a full buffer keeps what it has. -/
def deliveries : Option ℕ → ℕ → List Move → List ℕ
  | _, _, [] => []
  | buffered, item, .hold :: rest => deliveries (some (buffered.getD item)) (item + 1) rest
  | _, item, .drop :: rest => deliveries none (item + 1) rest
  | buffered, item, .deliver :: rest =>
    buffered.toList ++ item :: deliveries none (item + 1) rest
  | buffered, item, .pass :: rest => item :: deliveries buffered (item + 1) rest

/-- No item passes by a full buffer. -/
def NoOvertaking : Bool → List Move → Prop
  | _, [] => True
  | _, .hold :: rest => NoOvertaking true rest
  | _, .drop :: rest => NoOvertaking false rest
  | _, .deliver :: rest => NoOvertaking false rest
  | full, .pass :: rest => full = false ∧ NoOvertaking full rest

/-- Without overtaking the deliveries are in order, and none comes before the
buffered item. -/
theorem deliveries_ordered {buffered : Option ℕ} {item : ℕ} {moves : List Move}
    (hbefore : ∀ old ∈ buffered, old < item) (hmoves : NoOvertaking buffered.isSome moves) :
    (deliveries buffered item moves).Pairwise (· < ·) ∧
      ∀ delivered ∈ deliveries buffered item moves, buffered.getD item ≤ delivered := by
  induction moves generalizing buffered item with
  | nil => simp [deliveries]
  | cons move rest ih =>
      have hold : buffered.getD item < item + 1 := by
        cases buffered with
        | none => exact Nat.lt_succ_self item
        | some old => exact Nat.lt_succ_of_lt (hbefore old rfl)
      cases move with
      | hold =>
          exact ih (by simpa using hold) hmoves
      | drop =>
          obtain ⟨hordered, hlater⟩ := @ih none (item + 1) (by simp) hmoves
          refine ⟨hordered, fun delivered hmem => ?_⟩
          exact Nat.le_trans (Nat.le_of_lt hold) (hlater delivered hmem)
      | deliver =>
          obtain ⟨hordered, hlater⟩ := @ih none (item + 1) (by simp) hmoves
          have hrest : (item :: deliveries none (item + 1) rest).Pairwise (· < ·) :=
            .cons hlater hordered
          cases buffered with
          | none =>
              refine ⟨hrest, fun delivered hmem => ?_⟩
              rcases List.mem_cons.mp hmem with rfl | hmem
              · exact Nat.le_refl _
              · exact Nat.le_trans (Nat.le_of_lt hold) (hlater delivered hmem)
          | some old =>
              have hold' : old < item := hbefore old rfl
              have hafter : ∀ delivered ∈ item :: deliveries none (item + 1) rest,
                  old < delivered := by
                intro delivered hmem
                rcases List.mem_cons.mp hmem with rfl | hmem
                · exact hold'
                · exact Nat.lt_of_lt_of_le hold (hlater delivered hmem)
              refine ⟨.cons hafter hrest, fun delivered hmem => ?_⟩
              rcases List.mem_cons.mp hmem with rfl | hmem
              · exact Nat.le_refl _
              · exact Nat.le_of_lt (hafter delivered hmem)
      | pass =>
          rcases hmoves with ⟨hempty, hmoves⟩
          obtain rfl : buffered = none := by simpa using hempty
          obtain ⟨hordered, hlater⟩ := @ih none (item + 1) (by simp) hmoves
          refine ⟨.cons hlater hordered, fun delivered hmem => ?_⟩
          rcases List.mem_cons.mp hmem with rfl | hmem
          · exact Nat.le_refl _
          · exact Nat.le_trans (Nat.le_of_lt hold) (hlater delivered hmem)

end SilentCompose.Foundations
