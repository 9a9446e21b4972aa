/-
# Protocols that programs keep

A protocol says what may be asked when, in a ghost state that follows the questions and
their answers. A program obeys a protocol if every question it can come to is allowed,
whatever it was answered before; while it waits, the other parties may change the state
of its component as far as it relies on. Obedience is checked along the program text and
then holds of every execution, finished or not.
-/

import SilentCompose.Foundations.Programs

namespace SilentCompose.Foundations

/-- What may be asked when, and what each answer changes. -/
structure Protocol (P : Interface) (μ : Type) where
  /-- What may be asked. -/
  allows : μ → P.Request → Prop
  /-- Where an answer leads. -/
  next : μ → (request : P.Request) → P.Answer request → μ

/-- Questions with their answers, in order. -/
abbrev Log (P : Interface) := List ((request : P.Request) × P.Answer request)

namespace Protocol

variable {P : Interface} {μ : Type} (protocol : Protocol P μ)

/-- Where a log leads. -/
def after (m : μ) : Log P → μ
  | [] => m
  | ⟨request, a⟩ :: rest => after (protocol.next m request a) rest

/-- Every question of the log was allowed when it was asked. -/
def Keeps (m : μ) : Log P → Prop
  | [] => True
  | ⟨request, a⟩ :: rest =>
    protocol.allows m request ∧ Keeps (protocol.next m request a) rest

end Protocol

namespace Program

variable {σ : Type} {P : Interface} {ρ : Type} (rely : σ → σ → Prop)

/-- An execution of the program from one state up to the rest of it in another one, and
what it asked on the way. -/
inductive Reaches : Program σ P ρ → σ → Log P → Program σ P ρ → σ → Prop
  | here {program : Program σ P ρ} {s : σ} : Reaches program s [] program s
  | read {next : σ → Program σ P ρ} {s s' : σ} {log : Log P} {rest : Program σ P ρ}
      (h : Reaches (next s) s log rest s') : Reaches (.read next) s log rest s'
  | update {f : σ → σ} {next : Program σ P ρ} {s s' : σ} {log : Log P} {rest : Program σ P ρ}
      (h : Reaches next (f s) log rest s') : Reaches (.update f next) s log rest s'
  | ask {request : P.Request} {next : P.Answer request → Program σ P ρ} {s t s' : σ}
      {log : Log P} {rest : Program σ P ρ} (a : P.Answer request) (hrely : rely s t)
      (h : Reaches (next a) t log rest s') :
      Reaches (.ask request next) s (⟨request, a⟩ :: log) rest s'

variable {rely} in
/-- What others do in fewer ways leaves fewer executions. -/
theorem Reaches.mono {rely' : σ → σ → Prop} (hsub : ∀ s t, rely' s t → rely s t)
    {program rest : Program σ P ρ} {s s' : σ} {log : Log P}
    (hreach : program.Reaches rely' s log rest s') : program.Reaches rely s log rest s' := by
  induction hreach with
  | here => exact .here
  | read h ih => exact .read ih
  | update h ih => exact .update ih
  | ask a hrely h ih => exact .ask a (hsub _ _ hrely) ih

variable {μ : Type} (protocol : Protocol P μ) (final : μ → ρ → σ → Prop)

/-- All questions that lie ahead are allowed, and every result is as `final` says. -/
def Obeys : Program σ P ρ → μ → σ → Prop
  | .done result, m, s => final m result s
  | .read next, m, s => (next s).Obeys m s
  | .update f next, m, s => next.Obeys m (f s)
  | .ask request next, m, s =>
    protocol.allows m request ∧
      ∀ a t, rely s t → (next a).Obeys (protocol.next m request a) t

variable {rely protocol final}

/-- **An obedient program keeps the protocol** in every execution, and what is left of it
is obedient still. -/
theorem Obeys.reaches {program rest : Program σ P ρ} {s s' : σ} {log : Log P} {m : μ}
    (hobeys : program.Obeys rely protocol final m s)
    (hreach : program.Reaches rely s log rest s') :
    protocol.Keeps m log ∧ rest.Obeys rely protocol final (protocol.after m log) s' := by
  induction hreach generalizing m with
  | here => exact ⟨trivial, hobeys⟩
  | read h ih => exact ih hobeys
  | update h ih => exact ih hobeys
  | ask a hrely h ih =>
      obtain ⟨hallowed, hnext⟩ := hobeys
      obtain ⟨hkeeps, hrest⟩ := ih (hnext a _ hrely)
      exact ⟨⟨hallowed, hkeeps⟩, hrest⟩

end Program

end SilentCompose.Foundations
