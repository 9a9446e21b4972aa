/-
# Programs that call out

A program ends with a result, reads or updates the state of its component, or asks
another party for something and goes on with the answer. Between a question and its
answer the other parties may call the component again, so a component runs on a
stack of suspended programs, and its inputs are calls and answers in any order.

Two rules make such runs tractable. A specification of the segments of a program,
from where it starts or resumes to where it asks or returns, becomes a statement
about every record of every run, provided each segment restores an invariant that the
next one may assume. And what is nested above a suspended program leaves it alone, so
it goes on with the answer to its own question.
-/

import SilentCompose.Foundations.Transducer

namespace SilentCompose.Foundations

/-! ## Programs -/

/-- Requests, and what kind of answer each of them gets. -/
structure Interface where
  /-- What can be asked for. -/
  Request : Type
  /-- What is answered to a request. -/
  Answer : Request → Type

/-- A program over the state `σ` of its component that asks through `P`. -/
inductive Program (σ : Type) (P : Interface) (ρ : Type)
  | done (result : ρ)
  | read (next : σ → Program σ P ρ)
  | update (f : σ → σ) (next : Program σ P ρ)
  | ask (request : P.Request) (next : P.Answer request → Program σ P ρ)

/-- Why a program stops for now. -/
inductive Halt (P : Interface) (ρ : Type)
  | asked (request : P.Request)
  | returned (result : ρ)

/-- Where a program stops for now, with what it does once it is answered. -/
inductive Stop (σ : Type) (P : Interface) (ρ : Type)
  | asked (request : P.Request) (next : P.Answer request → Program σ P ρ)
  | returned (result : ρ)

namespace Program

variable {σ : Type} {P : Interface} {ρ τ : Type}

/-- Run a program and go on with its result. -/
def bind : Program σ P ρ → (ρ → Program σ P τ) → Program σ P τ
  | .done result, k => k result
  | .read next, k => .read fun s => (next s).bind k
  | .update f next, k => .update f (next.bind k)
  | .ask request next, k => .ask request fun a => (next a).bind k

instance : Monad (Program σ P) where
  pure := .done
  bind := .bind

/-- The state of the component. -/
def get : Program σ P σ := .read .done

/-- Change the state of the component. -/
def modify (f : σ → σ) : Program σ P Unit := .update f (.done ())

/-- Ask another party. -/
def request (q : P.Request) : Program σ P (P.Answer q) := .ask q .done

@[simp]
theorem pure_eq (result : ρ) : (pure result : Program σ P ρ) = .done result := rfl

@[simp]
theorem read_bind (next : σ → Program σ P ρ) (k : ρ → Program σ P τ) :
    .read next >>= k = .read fun s => next s >>= k := rfl

@[simp]
theorem get_bind (k : σ → Program σ P τ) : get >>= k = .read k := rfl

/-- Returning the result as it is changes nothing. -/
theorem bind_done (program : Program σ P ρ) : (program >>= .done) = program := by
  induction program with
  | done result => rfl
  | read next ih => exact congrArg Program.read (funext ih)
  | update f next ih => exact congrArg (Program.update f) ih
  | ask request next ih => exact congrArg (Program.ask request) (funext ih)

/-- Run a program from a state until it asks or returns. -/
def run : Program σ P ρ → σ → Stop σ P ρ × σ
  | .done result, s => (.returned result, s)
  | .read next, s => (next s).run s
  | .update f next, s => next.run (f s)
  | .ask request next, s => (.asked request next, s)

/-- Run a program to its end on immediate answers, and list what it asked for. -/
def runWith (answers : (q : P.Request) → P.Answer q) :
    Program σ P ρ → σ → List P.Request × ρ × σ
  | .done result, s => ([], result, s)
  | .read next, s => (next s).runWith answers s
  | .update f next, s => next.runWith answers (f s)
  | .ask request next, s =>
    let (asked, result, s') := (next (answers request)).runWith answers s
    (request :: asked, result, s')

/-! ## Specifications of segments -/

/-- A program that started or was resumed in the state `start` and is now in another
one ends its segment as `now` says, and every later segment as `later` says. Each
segment restores `I`, and each later one may assume it: what happens before an
answer arrives is not known otherwise. -/
def Follows (I : σ → Prop) (later : σ → Halt P ρ → σ → Prop) :
    Program σ P ρ → (now : σ → Halt P ρ → σ → Prop) → (start : σ) → σ → Prop
  | .done result, now, start, s => I s ∧ now start (.returned result) s
  | .read next, now, start, s => (next s).Follows I later now start s
  | .update f next, now, start, s => next.Follows I later now start (f s)
  | .ask request next, now, start, s =>
    (I s ∧ now start (.asked request) s) ∧
      ∀ a s', I s' → (next a).Follows I later later s' s'

end Program

section Follows

variable {σ : Type} {P : Interface} {ρ : Type}

/-- What a program does once it is answered. -/
def Stop.Follows (I : σ → Prop) (later : σ → Halt P ρ → σ → Prop) : Stop σ P ρ → Prop
  | .asked _ next => ∀ a s, I s → (next a).Follows I later later s s
  | .returned _ => True

/-- The reason of a stop, without what comes after. -/
def Stop.halt : Stop σ P ρ → Halt P ρ
  | .asked request _ => .asked request
  | .returned result => .returned result

/-- A specified program that is run ends its segment as specified. -/
theorem Program.Follows.run {I : σ → Prop} {now later : σ → Halt P ρ → σ → Prop} {start : σ}
    {program : Program σ P ρ} {s : σ} (h : program.Follows I later now start s) :
    I (program.run s).2 ∧ now start (program.run s).1.halt (program.run s).2 ∧
      (program.run s).1.Follows I later := by
  induction program generalizing s with
  | done result => exact ⟨h.1, h.2, trivial⟩
  | read next ih => exact ih s h
  | update f next ih => exact ih h
  | ask request next ih => exact ⟨h.1.1, h.1.2, h.2⟩

end Follows

/-! ## Components and their runs -/

/-- A component answers the requests of `O` by programs that ask through `P`. -/
structure Component (σ : Type) (O P : Interface) where
  /-- The state of a new component. -/
  init : σ
  /-- The program that answers a call. -/
  body : (call : O.Request) → Program σ P (O.Answer call)

/-- A suspended program: the call it answers, its question, and how it goes on. -/
structure Frame (σ : Type) (O P : Interface) where
  call : O.Request
  request : P.Request
  next : P.Answer request → Program σ P (O.Answer call)

/-- A component between two inputs, with its suspended programs, the last one first. -/
structure Config (σ : Type) (O P : Interface) where
  state : σ
  stack : List (Frame σ O P)

/-- What the other parties do next: call the component, or answer the last question. -/
inductive Input (O P : Interface)
  | call (call : O.Request)
  | answer (request : P.Request) (a : P.Answer request)

/-- What the component does in turn: ask on behalf of a call, or return from it. An
answer to a question it did not ask last is ignored. -/
inductive Output (O P : Interface)
  | asked (call : O.Request) (request : P.Request)
  | returned (call : O.Request) (result : O.Answer call)
  | ignored

/-- How the end of a segment shows outside. -/
def Halt.output {O P : Interface} (call : O.Request) : Halt P (O.Answer call) → Output O P
  | .asked request => .asked call request
  | .returned result => .returned call result

namespace Component

variable {σ : Type} {O P : Interface}

/-- Return from a call, or suspend the program that answers it. -/
def settle (call : O.Request) (stack : List (Frame σ O P)) :
    Stop σ P (O.Answer call) × σ → Output O P × Config σ O P
  | (.asked request next, s) => (.asked call request, ⟨s, ⟨call, request, next⟩ :: stack⟩)
  | (.returned result, s) => (.returned call result, ⟨s, stack⟩)

/-- Settling at most adds to the stack. -/
theorem exists_stack_settle (call : O.Request) (stack : List (Frame σ O P))
    (stopped : Stop σ P (O.Answer call) × σ) :
    ∃ upper, (settle call stack stopped).2.stack = upper ++ stack := by
  rcases stopped with ⟨stop, s⟩
  cases stop with
  | asked request next => exact ⟨[⟨call, request, next⟩], rfl⟩
  | returned result => exact ⟨[], rfl⟩

/-! ## What every segment of a run does -/

/-- The invariant holds, and the suspended programs go on as specified from any state
in which it holds. -/
structure Sound (I : σ → Prop)
    (later : (call : O.Request) → σ → Halt P (O.Answer call) → σ → Prop)
    (config : Config σ O P) : Prop where
  /-- The state satisfies the invariant. -/
  invariant : I config.state
  /-- Whatever the answer and the state it arrives in, a suspended program goes on as
  specified. -/
  frames : ∀ frame ∈ config.stack, ∀ a s, I s →
    (frame.next a).Follows I (later frame.call) (later frame.call) s s

/-- What one input does: it starts a program, resumes the last one, or is ignored. -/
inductive Segment (first later : (call : O.Request) → σ → Halt P (O.Answer call) → σ → Prop) :
    Config σ O P → Input O P → Output O P → Config σ O P → Prop
  | started {pre post : Config σ O P} {call : O.Request} {halt : Halt P (O.Answer call)}
      (hfirst : first call pre.state halt post.state) :
      Segment first later pre (.call call) (halt.output call) post
  | resumed {pre post : Config σ O P} {frame : Frame σ O P} {stack : List (Frame σ O P)}
      {a : P.Answer frame.request} {halt : Halt P (O.Answer frame.call)}
      (hstack : pre.stack = frame :: stack)
      (hlater : later frame.call pre.state halt post.state) :
      Segment first later pre (.answer frame.request a) (halt.output frame.call) post
  | ignored {pre : Config σ O P} {request : P.Request} {a : P.Answer request} :
      Segment first later pre (.answer request a) .ignored pre

variable {I : σ → Prop} {first later : (call : O.Request) → σ → Halt P (O.Answer call) → σ → Prop}

/-- A specified segment that settles leaves a sound configuration. -/
theorem settle_sound {call : O.Request} {stack : List (Frame σ O P)}
    (hstack : ∀ frame ∈ stack, ∀ a s, I s →
      (frame.next a).Follows I (later frame.call) (later frame.call) s s)
    {stop : Stop σ P (O.Answer call)} {s : σ} (hinv : I s) (hstop : stop.Follows I (later call)) :
    (settle call stack (stop, s)).1 = stop.halt.output call ∧
      (settle call stack (stop, s)).2.state = s ∧
        Sound I later (settle call stack (stop, s)).2 := by
  cases stop with
  | returned result => exact ⟨rfl, rfl, hinv, hstack⟩
  | asked request next =>
      refine ⟨rfl, rfl, hinv, fun frame hmem => ?_⟩
      rcases List.mem_cons.mp hmem with rfl | hmem
      · exact hstop
      · exact hstack frame hmem

section Runs

variable [DecidableEq P.Request] (C : Component σ O P)

/-- The component as a machine over calls and answers. -/
def machine : Transducer (Config σ O P) (Input O P) (Output O P) where
  init := ⟨C.init, []⟩
  step
    | config, .call call => settle call config.stack ((C.body call).run config.state)
    | config, .answer request a =>
      match config.stack with
      | [] => (.ignored, config)
      | frame :: stack =>
        if h : request = frame.request then
          settle frame.call stack ((frame.next (h ▸ a)).run config.state)
        else (.ignored, config)

@[simp]
theorem machine_step_call (config : Config σ O P) (call : O.Request) :
    C.machine.step config (.call call) =
      settle call config.stack ((C.body call).run config.state) := rfl

/-- An answer to the last question resumes the program that asked it. -/
theorem machine_step_answer {config : Config σ O P} {frame : Frame σ O P}
    {stack : List (Frame σ O P)} (hstack : config.stack = frame :: stack)
    (a : P.Answer frame.request) :
    C.machine.step config (.answer frame.request a) =
      settle frame.call stack ((frame.next a).run config.state) := by
  simp [machine, hstack]

/-- One input takes a sound configuration to a sound one, by a specified segment. -/
theorem segment_step
    (hbody : ∀ call s, I s → (C.body call).Follows I (later call) (first call) s s)
    {config : Config σ O P} (hsound : Sound I later config) (input : Input O P) :
    Segment first later config input (C.machine.step config input).1
        (C.machine.step config input).2 ∧
      Sound I later (C.machine.step config input).2 := by
  rcases config with ⟨s, stack⟩
  cases input with
  | call call =>
      obtain ⟨hinv, hfirst, hstop⟩ := (hbody call s hsound.invariant).run
      obtain ⟨hout, hstate, hnext⟩ := settle_sound hsound.frames hinv hstop
      refine ⟨?_, hnext⟩
      rw [machine_step_call, hout]
      exact .started (hstate ▸ hfirst)
  | answer request a =>
      cases stack with
      | nil => exact ⟨.ignored, hsound⟩
      | cons frame stack =>
          by_cases hrequest : request = frame.request
          · subst hrequest
            have hframes := fun later hmem => hsound.frames later (List.mem_cons_of_mem frame hmem)
            obtain ⟨hinv, hlater, hstop⟩ :=
              (hsound.frames frame List.mem_cons_self a s hsound.invariant).run
            obtain ⟨hout, hstate, hnext⟩ := settle_sound hframes hinv hstop
            simp only [machine, ↓reduceDIte]
            refine ⟨?_, hnext⟩
            rw [hout]
            exact .resumed rfl (hstate ▸ hlater)
          · simp only [machine, hrequest, ↓reduceDIte]
            exact ⟨.ignored, hsound⟩

/-- **What holds of every segment holds of every run.** If every body follows its
specification from any state with the invariant, and the new component has it, then
every reachable configuration is sound. -/
theorem sound_of_reachable (hinit : I C.init)
    (hbody : ∀ call s, I s → (C.body call).Follows I (later call) (first call) s s)
    {config : Config σ O P} (hreach : C.machine.Reachable config) : Sound I later config := by
  refine Transducer.Reachable.induct (P := Sound I later) ⟨hinit, by simp [machine]⟩ ?_ hreach
  intro config input hsound
  exact (C.segment_step hbody hsound input).2

/-- Every record of a run is a specified segment between states with the invariant. -/
theorem segment_of_mem_trace (hinit : I C.init)
    (hbody : ∀ call s, I s → (C.body call).Follows I (later call) (first call) s s)
    {inputs : List (Input O P)} {r : Record (Config σ O P) (Input O P) (Output O P)}
    (hmem : r ∈ C.machine.trace inputs) :
    Segment first later r.pre r.input r.output r.post ∧ I r.pre.state ∧ I r.post.state := by
  obtain ⟨config, input, hreach, rfl⟩ := C.machine.exists_record_of_mem_trace hmem
  have hsound := C.sound_of_reachable hinit hbody hreach
  obtain ⟨hsegment, hnext⟩ := C.segment_step hbody hsound input
  exact ⟨hsegment, hsound.invariant, hnext.invariant⟩

/-! ## What is nested above a suspended program -/

/-- The inputs of a run answer only programs suspended above this depth. -/
def Above (config : Config σ O P) (depth : ℕ) (inputs : List (Input O P)) : Prop :=
  EveryStep inputs fun before input => ∀ request a, input = .answer request a →
    depth < (C.machine.stateFrom config before).stack.length

/-- An input that answers nothing in the lower part of the stack leaves it alone. -/
theorem exists_stack_step {config : Config σ O P} {input : Input O P}
    {upper base : List (Frame σ O P)} (hstack : config.stack = upper ++ base)
    (habove : ∀ request a, input = .answer request a → base.length < config.stack.length) :
    ∃ upper', (C.machine.step config input).2.stack = upper' ++ base := by
  rcases config with ⟨s, stack⟩
  obtain rfl : stack = upper ++ base := hstack
  cases input with
  | call call =>
      obtain ⟨pushed, hpushed⟩ := exists_stack_settle call (upper ++ base) ((C.body call).run s)
      exact ⟨pushed ++ upper, by simp [hpushed]⟩
  | answer request a =>
      cases upper with
      | nil => exact absurd (habove request a rfl) (by simp)
      | cons frame upper =>
          by_cases hrequest : request = frame.request
          · subst hrequest
            obtain ⟨pushed, hpushed⟩ :=
              exists_stack_settle frame.call (upper ++ base) ((frame.next a).run s)
            exact ⟨pushed ++ upper, by simp [machine, hpushed]⟩
          · exact ⟨frame :: upper, by simp [machine, hrequest]⟩

/-- **Nesting leaves the stack below alone.** -/
theorem exists_stack_of_above {config : Config σ O P} {inputs : List (Input O P)}
    {upper base : List (Frame σ O P)} (hstack : config.stack = upper ++ base)
    (habove : C.Above config base.length inputs) :
    ∃ upper', (C.machine.stateFrom config inputs).stack = upper' ++ base := by
  induction inputs generalizing config upper with
  | nil => exact ⟨upper, hstack⟩
  | cons input rest ih =>
      obtain ⟨hfirst, hrest⟩ := everyStep_cons.mp habove
      obtain ⟨upper', hnext⟩ := C.exists_stack_step hstack hfirst
      exact ih hnext hrest

/-- **A program is answered its own question.** When a call asks, and what happens next
answers nothing below it and leaves nothing above it, the next answer resumes it on top
of the stack it was called on. -/
theorem answer_after_nested {config : Config σ O P} {call : O.Request} {request : P.Request}
    {next : P.Answer request → Program σ P (O.Answer call)} {s : σ}
    (hask : (C.body call).run config.state = (.asked request next, s))
    {nested : List (Input O P)}
    (habove : C.Above (C.machine.step config (.call call)).2 (config.stack.length + 1) nested)
    (hback : (C.machine.stateFrom (C.machine.step config (.call call)).2 nested).stack.length =
      config.stack.length + 1) (a : P.Answer request) :
    C.machine.step (C.machine.stateFrom (C.machine.step config (.call call)).2 nested)
        (.answer request a) =
      settle call config.stack ((next a).run
        (C.machine.stateFrom (C.machine.step config (.call call)).2 nested).state) := by
  have hpushed : (C.machine.step config (.call call)).2.stack =
      [] ++ ⟨call, request, next⟩ :: config.stack := by simp [hask, settle]
  obtain ⟨upper, hstack⟩ := C.exists_stack_of_above hpushed habove
  -- The height says that nothing is left above the suspended program.
  have hupper : upper = [] := by
    have hlength := congrArg List.length hstack
    simp only [List.length_append, List.length_cons, hback] at hlength
    exact List.length_eq_zero_iff.mp (by omega)
  subst hupper
  exact C.machine_step_answer hstack a

end Runs

end Component

end SilentCompose.Foundations
