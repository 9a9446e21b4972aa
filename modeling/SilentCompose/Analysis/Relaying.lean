/-
# What the input context relays

Apart from temporary text the context is transparent. What it asks of its delegate and
emits to the application is what the inputs before disposal say, in their order, and then
one release. And every call that asks one of them returns what it was answered, whatever
is nested between its question and the answer.
-/

import SilentCompose.Foundations.Observations
import SilentCompose.Im.Segments

namespace SilentCompose.Analysis

open SilentCompose.Foundations SilentCompose.Toolkit SilentCompose.Im

section Relaying

variable (features : GtkFeatures) (object : Pointer)

/-! ## What is asked of the others -/

/-- What an output asks of the delegate or emits to the application. -/
def outward : Output provided required → List ContextRequest
  | .asked _ (.delegate delegate c) => [.delegate delegate c]
  | .asked _ (.emit signal) => [.emit signal]
  | _ => []

/-- The signals that are forwarded: all but the announcements of temporary text, and the
rejected sequences only where both sides know of them. -/
def isForwarded (signal : ImSignal) : Bool :=
  !signal.isPreedit && (decide (signal.name ≠ .invalidComposition) ||
    (features.delegateHasInvalidComposition && features.contextHasInvalidComposition))

/-- What an input asks for while there is a delegate. -/
def relayed : Input provided required → List ContextRequest
  | .answer _ _ => []
  | .call call =>
    match passedOn call with
    | some ⟨c, _⟩ => [.delegate object c]
    | none =>
      match call with
      | .setProperty propId value =>
        match Property.ofId propId with
        | some property => [.delegate object (property.push value)]
        | none => []
      | .delegateSignal signal => if isForwarded features signal then [.emit signal] else []
      | _ => []

/-- The input disposes of the context. -/
def disposes : Input provided required → Bool
  | .call .dispose => true
  | _ => false

/-- The context has its delegate. -/
def IsLive (config : Config ContextState provided required) : Prop :=
  ContextSound features object config ∧ config.state.self.delegate = some object

/-- The context has released its delegate. -/
def IsOver (config : Config ContextState provided required) : Prop :=
  ContextSound features object config ∧ config.state.self.delegate = none

variable {features object}

/-- With all handlers connected, the signals that reach the application are the
forwarded ones. -/
theorem reachesClient_eq {state : ContextState} (hconnected : state.connected = handlers features)
    (signal : ImSignal) : reachesClient features state signal = isForwarded features signal := by
  rw [reachesClient, isForwarded, hconnected, handlers]
  cases hdelegate : features.delegateHasInvalidComposition <;> cases signal <;>
    simp [ImSignal.name, ImSignal.isPreedit]

/-- A later segment asks nothing of the others and keeps the delegate. -/
theorem outward_later {call : ContextCall} {state state' : ContextState}
    {halt : Halt required call.Answer} (hlater : LaterSegment call state halt state') :
    outward (halt.output (O := provided) call) = [] ∧
      state'.self.delegate = state.self.delegate := by
  cases hlater with
  | returned hasked => exact ⟨rfl, rfl⟩
  | chainedUp => exact ⟨rfl, rfl⟩

/-- While there is a delegate, a function other than disposal asks what its call says. -/
theorem outward_first_live {call : ContextCall} {state state' : ContextState}
    {halt : Halt required call.Answer} (hfirst : FirstSegment features call state halt state')
    (hwired : Wired features object state) (hdelegate : state.self.delegate = some object)
    (hcall : call ≠ .dispose) :
    outward (halt.output (O := provided) call) = relayed features object (.call call) ∧
      state'.self.delegate = some object := by
  have hreaches := reachesClient_eq (hwired.connected_of_some hdelegate)
  cases hfirst with
  | passedOn hpassed hsome =>
      obtain rfl := Option.some.inj (hdelegate.symm.trans hsome)
      simp [relayed, hpassed, Halt.output, outward, hdelegate]
  | refused hpassed hnone =>
      rw [hdelegate] at hnone
      cases hnone
  | pushed hproperty hsome =>
      obtain rfl := Option.some.inj (hdelegate.symm.trans hsome)
      simp [relayed, passedOn, hproperty, Halt.output, outward, hdelegate]
  | cached hproperty hnone =>
      rw [hdelegate] at hnone
      cases hnone
  | unknownProperty hproperty =>
      simp [relayed, passedOn, hproperty, Halt.output, outward, hdelegate]
  | reported => exact ⟨rfl, hdelegate⟩
  | disposed hsome => exact absurd rfl hcall
  | disposedAgain hnone => exact absurd rfl hcall
  | emptyPreedit => exact ⟨rfl, hdelegate⟩
  | defaultHandler hparent => exact ⟨rfl, hdelegate⟩
  | noDefaultHandler hparent => exact ⟨rfl, hdelegate⟩
  | emitted hemitted =>
      rw [hreaches] at hemitted
      simp [relayed, passedOn, hemitted, Halt.output, outward, hdelegate]
  | swallowed hswallowed =>
      rw [hreaches] at hswallowed
      simp [relayed, passedOn, hswallowed, Halt.output, outward, hdelegate]

/-- Disposal releases the delegate. -/
theorem outward_first_dispose {state state' : ContextState} {halt : Halt required Unit}
    (hfirst : FirstSegment features .dispose state halt state')
    (hdelegate : state.self.delegate = some object) :
    outward (halt.output (O := provided) ContextCall.dispose) = [.delegate object .unref] ∧
      state'.self.delegate = none := by
  cases hfirst with
  | passedOn hpassed hsome => cases hpassed
  | refused hpassed hnone => cases hpassed
  | disposed hsome =>
      obtain rfl := Option.some.inj (hdelegate.symm.trans hsome)
      exact ⟨rfl, rfl⟩
  | disposedAgain hnone =>
      rw [hdelegate] at hnone
      cases hnone

/-- Without a delegate nothing is asked of anyone. -/
theorem outward_first_over {call : ContextCall} {state state' : ContextState}
    {halt : Halt required call.Answer} (hfirst : FirstSegment features call state halt state')
    (hwired : Wired features object state) (hdelegate : state.self.delegate = none) :
    outward (halt.output (O := provided) call) = [] ∧ state'.self.delegate = none := by
  cases hfirst with
  | passedOn hpassed hsome =>
      rw [hdelegate] at hsome
      cases hsome
  | pushed hproperty hsome =>
      rw [hdelegate] at hsome
      cases hsome
  | disposed hsome =>
      rw [hdelegate] at hsome
      cases hsome
  | emitted hemitted =>
      simp [reachesClient, hwired.connected_of_none hdelegate] at hemitted
  | cached hproperty hnone => exact ⟨rfl, by simpa using hdelegate⟩
  | refused hpassed hnone => exact ⟨rfl, hdelegate⟩
  | unknownProperty hproperty => exact ⟨rfl, hdelegate⟩
  | reported => exact ⟨rfl, hdelegate⟩
  | disposedAgain hnone => exact ⟨rfl, hdelegate⟩
  | emptyPreedit => exact ⟨rfl, hdelegate⟩
  | defaultHandler hparent => exact ⟨rfl, hdelegate⟩
  | noDefaultHandler hparent => exact ⟨rfl, hdelegate⟩
  | swallowed hswallowed => exact ⟨rfl, hdelegate⟩

/-- With a delegate, an input other than disposal asks what it says, and the delegate
stays. -/
theorem outward_step_live {config : Config ContextState provided required}
    (hlive : IsLive features object config) {input : Input provided required}
    (hinput : disposes input = false) :
    outward ((contextMachine features object).step config input).1 =
        relayed features object input ∧
      IsLive features object ((contextMachine features object).step config input).2 := by
  rcases hlive with ⟨hsound, hdelegate⟩
  obtain ⟨hsegment, hnext⟩ := context_step features object hsound input
  generalize (contextMachine features object).step config input = result at hsegment hnext ⊢
  rcases result with ⟨output, post⟩
  cases hsegment with
  | @started _ call _ hfirst =>
      have hcall : call ≠ .dispose := by
        rintro rfl
        cases hinput
      obtain ⟨hout, hsame⟩ := outward_first_live hfirst hsound.invariant hdelegate hcall
      exact ⟨hout, hnext, hsame⟩
  | resumed hstack hlater =>
      obtain ⟨hout, hsame⟩ := outward_later hlater
      exact ⟨hout, hnext, hsame.trans hdelegate⟩
  | ignored => exact ⟨rfl, hnext, hdelegate⟩

/-- With a delegate, disposal releases it. -/
theorem outward_step_dispose {config : Config ContextState provided required}
    (hlive : IsLive features object config) {input : Input provided required}
    (hinput : disposes input = true) :
    outward ((contextMachine features object).step config input).1 =
        [.delegate object .unref] ∧
      IsOver features object ((contextMachine features object).step config input).2 := by
  rcases hlive with ⟨hsound, hdelegate⟩
  obtain rfl : input = .call .dispose := by
    cases input with
    | answer request a => cases hinput
    | call call => cases call <;> first | rfl | cases hinput
  obtain ⟨hsegment, hnext⟩ := context_step features object hsound (.call .dispose)
  generalize (contextMachine features object).step config (.call .dispose) = result
    at hsegment hnext ⊢
  rcases result with ⟨output, post⟩
  cases hsegment with
  | started hfirst =>
      obtain ⟨hout, hgone⟩ := outward_first_dispose hfirst hdelegate
      exact ⟨hout, hnext, hgone⟩

/-- Without a delegate no input asks anything of the others. -/
theorem outward_step_over {config : Config ContextState provided required}
    (hover : IsOver features object config) (input : Input provided required) :
    outward ((contextMachine features object).step config input).1 = [] ∧
      IsOver features object ((contextMachine features object).step config input).2 := by
  rcases hover with ⟨hsound, hdelegate⟩
  obtain ⟨hsegment, hnext⟩ := context_step features object hsound input
  generalize (contextMachine features object).step config input = result at hsegment hnext ⊢
  rcases result with ⟨output, post⟩
  cases hsegment with
  | started hfirst =>
      obtain ⟨hout, hsame⟩ := outward_first_over hfirst hsound.invariant hdelegate
      exact ⟨hout, hnext, hsame⟩
  | resumed hstack hlater =>
      obtain ⟨hout, hsame⟩ := outward_later hlater
      exact ⟨hout, hnext, hsame.trans hdelegate⟩
  | ignored => exact ⟨rfl, hnext, hdelegate⟩

variable (features object)

/-- **The context is transparent until it is disposed of.** Over any run, everything it
asks of its delegate and emits to the application, in order, is what the inputs before
the first disposal say, each once, and then one release of the delegate. -/
theorem requests_eq (inputs : List (Input provided required)) :
    ((contextMachine features object).trace inputs).flatMap (fun r => outward r.output) =
      (inputs.takeWhile fun input => !disposes input).flatMap (relayed features object) ++
        if inputs.any disposes then [.delegate object .unref] else [] := by
  have hinit : IsLive features object (contextMachine features object).init := by
    refine ⟨contextSound_init features object, ?_⟩
    change (context features object).init.self.delegate = some object
    rw [context, creation_eq]
  exact (contextMachine features object).flatMap_traceFrom_of_phases
    (fun config input (hlive : IsLive features object config) hinput =>
      outward_step_live hlive hinput)
    (fun config input hlive hinput => outward_step_dispose hlive hinput)
    (fun config input (hover : IsOver features object config) => outward_step_over hover input)
    hinit inputs

/-! ## Answers find their calls -/

/-- What a call asks first in a state, and what it returns for the answer. -/
def question (state : ContextState) (call : ContextCall) :
    Option ((q : ContextRequest) × (q.Answer → call.Answer)) :=
  match passedOn call with
  | some ⟨c, reply⟩ => state.self.delegate.map fun delegate => ⟨.delegate delegate c, reply⟩
  | none =>
    match call with
    | .delegateSignal signal =>
      if reachesClient features state signal then some ⟨.emit signal, id⟩ else none
    | .invalidComposition str =>
      if features.parentHandlesInvalidComposition then some ⟨.parentInvalidComposition str, id⟩
      else none
    | _ => none

variable {features}

/-- A call with a question asks it and returns what the answer becomes. -/
theorem run_of_question {state : ContextState} {call : ContextCall} {q : ContextRequest}
    {reply : q.Answer → call.Answer} (hquestion : question features state call = some ⟨q, reply⟩) :
    (scImContextClass features call).run state =
      (.asked q fun a => .done (reply a), state) := by
  unfold question at hquestion
  cases hpassed : passedOn call with
  | some forwarding =>
      rcases forwarding with ⟨c, reply'⟩
      rw [scImContextClass_of_passedOn hpassed]
      cases hdelegate : state.self.delegate with
      | none => simp [hpassed, hdelegate] at hquestion
      | some delegate =>
          simp only [hpassed, hdelegate, Option.map_some] at hquestion
          cases hquestion
          simp only [callDelegate, Program.get_bind, Program.read_bind, Program.run, hdelegate]
          rfl
  | none =>
      simp only [hpassed] at hquestion
      cases call with
      | delegateSignal signal =>
          cases hreaches : reachesClient features state signal with
          | false => simp [hreaches] at hquestion
          | true =>
              simp only [hreaches, ↓reduceIte] at hquestion
              cases hquestion
              simp only [scImContextClass, delegateSignal_eq, Program.run, hreaches]
              rfl
      | invalidComposition str =>
          cases hparent : features.parentHandlesInvalidComposition with
          | false => simp [hparent] at hquestion
          | true =>
              simp only [hparent, ↓reduceIte] at hquestion
              cases hquestion
              simp only [scImContextClass, invalidComposition, hparent]
              rfl
      | _ => cases hquestion

/-- **An answer finds its call.** A call that asks the delegate, the application or the
parent class returns what it was answered, whatever completes in between: calls of the
application, signals of the delegate, disposal, each nested in whatever way. -/
theorem answer_finds_call {config : Config ContextState provided required} {call : ContextCall}
    {q : ContextRequest} {reply : q.Answer → call.Answer}
    (hquestion : question features config.state call = some ⟨q, reply⟩)
    {nested : List (Input provided required)}
    (habove : (context features object).Above
      ((contextMachine features object).step config (.call call)).2 (config.stack.length + 1)
      nested)
    (hback : ((contextMachine features object).stateFrom
      ((contextMachine features object).step config (.call call)).2 nested).stack.length =
        config.stack.length + 1) (a : q.Answer) :
    let asked := (contextMachine features object).step config (.call call)
    let after := (contextMachine features object).stateFrom asked.2 nested
    asked.1 = .asked call q ∧
      (contextMachine features object).step after (.answer q a) =
        (.returned call (reply a), ⟨after.state, config.stack⟩) := by
  have hrun := run_of_question hquestion
  intro asked after
  refine ⟨?_, ?_⟩
  · simp only [asked, Component.machine_step_call]
    change (Component.settle call config.stack ((scImContextClass features call).run _)).1 = _
    rw [hrun]
    rfl
  · exact (context features object).answer_after_nested hrun habove hback a

/-- A key press during which the delegate commits a text that the application accepts
is answered as the delegate answers it. -/
theorem answer_finds_call_keypress :
    let machine := contextMachine ⟨true, true, true⟩ 7
    let asked := machine.step machine.init (.call (.filterKeypress 3))
    let after := machine.stateFrom asked.2
      [.call (.delegateSignal (.commit (.ofText ['é']))),
        .answer (.emit (.commit (.ofText ['é']))) ()]
    asked.1 = .asked (.filterKeypress 3) (.delegate 7 (.filterKeypress 3)) ∧
      machine.step after (.answer (.delegate 7 (.filterKeypress 3)) true) =
        (.returned (.filterKeypress 3) true, ⟨after.state, []⟩) := by
  have hquestion : question ⟨true, true, true⟩ (contextMachine ⟨true, true, true⟩ 7).init.state
      (.filterKeypress 3) = some ⟨.delegate 7 (.filterKeypress 3), id⟩ := rfl
  refine answer_finds_call 7 hquestion ?_ rfl true
  -- The only answer in between is to the signal, above the key press.
  refine everyStep_cons.mpr ⟨by simp, everyStep_cons.mpr ⟨?_, everyStep_nil⟩⟩
  intro request a _
  exact Nat.lt_succ_self 1

end Relaying

end SilentCompose.Analysis
