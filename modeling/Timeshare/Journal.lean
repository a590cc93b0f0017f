/-!
# The journal of the machine

Every operation of the machine answers with a `Reply`: its result, the state it
leaves behind, and the events that it recorded on the way, oldest first. Events
are observations only. No operation reads them, so statements about results and
states never have to mention them; the console alone decides which of them
become lines.
-/

namespace Timeshare

/-- How much attention an event asks for, the gravest first. -/
inductive Severity
  | error
  | warn
  | info
  | debug
  | trace
  deriving DecidableEq

namespace Severity

/-- The position of a severity among all of them; graver ones come first. -/
def rank : Severity → Nat
  | error => 1
  | warn => 2
  | info => 3
  | debug => 4
  | trace => 5

/-- The label of a severity, five characters wide. -/
def label : Severity → String
  | error => "ERROR"
  | warn => "WARN "
  | info => "INFO "
  | debug => "DEBUG"
  | trace => "TRACE"

end Severity

/-- The part of the machine that records an event. -/
inductive Source
  | scheduler
  | process
  | engine
  | memory
  | translation
  | kernel
  deriving DecidableEq

/-- The path by which a source is named on the console. -/
def Source.path : Source → String
  | scheduler => "sched"
  | process => "sched::process"
  | engine => "cpu::engine"
  | memory => "vm::manager"
  | translation => "translate"
  | kernel => "kernel"

/-- Something that happened in the machine, as it is reported to the console. -/
structure Event where
  severity : Severity
  source : Source
  text : String
  deriving DecidableEq

/-- What an operation on a state `σ` answers with: the result, the state that it
leaves behind, and the events that it recorded, oldest first. -/
structure Reply (σ α : Type) where
  result : α
  state : σ
  events : Array Event := #[]

namespace Reply

variable {σ τ α β : Type}

/-- The reply with `f` applied to its result. -/
def map (f : α → β) (r : Reply σ α) : Reply σ β := ⟨f r.result, r.state, r.events⟩

/-- The reply of an operation on a part of a larger state. -/
def lift (f : σ → τ) (r : Reply σ α) : Reply τ α := ⟨r.result, f r.state, r.events⟩

@[simp] theorem result_map (f : α → β) (r : Reply σ α) : (r.map f).result = f r.result := rfl

@[simp] theorem state_map (f : α → β) (r : Reply σ α) : (r.map f).state = r.state := rfl

@[simp] theorem result_lift (f : σ → τ) (r : Reply σ α) : (r.lift f).result = r.result := rfl

@[simp] theorem state_lift (f : σ → τ) (r : Reply σ α) : (r.lift f).state = f r.state := rfl

end Reply

end Timeshare
