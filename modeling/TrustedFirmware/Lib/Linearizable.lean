import TrustedFirmware.Lib.Run

/-!
# Linearizable objects

Objects that are shared by several threads, and when they behave as if every operation took effect
at one moment between its call and its return.

A history is the list of calls and returns, in the order in which they happened. It is
linearizable if an atomic object could have had it (`Exec`): one that applies the operation of a
thread, in one step of its own, after the thread has called and before it returns, and returns
what the operation gave then. The rule `linearizable_of_simulation` shows it of an
implementation, step by step.
-/

namespace TrustedFirmware.Lib

universe u

variable {Cpu σ Op Res : Type u}

/-- A sequential object: its first state, and what an operation returns and does. -/
structure Object (σ Op Res : Type u) where
  init : σ
  apply : σ → Op → Res × σ

/-- A call or a return. -/
inductive HistoryEvent (Cpu Op Res : Type u)
  | call (cpu : Cpu) (op : Op)
  | ret (cpu : Cpu) (res : Res)

/-- Where a thread is: in no call, in a call that has not taken effect, in one that has. -/
inductive Status (Op Res : Type u)
  | idle
  | pending (op : Op)
  | done (res : Res)

/-- The atomic object and its threads. -/
structure Atomic (Cpu σ Op Res : Type u) where
  state : σ
  status : Cpu → Status Op Res

/-- The executions of the atomic object, with the histories that they have. -/
inductive Exec [DecidableEq Cpu] (O : Object σ Op Res) :
    List (HistoryEvent Cpu Op Res) → Atomic Cpu σ Op Res → Prop
  | init : Exec O [] ⟨O.init, fun _ => .idle⟩
  | call {h : List (HistoryEvent Cpu Op Res)} {a : Atomic Cpu σ Op Res} {cpu : Cpu} {op : Op} :
      Exec O h a → a.status cpu = .idle →
      Exec O (h ++ [.call cpu op]) ⟨a.state, Function.update a.status cpu (.pending op)⟩
  | effect {h : List (HistoryEvent Cpu Op Res)} {a : Atomic Cpu σ Op Res} {cpu : Cpu} {op : Op} :
      Exec O h a → a.status cpu = .pending op →
      Exec O h ⟨(O.apply a.state op).2, Function.update a.status cpu (.done (O.apply a.state op).1)⟩
  | ret {h : List (HistoryEvent Cpu Op Res)} {a : Atomic Cpu σ Op Res} {cpu : Cpu} {res : Res} :
      Exec O h a → a.status cpu = .done res →
      Exec O (h ++ [.ret cpu res]) ⟨a.state, Function.update a.status cpu .idle⟩

/-- The atomic object could have had this history. -/
def Linearizable [DecidableEq Cpu] (O : Object σ Op Res) (h : List (HistoryEvent Cpu Op Res)) :
    Prop :=
  ∃ a, Exec O h a

/-- An implementation whose every step the atomic object can follow has only linearizable
histories. -/
theorem linearizable_of_simulation [DecidableEq Cpu] {O : Object σ Op Res} {S L : Type u}
    {step : S → L → Option S} {history : S → List (HistoryEvent Cpu Op Res)}
    (rel : S → Atomic Cpu σ Op Res → Prop)
    (hstep : ∀ s l s' a, rel s a → Exec O (history s) a → step s l = some s' →
      ∃ a', Exec O (history s') a' ∧ rel s' a')
    {s s' : S} {ls : List L} (hinit : ∃ a, Exec O (history s) a ∧ rel s a)
    (hrun : run step s ls = some s') :
    ∃ a, Exec O (history s') a ∧ rel s' a := by
  refine @run_invariant _ _ _ (fun w => ∃ a, Exec O (history w) a ∧ rel w a) ?_ _ _ _ hinit hrun
  rintro w l w' ⟨a, hexec, ha⟩ hw
  exact hstep w l w' a ha hexec hw

end TrustedFirmware.Lib
