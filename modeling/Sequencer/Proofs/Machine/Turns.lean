import Sequencer.Machine.Turn

/-! What a machine goes through while signals are applied to it. User code is left open: a resolver
may answer anything, and a call that panics leaves the machine where it is. -/

namespace Sequencer
variable {κ : Type}

def Machine.receive (m : Machine κ) (s : Signal) : Turn κ := ⟨m, [], .work s.task false⟩

namespace Turn

/-- What follows a turn, provided that the user code it calls returns. -/
inductive Next : Turn κ → Turn κ → Prop
  | work {m : Machine κ} {ns : List Notice} {t : Task κ} {windingUp : Bool} :
    Next ⟨m, ns, .work t windingUp⟩ (m.turn t windingUp)
  | unpark {m : Machine κ} {ns : List Notice} {p : Parked} (h : m.parked = some p) :
    Next ⟨m, ns, .settle⟩ ⟨m.unpark, [], .work p.task false⟩
  | called {m : Machine κ} {ns : List Notice} {c : MethodCall κ} :
    Next ⟨m, ns, .call c⟩ ⟨m, [], .settle⟩
  | resolved {m : Machine κ} {ns : List Notice} {r : κ} {ps : List Json} (answer : String) :
    Next ⟨m, ns, .resolve r ps⟩ ⟨m.choose answer, [], .settle⟩
  | told {m : Machine κ} {ns : List Notice} {o : Outcome} {handler : Option κ} :
    Next ⟨m, ns, .finished o handler⟩ ⟨m, [], .settle⟩

def Settled (u : Turn κ) : Prop := u.act = .settle ∧ u.machine.parked = none

/-- Another signal may come next: nothing is left to do, or user code has been called, which
may panic. -/
def Idle (u : Turn κ) : Prop :=
  match u.act with
  | .work _ _ => False
  | .settle => u.machine.parked = none
  | .call _ | .resolve _ _ | .finished _ _ => True

/-- The turns from one turn up to another, which is not counted itself. -/
inductive Path : Turn κ → List (Turn κ) → Turn κ → Prop
  | refl (u : Turn κ) : Path u [] u
  | cons {u v w : Turn κ} {us : List (Turn κ)} (h : Next u v) (path : Path v us w) :
    Path u (u :: us) w

inductive Occurs : Turn κ → Prop
  | start (s : Sequence κ) : Occurs ⟨Machine.start s, [], .settle⟩
  | receive {u : Turn κ} (h : Occurs u) (idle : u.Idle) (s : Signal) :
    Occurs (u.machine.receive s)
  | next {u v : Turn κ} (h : Occurs u) (hn : Next u v) : Occurs v

theorem Settled.idle {u : Turn κ} (h : u.Settled) : u.Idle := by
  obtain ⟨m, ns, a⟩ := u
  obtain ⟨rfl, hp⟩ := h
  exact hp

theorem Settled.not_next {u v : Turn κ} (h : u.Settled) : ¬ Next u v := by
  rintro hn
  cases hn with
  | unpark hp => exact absurd (h.2.symm.trans hp) nofun
  | work | called | resolved | told => exact absurd h.1 nofun

theorem Settled.path {u v : Turn κ} {us : List (Turn κ)} (h : u.Settled) (path : Path u us v) :
    us = [] ∧ v = u := by
  cases path with
  | refl => exact ⟨rfl, rfl⟩
  | cons hn => exact absurd hn h.not_next

theorem Path.trans {u v w : Turn κ} {us vs : List (Turn κ)} (path : Path u us v)
    (path' : Path v vs w) : Path u (us ++ vs) w := by
  induction path with
  | refl => exact path'
  | cons hn _ ih => exact .cons hn (ih path')

theorem Path.exists_cons {u v : Turn κ} {us : List (Turn κ)} (path : Path u us v) :
    ∃ r, us ++ [v] = u :: r := by
  cases path with
  | refl => exact ⟨[], rfl⟩
  | cons => exact ⟨_, rfl⟩

theorem Occurs.path {u v : Turn κ} {us : List (Turn κ)} (h : u.Occurs) (path : Path u us v) :
    v.Occurs := by
  induction path with
  | refl => exact h
  | cons hn _ ih => exact ih (h.next hn)

end Turn

/-- A state in which a run takes its next signal. -/
def Machine.Reachable (m : Machine κ) : Prop := ∃ u : Turn κ, u.Occurs ∧ u.Idle ∧ u.machine = m

namespace Machine

theorem reachable_start (s : Sequence κ) : (start s).Reachable := ⟨_, .start s, rfl, rfl⟩

theorem Reachable.receive {m : Machine κ} (h : m.Reachable) (s : Signal) :
    (m.receive s).Occurs := by
  obtain ⟨u, hu, idle, rfl⟩ := h
  exact hu.receive idle s

end Machine
end Sequencer
