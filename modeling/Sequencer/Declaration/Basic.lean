import Sequencer.Entry

/-! Declarations are steps as callers write them, before anything about them is checked: a handle,
a name, a ready sequence, a structured object, or a value of a document with the same keys. -/

namespace Sequencer

inductive GotoClause (κ : Type) where
  | label (name : String)
  | resolver (handle : κ) (params : Option Json)
  | named (name : String) (params : Option Json)

mutual

inductive Declaration (κ : Type) where
  | operation (handle : κ)
  | named (name : String)
  | object (clauses : Clauses κ)
  | sequence (built : Sequence κ)
  | json (value : Json)

inductive LoopClause (κ : Type) where
  | flag (value : Bool)
  | method (call : Declaration κ)

/-- The value of the `on-error` key: `false` drops the errors of the loop. -/
inductive FailureClause (κ : Type) where
  | flag (value : Bool)
  | entry (handler : Declaration κ)

inductive ErrorClause (κ : Type) where
  | message (text : String)
  | method (call : Declaration κ)

/-- A structured declaration: every key that means something, all of them optional. -/
structure Clauses (κ : Type) where
  label : Option String := none
  method : Option (Declaration κ) := none
  params : Option Json := none
  condition : Option (Declaration κ) := none
  whenTrue : Option (Declaration κ) := none
  whenFalse : Option (Declaration κ) := none
  control : Option (LoopClause κ) := none
  block : Option (Declaration κ) := none
  onSuccess : Option (Declaration κ) := none
  onError : Option (FailureClause κ) := none
  goto : Option (GotoClause κ) := none
  error : Option (ErrorClause κ) := none
  doBreak : Option Bool := none
  sequence : Option (Declaration κ) := none
  jump : Option String := none

end

/-! How deep declarations nest. A member of a document is less deep than the object that it is a
member of, and every declaration in a clause is at most as deep as the clauses together. -/

def maximum : List Nat → Nat
  | [] => 0
  | n :: ns => max n (maximum ns)

theorem le_maximum {n : Nat} {ns : List Nat} (h : n ∈ ns) : n ≤ maximum ns := by
  induction ns with
  | nil => simp at h
  | cons m ns ih =>
    rcases List.mem_cons.1 h with rfl | h
    · exact Nat.le_max_left _ _
    · exact Nat.le_trans (ih h) (Nat.le_max_right _ _)

theorem maximum_lt {ns : List Nat} {b : Nat} (hb : 0 < b) (h : ∀ n ∈ ns, n < b) :
    maximum ns < b := by
  induction ns with
  | nil => exact hb
  | cons m ns ih =>
    exact Nat.max_lt.2 ⟨h m (by simp), ih fun n hn => h n (List.mem_cons_of_mem _ hn)⟩

mutual

noncomputable def Declaration.depth {κ : Type} : Declaration κ → Nat
  | .operation _ => 0
  | .named _ => 0
  | .object c => c.depth + 1
  | .sequence _ => 0
  | .json v => 2 * sizeOf v + 1

noncomputable def Clauses.depth {κ : Type} : Clauses κ → Nat
  | ⟨_, m, _, i, t, f, l, b, s, r, _, e, _, q, _⟩ =>
    maximum [depthOf m, depthOf i, depthOf t, depthOf f, loopDepth l, depthOf b, depthOf s,
      failureDepth r, errorDepth e, depthOf q]

noncomputable def depthOf {κ : Type} : Option (Declaration κ) → Nat
  | none => 0
  | some d => d.depth

noncomputable def loopDepth {κ : Type} : Option (LoopClause κ) → Nat
  | some (.method d) => d.depth
  | _ => 0

noncomputable def failureDepth {κ : Type} : Option (FailureClause κ) → Nat
  | some (.entry d) => d.depth
  | _ => 0

noncomputable def errorDepth {κ : Type} : Option (ErrorClause κ) → Nat
  | some (.method d) => d.depth
  | _ => 0

end

namespace Clauses
variable {κ : Type}

theorem depthOf_method_le (c : Clauses κ) : depthOf c.method ≤ c.depth := by
  cases c; exact le_maximum (by simp)

theorem depthOf_condition_le (c : Clauses κ) : depthOf c.condition ≤ c.depth := by
  cases c; exact le_maximum (by simp)

theorem depthOf_whenTrue_le (c : Clauses κ) : depthOf c.whenTrue ≤ c.depth := by
  cases c; exact le_maximum (by simp)

theorem depthOf_whenFalse_le (c : Clauses κ) : depthOf c.whenFalse ≤ c.depth := by
  cases c; exact le_maximum (by simp)

theorem depthOf_block_le (c : Clauses κ) : depthOf c.block ≤ c.depth := by
  cases c; exact le_maximum (by simp)

theorem depthOf_onSuccess_le (c : Clauses κ) : depthOf c.onSuccess ≤ c.depth := by
  cases c; exact le_maximum (by simp)

theorem depthOf_sequence_le (c : Clauses κ) : depthOf c.sequence ≤ c.depth := by
  cases c; exact le_maximum (by simp)

theorem loopDepth_control_le (c : Clauses κ) : loopDepth c.control ≤ c.depth := by
  cases c; exact le_maximum (by simp)

theorem failureDepth_onError_le (c : Clauses κ) : failureDepth c.onError ≤ c.depth := by
  cases c; exact le_maximum (by simp)

theorem errorDepth_error_le (c : Clauses κ) : errorDepth c.error ≤ c.depth := by
  cases c; exact le_maximum (by simp)

end Clauses
end Sequencer
