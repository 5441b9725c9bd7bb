import Sequencer.Diagnostic

/-! The verdict on a declaration: what it declares or why it is refused, with the reports made on
the way. Reports of a declaration that is refused in the end are kept. -/

namespace Sequencer

structure Verdict (α : Type) where
  result : Except DeclarationError α
  reports : List Diagnostic := []

namespace Verdict
variable {α β : Type}

def accept (a : α) : Verdict α := ⟨.ok a, []⟩

def refuse (e : DeclarationError) : Verdict α := ⟨.error e, []⟩

def ofExcept (r : Except DeclarationError α) : Verdict α := ⟨r, []⟩

def andThen (v : Verdict α) (f : α → Verdict β) : Verdict β :=
  match v.result with
  | .ok a => ⟨(f a).result, v.reports ++ (f a).reports⟩
  | .error e => ⟨.error e, v.reports⟩

def map (f : α → β) (v : Verdict α) : Verdict β := ⟨v.result.map f, v.reports⟩

/-- A refusal is blamed on the key whose value was refused. -/
def inField (key : String) (v : Verdict α) : Verdict α :=
  ⟨v.result.mapError (.field key), v.reports⟩

def report (d : Diagnostic) (v : Verdict α) : Verdict α := ⟨v.result, d :: v.reports⟩

/-- A refused branch is reported under its key and left out. -/
def optional (key : String) (v : Verdict α) : Verdict (Option α) :=
  match v.result with
  | .ok a => ⟨.ok (some a), v.reports⟩
  | .error e => ⟨.ok none, v.reports ++ [.invalidBranch key e]⟩

theorem ok_of_andThen {v : Verdict α} {f : α → Verdict β} {b : β}
    (h : (v.andThen f).result = .ok b) : ∃ a, v.result = .ok a ∧ (f a).result = .ok b := by
  unfold andThen at h
  cases hv : v.result with
  | ok a =>
    rw [hv] at h
    exact ⟨a, rfl, h⟩
  | error e =>
    rw [hv] at h
    exact absurd h nofun

theorem ok_of_ofExcept {r : Except DeclarationError α} {a : α} (h : (ofExcept r).result = .ok a) :
    r = .ok a := h

theorem ok_of_map {r : Except DeclarationError α} {f : α → β} {b : β} (h : r.map f = .ok b) :
    ∃ a, r = .ok a ∧ f a = b := by
  cases r with
  | ok a => exact ⟨a, rfl, Except.ok.inj h⟩
  | error e => exact absurd h nofun

theorem ok_of_inField {key : String} {v : Verdict α} {a : α} (h : (v.inField key).result = .ok a) :
    v.result = .ok a := by
  unfold inField at h
  cases hv : v.result with
  | ok b =>
    rw [hv] at h
    exact h
  | error e =>
    rw [hv] at h
    exact absurd h nofun

theorem ok_of_optional {key : String} {v : Verdict α} {a : α}
    (h : (v.optional key).result = .ok (some a)) : v.result = .ok a := by
  unfold optional at h
  cases hv : v.result with
  | ok b =>
    rw [hv] at h
    exact congrArg Except.ok (Option.some.inj (Except.ok.inj h))
  | error e =>
    rw [hv] at h
    exact absurd (Except.ok.inj h) nofun

end Verdict
end Sequencer
