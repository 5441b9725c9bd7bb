import Sequencer.Entry
import Sequencer.Label

/-! Building sequences. The label table is kept beside the entries: the last entry that carries
a label is the one that the label finds. -/

namespace Sequencer.Sequence
variable {κ : Type}

def withRegistry (registry : Registry κ) : Sequence κ := { registry }

/-- An empty sequence with the registry and the error policy of another. -/
def child (s : Sequence κ) : Sequence κ :=
  { breakOnError := s.breakOnError, registry := s.registry }

def named (s : Sequence κ) (name : String) : Sequence κ := { s with name := some name }

def setBreakOnError (s : Sequence κ) (flag : Bool) : Sequence κ := { s with breakOnError := flag }

def handleSuccess (s : Sequence κ) (handler : κ) : Sequence κ :=
  { s with onSuccess := some handler }

def handleError (s : Sequence κ) (handler : κ) : Sequence κ :=
  { s with onError := some handler }

def size (s : Sequence κ) : Nat := s.entries.length

def isEmpty (s : Sequence κ) : Bool := s.entries.isEmpty

/-- Appends an entry and files it under its label. -/
def push (s : Sequence κ) (e : Entry κ) : Sequence κ :=
  { s with
    entries := s.entries ++ [e]
    labels := match e.label with
      | some l => s.labels.insert l s.entries.length
      | none => s.labels }

/-- The index of the last entry that carries the label spelled by a text. -/
def labelIndex (s : Sequence κ) (text : String) : Option Nat :=
  (Label.clean text).bind s.labels.get?

@[simp] theorem entries_push (s : Sequence κ) (e : Entry κ) :
    (s.push e).entries = s.entries ++ [e] := rfl

@[simp] theorem registry_push (s : Sequence κ) (e : Entry κ) :
    (s.push e).registry = s.registry := rfl

@[simp] theorem breakOnError_push (s : Sequence κ) (e : Entry κ) :
    (s.push e).breakOnError = s.breakOnError := rfl

@[simp] theorem registry_child (s : Sequence κ) : s.child.registry = s.registry := rfl

@[simp] theorem breakOnError_child (s : Sequence κ) :
    s.child.breakOnError = s.breakOnError := rfl

end Sequencer.Sequence
