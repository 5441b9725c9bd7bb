import Sequencer.Document
import Sequencer.Engine.Code
import Sequencer.Rehearsal.Script

/-! Making the declarations and sequences that a script describes. Parts are made before the whole,
and what is reported on the way is kept in order. -/

namespace Sequencer.Rehearsal

/-- What a rehearsal writes down besides the calls it receives. -/
inductive Note where
  | reported (diagnostic : Diagnostic)
  | refused (error : DeclarationError)
  | returned (value : Json)
  | state (status : Status)

structure Made (α : Type) where
  result : Except DocumentError α
  notes : List Note := []

namespace Made
variable {α β : Type}

def andThen (m : Made α) (f : α → Made β) : Made β :=
  match m.result with
  | .ok a => ⟨(f a).result, m.notes ++ (f a).notes⟩
  | .error e => ⟨.error e, m.notes⟩

instance : Monad Made where
  pure a := ⟨.ok a, []⟩
  bind := andThen

def ofReports (a : α) (ds : List Diagnostic) : Made α := ⟨.ok a, ds.map .reported⟩

def withNotes (m : Made α) : Made (α × List Note) :=
  match m.result with
  | .ok a => ⟨.ok (a, m.notes), []⟩
  | .error e => ⟨.error e, m.notes⟩

/-- Notes made before, which are kept also when nothing is made. -/
def ifRefused (notes : List Note) (m : Made α) : Made α :=
  match m.result with
  | .ok a => ⟨.ok a, m.notes⟩
  | .error e => ⟨.error e, notes ++ m.notes⟩

end Made

inductive Returned where
  | nothing
  | index (index : Option Nat)
  | refusal (error : DeclarationError)

structure Snapshot where
  sequence : Sequence Handle
  returned : Returned
  notes : List Note

def Snapshot.allNotes (s : Snapshot) : List Note :=
  match s.returned with
  | .refusal e => s.notes ++ [.refused e]
  | _ => s.notes

def Source.make (cast : Cast) (names : Option (List String)) : Source → Made (Sequence Handle)
  | .json v =>
    match Document.ofJson (cast.registry names) v with
    | .ok (s, ds) => .ofReports s ds
    | .error e => ⟨.error e, []⟩
  | .toml text =>
    match Document.ofToml (cast.registry names) text with
    | .ok (s, ds) => .ofReports s ds
    | .error e => ⟨.error e, []⟩
  | .empty => pure {}
  | .blank => pure (.withRegistry (cast.registry names))

def addTimes (s : Sequence Handle) (made : Made (Declaration Handle)) : Nat → Made (Sequence Handle)
  | 0 => pure s
  | n + 1 => do
    let d ← made
    let (s, ds) := s.add d
    let s ← Made.ofReports s ds
    addTimes s made n

def last (s : Sequence Handle) : List Snapshot → Sequence Handle
  | [] => s
  | snap :: snaps => last snap.sequence snaps

mutual

def Draft.make (cast : Cast) : Draft → Made (Declaration Handle)
  | .json v => pure (.json v)
  | .named n => pure (.named n)
  | .operation n => pure (.operation (.operation n))
  | .members ms => pure (.object (.ofMembers ms))
  | .sequence ⟨source, names, steps⟩ => do
    let s ← source.make cast names
    let snaps ← makeSteps cast s steps
    ⟨.ok (.sequence (last s snaps)), snaps.flatMap Snapshot.allNotes⟩
  | .object fields => do return .object (← makeFields cast {} fields)

def makeFields (cast : Cast) (c : Clauses Handle) : List DraftField → Made (Clauses Handle)
  | [] => pure c
  | f :: fs => do makeFields cast (← makeField cast c f) fs

def makeField (cast : Cast) (c : Clauses Handle) : DraftField → Made (Clauses Handle)
  | .label s => pure { c with label := some s }
  | .jump s => pure { c with jump := some s }
  | .params v => pure { c with params := some v }
  | .doBreak b => pure { c with doBreak := some b }
  | .method d => do return { c with method := some (← d.make cast) }
  | .condition d => do return { c with condition := some (← d.make cast) }
  | .whenTrue d => do return { c with whenTrue := some (← d.make cast) }
  | .whenFalse d => do return { c with whenFalse := some (← d.make cast) }
  | .block d => do return { c with block := some (← d.make cast) }
  | .onSuccess d => do return { c with onSuccess := some (← d.make cast) }
  | .sequence d => do return { c with sequence := some (← d.make cast) }
  | .controlFlag b => pure { c with control := some (.flag b) }
  | .control d => do return { c with control := some (.method (← d.make cast)) }
  | .onErrorFlag b => pure { c with onError := some (.flag b) }
  | .onError d => do return { c with onError := some (.entry (← d.make cast)) }
  | .gotoLabel l => pure { c with goto := some (.label l) }
  | .gotoResolver n ps => pure { c with goto := some (.resolver (.resolver n) ps) }
  | .gotoNamed n ps => pure { c with goto := some (.named n ps) }
  | .errorMessage t => pure { c with error := some (.message t) }
  | .error d => do return { c with error := some (.method (← d.make cast)) }

def makeSteps (cast : Cast) (s : Sequence Handle) : List BuildStep → Made (List Snapshot)
  | [] => pure []
  | step :: steps => do
    let ((s, returned), notes) ← (makeStep cast s step).withNotes
    let snap : Snapshot := ⟨s, returned, notes⟩
    let snaps ← (makeSteps cast s steps).ifRefused snap.allNotes
    return snap :: snaps

def makeStep (cast : Cast) (s : Sequence Handle) : BuildStep → Made (Sequence Handle × Returned)
  | .named n => pure (s.named n, .nothing)
  | .breakOnError b => pure (s.setBreakOnError b, .nothing)
  | .add n d => do return (← addTimes s (d.make cast) n, .nothing)
  | .tryAdd d => do
    let d ← d.make cast
    let v := s.tryAdd d
    match v.result with
    | .ok s => .ofReports (s, .nothing) v.reports
    | .error e => .ofReports (s, .refusal e) v.reports
  | .child => pure (s.child, .nothing)
  | .labelIndex t => pure (s, .index (s.labelIndex t))
  | .onSuccess id actions => pure (s.handleSuccess (.success id actions), .nothing)
  | .onError id actions => pure (s.handleError (.failure id actions), .nothing)

end

/-- The sequence of a blueprint before and after every step. -/
def Blueprint.unfold (cast : Cast) : Blueprint → Made (List Snapshot)
  | ⟨source, names, steps⟩ => do
    let (s, notes) ← (source.make cast names).withNotes
    let snaps ← (makeSteps cast s steps).ifRefused notes
    return ⟨s, .nothing, notes⟩ :: snaps

def Blueprint.make (cast : Cast) (b : Blueprint) : Made (Sequence Handle) :=
  (b.unfold cast).andThen fun snaps =>
    ⟨.ok (last {} snaps), snaps.flatMap Snapshot.allNotes⟩

end Sequencer.Rehearsal
