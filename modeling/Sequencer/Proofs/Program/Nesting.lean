import Mathlib.Logic.Relation
import Sequencer.Sequence

/-! How sequences nest. An entry may offer others as its branches and handlers, and it may run a
sequence in a frame of its own. Sequences are finite trees, so there is a height that becomes less
with every frame that is entered. -/

namespace Sequencer
variable {κ : Type}

namespace Entry

/-- The second entry is a branch or a handler of the first. -/
inductive Offers : Entry κ → Entry κ → Prop
  | whenTrue {c : Conditional κ} {e : Entry κ} (h : c.whenTrue = some e) :
    Offers (.conditional c) e
  | whenFalse {c : Conditional κ} {e : Entry κ} (h : c.whenFalse = some e) :
    Offers (.conditional c) e
  | onSuccess {l : Loop κ} {e : Entry κ} (h : l.onSuccess = some e) : Offers (.loop l) e
  | onError {l : Loop κ} {e : Entry κ} (h : l.onError = some (.handler e)) : Offers (.loop l) e

/-- The entry runs the sequence in a frame of its own. -/
inductive Runs : Entry κ → Sequence κ → Prop
  | block (l : Loop κ) : Runs (.loop l) l.block
  | nested (s : SequenceEntry κ) : Runs (.sequence s) s.sequence

end Entry

namespace Sequence

/-- The entry is one of the sequence, or a branch or handler of one, at any depth. -/
def Has (s : Sequence κ) (e : Entry κ) : Prop :=
  ∃ r ∈ s.entries, Relation.ReflTransGen Entry.Offers r e

/-- An entry of the first sequence runs the second. -/
def Nests (s t : Sequence κ) : Prop := ∃ e, s.Has e ∧ e.Runs t

/-- The sequence itself, or one nested in it at any depth. -/
abbrev Encloses : Sequence κ → Sequence κ → Prop := Relation.ReflTransGen Nests

/-- A property of the sequence and of all that are nested in it. -/
def Throughout (I : Sequence κ → Prop) (s : Sequence κ) : Prop := ∀ t, s.Encloses t → I t

def Indexed (s : Sequence κ) : Prop :=
  ∀ l i, s.labels.get? l = some i → i < s.entries.length

theorem has_of_mem {s : Sequence κ} {e : Entry κ} (h : e ∈ s.entries) : s.Has e := ⟨e, h, .refl⟩

theorem Has.offers {s : Sequence κ} {e r : Entry κ} (h : s.Has e) (ho : e.Offers r) : s.Has r := by
  obtain ⟨b, hb, hr⟩ := h
  exact ⟨b, hb, hr.tail ho⟩

theorem Indexed.lt {s : Sequence κ} {text : String} {i : Nat} (h : s.Indexed)
    (hi : s.labelIndex text = some i) : i < s.entries.length := by
  obtain ⟨l, -, hl⟩ := Option.bind_eq_some_iff.mp hi
  exact h l i hl

end Sequence

/-! ### All that is nested in a sequence -/

def Entry.Throughout (I : Sequence κ → Prop) (e : Entry κ) : Prop :=
  ∀ r t, Relation.ReflTransGen Entry.Offers e r → r.Runs t → t.Throughout I

section
variable {I : Sequence κ → Prop} {s : Sequence κ} {e : Entry κ}

theorem Sequence.throughout_iff :
    s.Throughout I ↔ I s ∧ ∀ e ∈ s.entries, e.Throughout I := by
  constructor
  · intro h
    refine ⟨h s .refl, ?_⟩
    intro e he r t ho hr u hu
    exact h u (.head ⟨r, ⟨e, he, ho⟩, hr⟩ hu)
  · rintro ⟨hs, he⟩ t ht
    rcases ht.cases_head with rfl | ⟨u, ⟨r, ⟨b, hb, ho⟩, hr⟩, hu⟩
    · exact hs
    · exact he b hb r u ho hr t hu

theorem Entry.throughout_of (hr : ∀ t, e.Runs t → t.Throughout I)
    (ho : ∀ r, e.Offers r → r.Throughout I) : e.Throughout I := by
  intro r t h hrt
  rcases h.cases_head with rfl | ⟨b, hb, h⟩
  · exact hr t hrt
  · exact ho b hb r t h hrt

theorem Entry.throughout_method (c : MethodCall κ) : (Entry.method c).Throughout I :=
  throughout_of nofun nofun

theorem Entry.throughout_goto (g : GotoEntry κ) : (Entry.goto g).Throughout I :=
  throughout_of nofun nofun

theorem Entry.throughout_error (x : ErrorEntry κ) : (Entry.error x).Throughout I :=
  throughout_of nofun nofun

theorem Entry.throughout_sequence {n : SequenceEntry κ} (h : n.sequence.Throughout I) :
    (Entry.sequence n).Throughout I := by
  refine throughout_of (fun t ht => ?_) nofun
  cases ht
  exact h

theorem Entry.throughout_conditional {c : Conditional κ}
    (ht : ∀ e, c.whenTrue = some e → e.Throughout I)
    (hf : ∀ e, c.whenFalse = some e → e.Throughout I) : (Entry.conditional c).Throughout I := by
  refine throughout_of nofun fun r hr => ?_
  cases hr with
  | whenTrue h => exact ht r h
  | whenFalse h => exact hf r h

theorem Entry.throughout_loop {l : Loop κ} (hb : l.block.Throughout I)
    (hs : ∀ e, l.onSuccess = some e → e.Throughout I)
    (he : ∀ e, l.onError = some (.handler e) → e.Throughout I) : (Entry.loop l).Throughout I := by
  refine throughout_of (fun t ht => ?_) fun r hr => ?_
  · cases ht
    exact hb
  · cases hr with
    | onSuccess h => exact hs r h
    | onError h => exact he r h

end

/-! ### Height -/

mutual

def Sequence.height : Sequence κ → Nat
  | ⟨_, entries, _, _, _, _, _⟩ => heightOfEntries entries

def heightOfEntries : List (Entry κ) → Nat
  | [] => 0
  | e :: es => max e.height (heightOfEntries es)

/-- How many frames the entry and what it offers may stand on each other. -/
def Entry.height : Entry κ → Nat
  | .method _ | .goto _ | .error _ => 0
  | .conditional c => c.height
  | .loop l => l.height
  | .sequence s => s.height

def Conditional.height : Conditional κ → Nat
  | ⟨_, _, whenTrue, whenFalse⟩ => max (heightOfBranch whenTrue) (heightOfBranch whenFalse)

def Loop.height : Loop κ → Nat
  | ⟨_, _, block, onSuccess, onError, _⟩ =>
    max (block.height + 1) (max (heightOfBranch onSuccess) (heightOfFailure onError))

def SequenceEntry.height : SequenceEntry κ → Nat
  | ⟨_, s, _⟩ => s.height + 1

def heightOfBranch : Option (Entry κ) → Nat
  | none => 0
  | some e => e.height

def heightOfFailure : Option (LoopFailure κ) → Nat
  | none => 0
  | some f => f.height

def LoopFailure.height : LoopFailure κ → Nat
  | .suppress => 0
  | .handler e => e.height

end

namespace Entry
variable {e r : Entry κ} {s : Sequence κ}

theorem Offers.height_le (h : e.Offers r) : r.height ≤ e.height := by
  cases h with
  | @whenTrue c _ h =>
    obtain ⟨label, condition, whenTrue, whenFalse⟩ := c
    obtain rfl : whenTrue = some r := h
    exact Nat.le_max_left ..
  | @whenFalse c _ h =>
    obtain ⟨label, condition, whenTrue, whenFalse⟩ := c
    obtain rfl : whenFalse = some r := h
    exact Nat.le_max_right ..
  | @onSuccess l _ h =>
    obtain ⟨label, control, block, onSuccess, onError, jump⟩ := l
    obtain rfl : onSuccess = some r := h
    exact Nat.le_trans (Nat.le_max_left ..) (Nat.le_max_right ..)
  | @onError l _ h =>
    obtain ⟨label, control, block, onSuccess, onError, jump⟩ := l
    obtain rfl : onError = some (.handler r) := h
    exact Nat.le_trans (Nat.le_max_right ..) (Nat.le_max_right ..)

theorem Runs.height_lt (h : e.Runs s) : s.height < e.height := by
  cases h with
  | block l =>
    obtain ⟨label, control, block, onSuccess, onError, jump⟩ := l
    exact Nat.lt_of_succ_le (Nat.le_max_left ..)
  | nested s =>
    obtain ⟨label, s, jump⟩ := s
    exact Nat.lt_succ_self _

end Entry

namespace Sequence
variable {s t : Sequence κ} {e : Entry κ}

theorem height_le_of_mem {es : List (Entry κ)} (h : e ∈ es) : e.height ≤ heightOfEntries es := by
  induction es with
  | nil => exact absurd h List.not_mem_nil
  | cons r es ih =>
    rcases List.mem_cons.mp h with rfl | h
    · exact Nat.le_max_left ..
    · exact Nat.le_trans (ih h) (Nat.le_max_right ..)

theorem Has.height_le (h : s.Has e) : e.height ≤ s.height := by
  obtain ⟨r, hr, ho⟩ := h
  induction ho with
  | refl =>
    obtain ⟨name, entries, labels, breakOnError, registry, onSuccess, onError⟩ := s
    exact height_le_of_mem hr
  | tail _ ho ih => exact Nat.le_trans ho.height_le ih

theorem Nests.height_lt (h : s.Nests t) : t.height < s.height := by
  obtain ⟨e, he, hr⟩ := h
  exact Nat.lt_of_lt_of_le hr.height_lt he.height_le

end Sequence
end Sequencer
