import Sequencer.Document
import Sequencer.Proofs.Program.Nesting
import Sequencer.Proofs.Program.Normalization

/-! Built sequences. A sequence is built by setting its fields and adding declarations, which may
hold sequences built before. What adding an entry keeps therefore holds of every sequence that is
nested in a built one, wherever normalization has put it. -/

namespace Sequencer
variable {κ : Type}

/-- Made by the operations on sequences alone. -/
inductive Sequence.Built : Sequence κ → Prop
  | empty (registry : Registry κ) : Built (.withRegistry registry)
  | child {s : Sequence κ} (h : s.Built) : s.child.Built
  | named {s : Sequence κ} (h : s.Built) (name : String) : (s.named name).Built
  | setBreakOnError {s : Sequence κ} (h : s.Built) (flag : Bool) : (s.setBreakOnError flag).Built
  | handleSuccess {s : Sequence κ} (h : s.Built) (handler : κ) : (s.handleSuccess handler).Built
  | handleError {s : Sequence κ} (h : s.Built) (handler : κ) : (s.handleError handler).Built
  | add {s : Sequence κ} (h : s.Built) (d : Declaration κ) (hd : ∀ t, d.Holds t → t.Built) :
    (s.add d).1.Built

/-- What the cases of normalization show of its sequences, whatever the scope, holds of built ones,
given that it is about their entries and labels alone. -/
theorem Sequence.Built.of_cases {P : Entry κ → Prop} {Q : Sequence κ → Prop}
    (h : ∀ scope : Scope κ, scope.Cases P Q)
    (same : ∀ s t : Sequence κ, Q s → t.labels = s.labels → t.entries = s.entries → Q t)
    {s : Sequence κ} (hs : s.Built) : Q s := by
  induction hs with
  | empty registry => exact (h ⟨registry, true⟩).empty
  | @child s _ _ => exact (h s.scope).empty
  | named _ _ ih | setBreakOnError _ _ ih | handleSuccess _ _ ih | handleError _ _ ih =>
    exact same _ _ ih rfl rfl
  | @add s _ d _ ih ihd =>
    unfold Sequence.add Sequence.pushVerdict
    cases he : (d.normalize s.scope).result with
    | error e => exact ih
    | ok e => exact (h s.scope).push ih ((h s.scope).declaration d ihd he)

/-! ### What normalization keeps -/

/-- The property holds of the sequences that normalization starts with, and entries may be added. -/
structure Scope.Keeps (scope : Scope κ) (I : Sequence κ → Prop) : Prop where
  empty : I scope.sequence
  push : ∀ s e, I s → I (s.push e)

section
variable {I : Sequence κ → Prop} {scope : Scope κ}

theorem Scope.Keeps.throughout_push (hI : scope.Keeps I) {s : Sequence κ} {e : Entry κ}
    (hs : s.Throughout I) (he : e.Throughout I) : (s.push e).Throughout I := by
  obtain ⟨h, hes⟩ := Sequence.throughout_iff.mp hs
  refine Sequence.throughout_iff.mpr ⟨hI.push s e h, fun r hr => ?_⟩
  rcases List.mem_append.mp hr with hr | hr
  · exact hes r hr
  · exact List.mem_singleton.mp hr ▸ he

theorem Scope.Keeps.throughout_empty (hI : scope.Keeps I) : scope.sequence.Throughout I :=
  Sequence.throughout_iff.mpr ⟨hI.empty, List.forall_mem_nil _⟩

theorem Scope.throughout_body (hI : scope.Keeps I) {e : Entry κ} {s : Sequence κ}
    (he : e.Throughout I) (h : scope.body e = .ok s) : s.Throughout I := by
  have wrapped : (scope.sequence.push e).Throughout I :=
    hI.throughout_push hI.throughout_empty he
  unfold Scope.body at h
  split at h
  · exact absurd h nofun
  · exact absurd h nofun
  · obtain rfl := Except.ok.inj h
    exact he _ _ .refl (.nested _)
  · obtain rfl := Except.ok.inj h
    exact wrapped

theorem Scope.Keeps.cases (hI : scope.Keeps I) :
    scope.Cases (Entry.Throughout I) (Sequence.Throughout I) where
  operation _ := Entry.throughout_method _
  named _ := Entry.throughout_method _
  method _ := Entry.throughout_method _
  error _ := Entry.throughout_error _
  goto _ _ _ := Entry.throughout_goto _
  sequence h _ _ := Entry.throughout_sequence h
  conditional _ ht hf _ _ := Entry.throughout_conditional ht hf
  loop _ hb hs he _ _ := Entry.throughout_loop hb hs he
  body := Scope.throughout_body hI
  empty := hI.throughout_empty
  push := hI.throughout_push

end

/-! ### Labels and documents -/

theorem Sequence.Indexed.push {s : Sequence κ} (h : s.Indexed) (e : Entry κ) :
    (s.push e).Indexed := by
  intro l i hi
  have old (hl : s.labels.get? l = some i) : i < (s.entries ++ [e]).length := by
    rw [List.length_append]
    exact Nat.lt_add_right _ (h l i hl)
  unfold Sequence.push at hi ⊢
  cases hl : e.label with
  | none =>
    rw [hl] at hi
    exact old hi
  | some k =>
    simp only [hl, Table.get?_insert] at hi
    split at hi
    · obtain rfl := Option.some.inj hi
      simp
    · exact old hi

theorem Scope.keeps_indexed (scope : Scope κ) : scope.Keeps Sequence.Indexed :=
  ⟨nofun, fun _ e h => h.push e⟩

/-- In a built sequence, and in all that are nested in it, every label leads to an entry. -/
theorem Sequence.Built.indexed {s : Sequence κ} (h : s.Built) : s.Throughout Sequence.Indexed := by
  refine h.of_cases (fun scope => scope.keeps_indexed.cases) fun s t hs hl he => ?_
  obtain ⟨hs, hes⟩ := Sequence.throughout_iff.mp hs
  refine Sequence.throughout_iff.mpr ⟨?_, he ▸ hes⟩
  rwa [Sequence.Indexed, hl, he]

namespace Document

theorem built_fill {s : Sequence κ} (hs : s.Built) (vs : List Json) :
    (s.scope.fill s vs).1.Built := by
  rw [Scope.fill_eq_addAll]
  induction vs generalizing s with
  | nil => exact hs
  | cons v vs ih =>
    rw [List.map_cons, Sequence.addAll_cons_fst]
    exact ih (hs.add (.json v) fun _ ht => absurd ht Declaration.not_holds_json)

theorem built_settings (registry : Registry κ) (ms : List (String × Json)) :
    (settings registry ms).Built := by
  have hflag (s : Sequence κ) (hs : s.Built) (flag : Bool) :
      { s with breakOnError := flag }.Built :=
    hs.setBreakOnError flag
  unfold settings
  cases (Json.member? "name" ms).bind Json.asString? with
  | none => exact hflag _ (.empty registry) _
  | some name => exact hflag _ (.named (.empty registry) name) _

theorem built_ofJson {registry : Registry κ} {v : Json} {s : Sequence κ}
    {reports : List Diagnostic} (h : ofJson registry v = .ok (s, reports)) : s.Built := by
  unfold ofJson at h
  split at h
  next steps =>
    obtain rfl : _ = s := congrArg Prod.fst (Except.ok.inj h)
    exact built_fill (.empty registry) steps
  next ms =>
    split at h
    next steps hsteps =>
      obtain rfl : _ = s := congrArg Prod.fst (Except.ok.inj h)
      exact built_fill (built_settings registry ms) steps
    next => exact absurd h nofun
  next => exact absurd h nofun

end Document
end Sequencer
