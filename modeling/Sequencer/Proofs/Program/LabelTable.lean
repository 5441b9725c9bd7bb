import Sequencer.Proofs.Program.Filing

/-! The label table, whatever calls a sequence has gone through. It is kept beside the entries and
never computed from them, on two ways: an entry is filed when it is added, and when it becomes the
body of a loop by itself. On both it stays what the entries make it, and a refusal touches
nothing. -/

namespace Sequencer
variable {κ : Type}

namespace Sequence
variable {s : Sequence κ} {d : Declaration κ} {e : DeclarationError}

/-- The sequence after an attempt to add a declaration, which a refusal leaves without effect. -/
def attempt (s : Sequence κ) (d : Declaration κ) : Sequence κ :=
  match (s.tryAdd d).result with
  | .ok t => t
  | .error _ => s

/-- Made by a series of the calls that callers have. A sequence that a declaration holds has been
made by such calls itself. -/
inductive Composed : Sequence κ → Prop
  | withRegistry (registry : Registry κ) : Composed (.withRegistry registry)
  | ofJson {registry : Registry κ} {v : Json} {s : Sequence κ} {reports : List Diagnostic}
    (h : Document.ofJson registry v = .ok (s, reports)) : Composed s
  | ofToml {registry : Registry κ} {text : String} {s : Sequence κ} {reports : List Diagnostic}
    (h : Document.ofToml registry text = .ok (s, reports)) : Composed s
  | child {s : Sequence κ} (h : s.Composed) : s.child.Composed
  | named {s : Sequence κ} (h : s.Composed) (name : String) : (s.named name).Composed
  | setBreakOnError {s : Sequence κ} (h : s.Composed) (flag : Bool) :
    (s.setBreakOnError flag).Composed
  | handleSuccess {s : Sequence κ} (h : s.Composed) (handler : κ) :
    (s.handleSuccess handler).Composed
  | handleError {s : Sequence κ} (h : s.Composed) (handler : κ) : (s.handleError handler).Composed
  | add {s : Sequence κ} (h : s.Composed) (d : Declaration κ) (hd : ∀ t, d.Holds t → t.Composed) :
    (s.add d).1.Composed
  | attempt {s : Sequence κ} (h : s.Composed) (d : Declaration κ)
    (hd : ∀ t, d.Holds t → t.Composed) : (s.attempt d).Composed

/-! ### Adding and refusing -/

theorem tryAdd_eq_error_iff :
    (s.tryAdd d).result = .error e ↔ (d.normalize s.scope).result = .error e := by
  unfold tryAdd Verdict.map
  cases (d.normalize s.scope).result <;> simp [Except.map]

theorem attempt_of_refused (h : (s.tryAdd d).result = .error e) : s.attempt d = s := by
  rw [attempt, h]

theorem add_of_refused (h : (s.tryAdd d).result = .error e) : (s.add d).1 = s := by
  rw [add, pushVerdict, tryAdd_eq_error_iff.mp h]

theorem attempt_eq (s : Sequence κ) (d : Declaration κ) : s.attempt d = (s.add d).1 := by
  cases h : (d.normalize s.scope).result with
  | error e =>
    have hrefused := tryAdd_eq_error_iff.mpr h
    rw [attempt_of_refused hrefused, add_of_refused hrefused]
  | ok r =>
    have haccepted : (s.tryAdd d).result = .ok (s.push r) := by
      rw [tryAdd, Verdict.map, h]
      rfl
    rw [attempt, haccepted, add, pushVerdict, h]

theorem Composed.built (h : s.Composed) : s.Built := by
  induction h with
  | withRegistry registry => exact .empty registry
  | ofJson h => exact Document.built_ofJson h
  | ofToml h =>
    unfold Document.ofToml at h
    split at h
    · exact Document.built_ofJson h
    · exact absurd h nofun
  | child _ ih => exact ih.child
  | named _ name ih => exact ih.named name
  | setBreakOnError _ flag ih => exact ih.setBreakOnError flag
  | handleSuccess _ handler ih => exact ih.handleSuccess handler
  | handleError _ handler ih => exact ih.handleError handler
  | add _ d _ ih ihd => exact ih.add d ihd
  | attempt _ d _ ih ihd =>
    rw [attempt_eq]
    exact ih.add d ihd

/-! ### The table -/

theorem nodup_keys_push (h : s.labels.keys.Nodup) (r : Entry κ) : (s.push r).labels.keys.Nodup := by
  unfold push
  cases r.label with
  | none => exact h
  | some l => exact Table.nodup_keys_insert h l _

/-- A label has one row if an entry carries it, leading to the last that does, and otherwise
none. -/
structure Tabulated (s : Sequence κ) : Prop where
  nodup : s.labels.keys.Nodup
  keys (l : String) : l ∈ s.labels.keys ↔ ∃ r ∈ s.entries, r.label = some l
  rows (l : String) (i : Nat) : (l, i) ∈ s.labels.rows ↔ s.LastCarrying l i
  below (l : String) (i : Nat) : (l, i) ∈ s.labels.rows → i < s.size
  labelIndex (text : String) (i : Nat) :
    s.labelIndex text = some i ↔ ∃ l, Label.clean text = some l ∧ s.LastCarrying l i

theorem Filed.tabulated (h : s.Filed) (hn : s.labels.keys.Nodup) : s.Tabulated := by
  have hrows (l : String) (i : Nat) : (l, i) ∈ s.labels.rows ↔ s.LastCarrying l i :=
    (Table.mem_rows_iff hn).trans (h l i)
  refine ⟨hn, fun l => ?_, hrows, fun l i hi => ((hrows l i).mp hi).lt, fun text i => ?_⟩
  · rw [Table.mem_keys_iff]
    constructor
    · rintro ⟨i, hi⟩
      obtain ⟨r, hr, hl⟩ := ((h l i).mp hi).carries
      exact ⟨r, List.mem_of_getElem? hr, hl⟩
    · rintro ⟨r, hr, hl⟩
      obtain ⟨j, hj⟩ := List.mem_iff_getElem?.mp hr
      obtain ⟨i, hi⟩ := exists_lastCarrying hj hl
      exact ⟨i, (h l i).mpr hi⟩
  · unfold Sequence.labelIndex
    rw [Option.bind_eq_some_iff]
    exact exists_congr fun l => and_congr_right fun _ => h l i

theorem Built.nodup_keys (h : s.Built) : s.Throughout fun t => t.labels.keys.Nodup := by
  have keeps (scope : Scope κ) : scope.Keeps fun t => t.labels.keys.Nodup :=
    ⟨List.nodup_nil, fun _ r ht => nodup_keys_push ht r⟩
  refine h.of_cases (fun scope => (keeps scope).cases) fun s t hs hl he => ?_
  obtain ⟨hn, hes⟩ := throughout_iff.mp hs
  exact throughout_iff.mpr ⟨hl ▸ hn, he ▸ hes⟩

/-- In a composed sequence, and in all that are nested in it, the table is that of the last entries
with their labels. What is refused leaves the sequence as it is. -/
theorem Composed.label_table_kept (h : s.Composed) :
    (∀ t, s.Encloses t → t.Tabulated) ∧
    ∀ (d : Declaration κ) (e : DeclarationError), (s.tryAdd d).result = .error e →
      s.attempt d = s ∧ (s.add d).1 = s :=
  ⟨fun t ht => (h.built.filed t ht).tabulated (h.built.nodup_keys t ht),
    fun _ _ he => ⟨attempt_of_refused he, add_of_refused he⟩⟩

end Sequence

/-! ### A label given twice -/

def stepping : Registry Unit := ⟨⟨[("step", ())]⟩, {}⟩

def twoSteps : Json := .array [
  .object [("label", .string "  Retry "), ("method", .string "step")],
  .object [("label", .string "inner"), ("method", .string "missing")]]

def retryOnce : Sequence Unit where
  entries := [.method { label := some "retry", operation := () }]
  labels := ⟨[("retry", 0)]⟩
  registry := stepping

def labelledLoop : Json := .object [
  ("block", .object [("label", .string "Inner"), ("method", .string "step")]),
  ("label", .string "RETRY"), ("loop", .bool true)]

def innerBody : Sequence Unit where
  entries := [.method { label := some "inner", operation := () }]
  labels := ⟨[("inner", 0)]⟩
  registry := stepping

def retrying : Sequence Unit where
  entries := [.method { label := some "retry", operation := () },
    .loop ⟨some "retry", .always, innerBody, none, none, none⟩]
  labels := ⟨[("retry", 1)]⟩
  registry := stepping

theorem composed_retrying : retrying.Composed := by
  have hdoc : Document.ofJson stepping twoSteps =
      .ok (retryOnce, [.invalidEntry (.unknownOperation "missing")]) := by
    simp [twoSteps, Document.ofJson, Document.build, Scope.fill, Declaration.normalize,
      Clauses.normalize, MethodCall.ofClauses, MethodCall.ofDeclaration, Clauses.ofMembers,
      Json.member?]
    exact ⟨rfl, rfl⟩
  have hloop : retryOnce.attempt (.json labelledLoop) = retrying := by
    simp [labelledLoop, Sequence.attempt, Sequence.tryAdd, Declaration.normalize, Clauses.normalize,
      Clauses.repetition, Scope.block, Scope.branch, Scope.failure, MethodCall.ofClauses,
      MethodCall.ofDeclaration, Clauses.ofMembers, Json.member?]
    rfl
  rw [← hloop]
  exact .attempt (.ofJson hdoc) _ fun _ ht => absurd ht Declaration.not_holds_json

theorem lastCarrying_retrying : retrying.LastCarrying "retry" 1 := by
  refine ⟨⟨_, rfl, rfl⟩, fun j r hj hr => ?_⟩
  have hlt : j < 2 := (List.getElem?_eq_some_iff.mp hr).1
  omega

/-- The loop is found by the label that the step carries too, the body finds its own label, and
what is refused changes neither. -/
theorem retrying_label_table_kept :
    retrying.Composed ∧ retrying.Encloses innerBody ∧ innerBody.Tabulated ∧
    retrying.labelIndex " ReTry" = some 1 ∧
    (retrying.tryAdd (.named "missing")).result = .error (.unknownOperation "missing") ∧
    (retrying.add (.named "missing")).1 = retrying := by
  obtain ⟨htable, hrefused⟩ := composed_retrying.label_table_kept
  have hbody : retrying.Encloses innerBody :=
    .single ⟨_, Sequence.has_of_mem (List.mem_cons_of_mem _ (List.mem_singleton_self _)), .block _⟩
  have hmissing :
      (retrying.tryAdd (.named "missing")).result = .error (.unknownOperation "missing") := by
    simp only [Sequence.tryAdd, Declaration.normalize]
    rfl
  exact ⟨composed_retrying, hbody, htable innerBody hbody,
    ((htable retrying .refl).labelIndex _ _).mpr ⟨"retry", rfl, lastCarrying_retrying⟩, hmissing,
    (hrefused _ _ hmissing).2⟩

end Sequencer
