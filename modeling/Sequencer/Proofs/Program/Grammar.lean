import Sequencer.Proofs.Program.Canonical

/-! The documents that declare a step. An object is judged by the first key that decides: what else
it holds counts only where the clause of that key asks for it, and a branch that is refused costs
the step nothing as long as another is left. -/

namespace Sequencer
variable {κ : Type}

/-- The keys that decide what an object declares. -/
inductive EntryKey where
  | error
  | sequence
  | method
  | condition
  | loop
  | goto

namespace EntryKey

def text : EntryKey → String
  | error => "error"
  | sequence => "sequence"
  | method => "method"
  | condition => "if"
  | loop => "loop"
  | goto => "goto"

/-- In the order in which they are looked for. -/
def all : List EntryKey := [error, sequence, method, condition, loop, goto]

end EntryKey

def Json.decided (ms : List (String × Json)) : Option (EntryKey × Json) :=
  EntryKey.all.findSome? fun k => (Json.member? k.text ms).map (k, ·)

namespace Grammar

/-- Not blank, and without its blanks the name of something that is found. -/
structure Names (find : String → Option κ) (name : String) : Prop where
  nonblank : Text.trim name ≠ ""
  known : ∃ handle, find (Text.trim name) = some handle

inductive Call (registry : Registry κ) : Json → Prop
  | name {n : String} (h : Names registry.operation? n) : Call registry (.string n)
  | object {ms : List (String × Json)} {v : Json} (hm : Json.member? "method" ms = some v)
    (h : Call registry v) : Call registry (.object ms)

/-- The value may be the whole body of a loop: it declares no error, and no goto with a jump. -/
structure StandsAlone (v : Json) : Prop where
  not_error : ∀ ms, v = .object ms → Json.member? "error" ms = none
  not_jump : ∀ ms w text, v = .object ms → Json.decided ms = some (.goto, w) →
    Json.member? "jump" ms = some (.string text) → Text.trim text = ""

mutual

inductive Accepted (registry : Registry κ) : Json → Prop
  | name {n : String} (h : Names registry.operation? n) : Accepted registry (.string n)
  | array (items : List Json) : Accepted registry (.array items)
  | object {ms : List (String × Json)} {k : EntryKey} {v : Json}
    (hk : Json.decided ms = some (k, v)) (h : Clause registry ms k v) :
    Accepted registry (.object ms)

/-- Among these members, with this value, the key declares a step. -/
inductive Clause (registry : Registry κ) : List (String × Json) → EntryKey → Json → Prop
  | message {ms : List (String × Json)} {text : String} (h : Text.trim text ≠ "") :
    Clause registry ms .error (.string text)
  | report {ms : List (String × Json)} {v : Json} (hv : ∀ text, v ≠ .string text)
    (h : Call registry v) : Clause registry ms .error v
  | sequence {ms : List (String × Json)} (items : List Json) :
    Clause registry ms .sequence (.array items)
  | method {ms : List (String × Json)} {v : Json} (h : Call registry v) :
    Clause registry ms .method v
  | conditional {ms : List (String × Json)} {v b : Json} {key : String} (h : Call registry v)
    (hkey : key = "then" ∨ key = "else") (hm : Json.member? key ms = some b)
    (hb : Accepted registry b) : Clause registry ms .condition v
  | loop {ms : List (String × Json)} {v b : Json}
    (hv : v = .bool true ∨ (∀ flag, v ≠ .bool flag) ∧ Call registry v)
    (hm : Json.member? "block" ms = some b) (hb : Accepted registry b) (hs : StandsAlone b) :
    Clause registry ms .loop v
  | label {ms : List (String × Json)} {text : String} (h : Text.trim text ≠ "") :
    Clause registry ms .goto (.string text)
  | resolver {ms gs : List (String × Json)} {n : String}
    (hm : Json.member? "method" gs = some (.string n)) (h : Names registry.resolver? n) :
    Clause registry ms .goto (.object gs)

end

end Grammar

/-! ### Verdicts that accept -/

namespace Verdict
variable {α β : Type}

def Accepts (v : Verdict α) : Prop := ∃ a, v.result = .ok a

theorem exists_ok_map {r : Except DeclarationError α} {f : α → β} :
    (∃ b, r.map f = .ok b) ↔ ∃ a, r = .ok a := by
  cases r <;> simp [Except.map]

theorem exists_ok_mapError {r : Except DeclarationError α}
    {f : DeclarationError → DeclarationError} : (∃ a, r.mapError f = .ok a) ↔ ∃ a, r = .ok a := by
  cases r <;> simp [Except.mapError]

theorem accepts_accept (a : α) : (accept a).Accepts := ⟨a, rfl⟩

theorem not_accepts_refuse (e : DeclarationError) : ¬ (refuse e : Verdict α).Accepts := by
  rintro ⟨a, h⟩
  exact absurd h (by simp [refuse])

theorem accepts_ofExcept {r : Except DeclarationError α} : (ofExcept r).Accepts ↔ ∃ a, r = .ok a :=
  Iff.rfl

theorem accepts_map {f : α → β} {v : Verdict α} : (v.map f).Accepts ↔ v.Accepts := exists_ok_map

theorem accepts_report {d : Diagnostic} {v : Verdict α} :
    (v.report d).Accepts ↔ v.Accepts := Iff.rfl

theorem accepts_andThen {v : Verdict α} {f : α → Verdict β} :
    (v.andThen f).Accepts ↔ ∃ a, v.result = .ok a ∧ (f a).Accepts := by
  unfold andThen Accepts
  cases v.result <;> simp

theorem exists_optional (key : String) (v : Verdict α) :
    ∃ a, (v.optional key).result = .ok a ∧ (a.isSome = true ↔ v.Accepts) := by
  unfold optional Accepts
  cases v.result with
  | error e => exact ⟨none, rfl, by simp⟩
  | ok a => exact ⟨some a, rfl, by simp⟩

end Verdict

/-! ### Calls, targets and errors -/

section
variable {registry : Registry κ}

theorem Grammar.exists_found {α : Type} {find : String → Option κ} {n : String} {f : κ → α}
    {blank unknown : DeclarationError} :
    (∃ a, (if (Text.trim n).isEmpty then .error blank
      else match find (Text.trim n) with
        | some handle => .ok (f handle)
        | none => .error unknown) = Except.ok a) ↔ Names find n := by
  constructor
  · rintro ⟨a, h⟩
    split at h
    · exact absurd h (by simp)
    next hne =>
      split at h
      next handle hknown => exact ⟨by simpa using hne, handle, hknown⟩
      next => exact absurd h (by simp)
  · rintro ⟨hne, handle, hknown⟩
    simp [hne, hknown]

theorem MethodCall.exists_ofName {n : String} :
    (∃ call, ofName registry n = .ok call) ↔ Grammar.Names registry.operation? n := by
  unfold ofName
  exact Grammar.exists_found

theorem MethodCall.exists_ofClauses {c : Clauses κ} :
    (∃ call, ofClauses registry c = .ok call) ↔
      ∃ d, c.method = some d ∧ ∃ call, ofDeclaration registry d = .ok call := by
  rw [ofClauses]
  split
  next hm => simp [hm]
  next d hm => rw [Verdict.exists_ok_map]; simp [hm]

theorem MethodCall.exists_ofJson (v : Json) :
    (∃ call, ofDeclaration registry (.json v) = .ok call) ↔ Grammar.Call registry v := by
  match v with
  | .string n =>
    rw [ofDeclaration, exists_ofName]
    constructor
    · exact .name
    · intro h
      cases h
      assumption
  | .object ms =>
    rw [ofDeclaration, exists_ofClauses]
    constructor
    · rintro ⟨d, hd, hcall⟩
      obtain ⟨w, hw, rfl⟩ := Option.map_eq_some_iff.mp hd
      have := Json.sizeOf_member? hw
      exact .object hw ((exists_ofJson w).mp hcall)
    · intro h
      cases h with
      | @object _ w hw h =>
        have := Json.sizeOf_member? hw
        exact ⟨.json w, congrArg (Option.map Declaration.json) hw, (exists_ofJson w).mpr h⟩
  | .null | .bool _ | .number _ | .array _ =>
    rw [ofDeclaration]
    · constructor
      · rintro ⟨call, h⟩
        exact absurd h (by simp)
      · intro h
        cases h
    all_goals simp
termination_by sizeOf v

theorem MethodCall.accepts_ofControl {key : String} {d : Declaration κ} :
    (ofControl registry key d).Accepts ↔ ∃ call, ofDeclaration registry d = .ok call := by
  unfold ofControl
  cases ofDeclaration registry d with
  | error e => simp [Verdict.not_accepts_refuse]
  | ok call =>
    simp only [Except.ok.injEq, exists_eq', iff_true]
    split
    · exact Verdict.accepts_accept _
    · exact Verdict.accepts_report.mpr (Verdict.accepts_accept _)

theorem LoopControl.accepts_ofJson (v : Json) :
    (ofClause registry (.ofJson v)).Accepts ↔
      v = .bool true ∨ (∀ flag, v ≠ .bool flag) ∧ Grammar.Call registry v := by
  rw [← MethodCall.exists_ofJson]
  cases v with
  | bool flag =>
    cases flag
    · simp [LoopClause.ofJson, ofClause, Verdict.not_accepts_refuse]
    · simp [LoopClause.ofJson, ofClause, Verdict.accepts_accept]
  | _ => simp [LoopClause.ofJson, ofClause, Verdict.accepts_map, MethodCall.accepts_ofControl]

theorem ErrorValue.exists_ofJson (v : Json) :
    (∃ x, ofClause registry (.ofJson v) = .ok x) ↔
      (∃ text, v = .string text ∧ Text.trim text ≠ "") ∨
        (∀ text, v ≠ .string text) ∧ Grammar.Call registry v := by
  rw [← MethodCall.exists_ofJson]
  cases v with
  | string text =>
    simp only [ErrorClause.ofJson, ofClause]
    split <;> simp_all
  | _ => simp [ErrorClause.ofJson, ofClause, Verdict.exists_ok_map, Verdict.exists_ok_mapError]

theorem Label.exists_clean {text : String} : (∃ l, clean text = some l) ↔ Text.trim text ≠ "" := by
  rw [clean_eq]
  split <;> simp_all

theorem GotoTarget.exists_label {text : String} :
    (∃ target, ofClause registry (.label text) = .ok target) ↔ Text.trim text ≠ "" := by
  rw [← Label.exists_clean]
  unfold ofClause
  simp only
  cases Label.clean text <;> simp

theorem GotoTarget.exists_named {n : String} {params : Option Json} :
    (∃ target, ofClause registry (.named n params) = .ok target) ↔
      Grammar.Names registry.resolver? n := by
  unfold ofClause
  exact Grammar.exists_found

theorem GotoTarget.exists_ofJson (v : Json) :
    (∃ target, ofClause registry (.ofJson v) = .ok target) ↔
      (∃ text, v = .string text ∧ Text.trim text ≠ "") ∨
        ∃ gs n, v = .object gs ∧ Json.member? "method" gs = some (.string n) ∧
          Grammar.Names registry.resolver? n := by
  have hblank : Text.trim "" = "" := rfl
  cases v with
  | string text => simp [GotoClause.ofJson, exists_label]
  | object gs =>
    rw [GotoClause.ofJson, exists_named]
    have hempty : ¬ Grammar.Names registry.resolver? "" := fun h => h.nonblank hblank
    cases hm : Json.member? "method" gs with
    | none => simpa [hm] using hempty
    | some w =>
      cases w with
      | string n => simp [hm, Json.asString?]
      | _ => simpa [hm, Json.asString?] using hempty
  | _ => simp [GotoClause.ofJson, exists_label, hblank]

end

/-! ### Branches and bodies -/

section
variable {scope : Scope κ}

theorem Scope.exists_branch (scope : Scope κ) (key : String) (d : Option (Declaration κ)) :
    ∃ e, (scope.branch key d).result = .ok e ∧
      (e.isSome = true ↔ ∃ b, d = some b ∧ (b.normalize scope).Accepts) := by
  cases d with
  | none =>
    rw [branch]
    exact ⟨none, rfl, by simp⟩
  | some b =>
    rw [branch]
    obtain ⟨e, he, hsome⟩ := Verdict.exists_optional key (b.normalize scope)
    exact ⟨e, he, by simp [hsome]⟩

theorem Scope.accepts_failure (scope : Scope κ) (f : Option (FailureClause κ)) :
    (scope.failure f).Accepts := by
  rcases f with - | (⟨- | -⟩ | d)
  · rw [failure]
    exact Verdict.accepts_accept _
  · rw [failure]
    exact Verdict.accepts_accept _
  · rw [failure]
    exact Verdict.accepts_accept _
  · rw [failure, Verdict.accepts_map]
    obtain ⟨e, he, -⟩ := Verdict.exists_optional "on-error" (d.normalize scope)
    exact ⟨e, he⟩

theorem Scope.exists_body {e : Entry κ} : (∃ s, scope.body e = .ok s) ↔ e.StandsAlone := by
  constructor
  · rintro ⟨s, h⟩
    rcases body_cases h with ⟨label, rfl⟩ | ⟨-, h⟩
    · exact ⟨by simp, by simp⟩
    · exact h
  · intro h
    unfold body
    split
    · exact absurd rfl (h.not_error _)
    · exact absurd (h.not_jump _ rfl) (by simp)
    · exact ⟨_, rfl⟩
    · exact ⟨_, rfl⟩

theorem Scope.accepts_block {d : Option (Declaration κ)} :
    (scope.block d).Accepts ↔
      ∃ b e, d = some b ∧ (b.normalize scope).result = .ok e ∧ e.StandsAlone := by
  cases d with
  | none =>
    rw [block]
    simp [Verdict.not_accepts_refuse]
  | some b =>
    rw [block, Verdict.accepts_andThen]
    simp only [Verdict.accepts_ofExcept, exists_body, Option.some.injEq, exists_and_left,
      exists_eq_left']
    constructor
    · rintro ⟨e, he, h⟩
      exact ⟨e, Verdict.ok_of_inField he, h⟩
    · rintro ⟨e, he, h⟩
      exact ⟨e, by rw [Verdict.inField, he]; rfl, h⟩

theorem Clauses.accepts_choice {c : Clauses κ} {d : Declaration κ} :
    (c.choice scope d).Accepts ↔ (∃ call, MethodCall.ofDeclaration scope.registry d = .ok call) ∧
      ((∃ b, c.whenTrue = some b ∧ (b.normalize scope).Accepts) ∨
        ∃ b, c.whenFalse = some b ∧ (b.normalize scope).Accepts) := by
  obtain ⟨t, ht, htrue⟩ := scope.exists_branch "then" c.whenTrue
  obtain ⟨f, hf, hfalse⟩ := scope.exists_branch "else" c.whenFalse
  have hif : (MethodCall.ofControl scope.registry "if" d).Accepts ↔
      ∃ call, MethodCall.ofDeclaration scope.registry d = .ok call := MethodCall.accepts_ofControl
  rw [← htrue, ← hfalse, ← hif, choice, Verdict.accepts_andThen]
  simp only [Verdict.accepts_andThen, ht, hf, Except.ok.injEq, exists_eq_left']
  cases t <;> cases f <;> simp [Verdict.Accepts, Verdict.accept, Verdict.refuse]

theorem Clauses.accepts_repetition {c : Clauses κ} {control : LoopClause κ} :
    (c.repetition scope control).Accepts ↔ (LoopControl.ofClause scope.registry control).Accepts ∧
      ∃ b e, c.block = some b ∧ (b.normalize scope).result = .ok e ∧ e.StandsAlone := by
  obtain ⟨s, hs, -⟩ := scope.exists_branch "on-success" c.onSuccess
  obtain ⟨f, hf⟩ := scope.accepts_failure c.onError
  rw [← Scope.accepts_block, repetition, Verdict.accepts_andThen]
  simp only [Verdict.accepts_andThen, hs, hf, Except.ok.injEq, exists_eq_left',
    Verdict.accepts_accept, and_true]
  simp only [Verdict.Accepts, exists_and_right, exists_eq', and_true]

/-! ### Objects -/

def Clauses.judge (scope : Scope κ) (c : Clauses κ) : EntryKey → Json → Verdict (Entry κ)
  | .error, v =>
    .ofExcept ((ErrorValue.ofClause scope.registry (.ofJson v)).map fun x => .error (.ofValue c x))
  | .sequence, v =>
    ((Declaration.json v).nested scope).map fun s =>
      .sequence ⟨Label.clean? c.label, s, Label.clean? c.jump⟩
  | .method, _ => .ofExcept ((MethodCall.ofClauses scope.registry c).map .method)
  | .condition, v =>
    if (Label.clean? c.jump).isSome then (c.choice scope (.json v)).report .conditionalJump
    else c.choice scope (.json v)
  | .loop, v => c.repetition scope (.ofJson v)
  | .goto, v =>
    .ofExcept ((GotoTarget.ofClause scope.registry (.ofJson v)).map fun t =>
      .goto ⟨Label.clean? c.label, t, Label.clean? c.jump⟩)

theorem Clauses.normalize_ofMembers (scope : Scope κ) (ms : List (String × Json)) :
    (ofMembers ms : Clauses κ).normalize scope =
      match Json.decided ms with
      | some (k, v) => (ofMembers ms).judge scope k v
      | none => .refuse (.unrecognizedShape "object without an entry key") := by
  have herror : (ofMembers ms : Clauses κ).error = (Json.member? "error" ms).map .ofJson := rfl
  have hmethod : (ofMembers ms : Clauses κ).method = (Json.member? "method" ms).map .json := rfl
  have hcondition : (ofMembers ms : Clauses κ).condition = (Json.member? "if" ms).map .json := rfl
  have hcontrol : (ofMembers ms : Clauses κ).control = (Json.member? "loop" ms).map .ofJson := rfl
  have hgoto : (ofMembers ms : Clauses κ).goto = (Json.member? "goto" ms).map .ofJson := rfl
  rw [Clauses.normalize]
  simp only [Json.decided, EntryKey.all, List.findSome?_cons, List.findSome?_nil, EntryKey.text]
  cases he : Json.member? "error" ms with
  | some v => simp only [herror, he, Option.map_some, judge]
  | none =>
    simp only [herror, he, Option.map_none]
    split
    next d hd =>
      obtain ⟨v, hv, rfl⟩ := Option.map_eq_some_iff.mp hd
      simp only [hv, Option.map_some, judge]
    next hd =>
      have hs : Json.member? "sequence" ms = none := Option.map_eq_none_iff.mp hd
      simp only [hs, Option.map_none]
      cases hm : Json.member? "method" ms with
      | some v => simp only [hmethod, hm, Option.map_some, Option.isSome_some, if_true, judge]
      | none =>
        simp only [hmethod, hm, Option.map_none, Option.isSome_none, Bool.false_eq_true, if_false]
        cases hi : Json.member? "if" ms with
        | some v => simp only [hcondition, hi, Option.map_some, judge]
        | none =>
          simp only [hcondition, hi, Option.map_none]
          cases hl : Json.member? "loop" ms with
          | some v => simp only [hcontrol, hl, Option.map_some, judge]
          | none =>
            simp only [hcontrol, hl, Option.map_none]
            cases hg : Json.member? "goto" ms with
            | some v => simp only [hgoto, hg, Option.map_some, judge]
            | none => simp only [hgoto, hg, Option.map_none]

theorem Clauses.result_judge_condition {c : Clauses κ} {v : Json} :
    (c.judge scope .condition v).result = (c.choice scope (.json v)).result := by
  simp only [judge]
  split <;> rfl

theorem Clauses.standsAlone_judge {c : Clauses κ} {k : EntryKey} {v : Json} {e : Entry κ}
    (h : (c.judge scope k v).result = .ok e) :
    e.StandsAlone ↔ k ≠ .error ∧ (k = .goto → Label.clean? c.jump = none) := by
  cases k with
  | error =>
    obtain ⟨x, -, rfl⟩ := Verdict.ok_of_map (Verdict.ok_of_ofExcept h)
    simp only [ne_eq, not_true_eq_false, false_and, iff_false]
    exact fun hs => hs.not_error _ rfl
  | goto =>
    obtain ⟨t, -, rfl⟩ := Verdict.ok_of_map (Verdict.ok_of_ofExcept h)
    constructor
    · exact fun hs => ⟨by simp, fun _ => hs.not_jump _ rfl⟩
    · intro hs
      refine ⟨by simp, fun g hg => ?_⟩
      obtain rfl := Entry.goto.inj hg
      exact hs.2 rfl
  | sequence =>
    obtain ⟨s, -, rfl⟩ := Verdict.ok_of_map h
    exact ⟨by simp, fun _ => ⟨by simp, by simp⟩⟩
  | method =>
    obtain ⟨call, -, rfl⟩ := Verdict.ok_of_map (Verdict.ok_of_ofExcept h)
    exact ⟨by simp, fun _ => ⟨by simp, by simp⟩⟩
  | condition =>
    obtain ⟨x, rfl⟩ := conditional_of_choice (result_judge_condition.symm.trans h)
    exact ⟨by simp, fun _ => ⟨by simp, by simp⟩⟩
  | loop =>
    obtain ⟨l, rfl, -⟩ := loop_of_repetition h
    exact ⟨by simp, fun _ => ⟨by simp, by simp⟩⟩

theorem Json.member?_of_decided {ms : List (String × Json)} {k : EntryKey} {v : Json}
    (h : decided ms = some (k, v)) : member? k.text ms = some v := by
  obtain ⟨k', -, hk⟩ := List.exists_of_findSome?_eq_some h
  obtain ⟨w, hw, heq⟩ := Option.map_eq_some_iff.mp hk
  obtain ⟨rfl, rfl⟩ := Prod.mk.inj heq
  exact hw

theorem Json.decided_error {ms : List (String × Json)} {v : Json}
    (h : member? "error" ms = some v) :
    decided ms = some (.error, v) := by
  simp only [decided, EntryKey.all, List.findSome?_cons, EntryKey.text, h, Option.map_some]

theorem Label.clean?_member_eq_none {ms : List (String × Json)} {key : String} :
    clean? ((Json.member? key ms).bind Json.asString?) = none ↔
      ∀ text, Json.member? key ms = some (.string text) → Text.trim text = "" := by
  cases Json.member? key ms with
  | none => simp [clean?]
  | some v => cases v <;> simp [clean?, Json.asString?, clean_eq]

theorem Grammar.standsAlone_iff {v : Json} {e : Entry κ}
    (h : ((Declaration.json v).normalize scope).result = .ok e) :
    e.StandsAlone ↔ StandsAlone v := by
  match v with
  | .string n =>
    rw [Declaration.normalize] at h
    obtain ⟨call, -, rfl⟩ := Verdict.ok_of_map (Verdict.ok_of_ofExcept h)
    exact ⟨fun _ => ⟨by simp, by simp⟩, fun _ => ⟨by simp, by simp⟩⟩
  | .array items =>
    rw [Declaration.normalize] at h
    obtain rfl := Except.ok.inj h
    exact ⟨fun _ => ⟨by simp, by simp⟩, fun _ => ⟨by simp, by simp⟩⟩
  | .null | .bool _ | .number _ =>
    rw [Declaration.normalize] at h
    · exact absurd h (by simp [Verdict.refuse])
    all_goals simp
  | .object ms =>
    rw [Declaration.normalize, Clauses.normalize_ofMembers] at h
    cases hk : Json.decided ms with
    | none =>
      rw [hk] at h
      exact absurd h (by simp [Verdict.refuse])
    | some kv =>
      obtain ⟨k, w⟩ := kv
      rw [hk] at h
      rw [Clauses.standsAlone_judge h]
      have hjump : (Clauses.ofMembers ms : Clauses κ).jump =
        (Json.member? "jump" ms).bind Json.asString? := rfl
      rw [hjump, Label.clean?_member_eq_none]
      constructor
      · rintro ⟨herror, hgoto⟩
        constructor
        · intro ms' heq
          obtain rfl := Json.object.inj heq
          refine Option.eq_none_iff_forall_ne_some.mpr fun x hx => herror ?_
          exact (Prod.mk.inj (Option.some.inj (hk.symm.trans (Json.decided_error hx)))).1
        · intro ms' w' text heq hk'
          obtain rfl := Json.object.inj heq
          exact hgoto (Prod.mk.inj (Option.some.inj (hk.symm.trans hk'))).1 text
      · intro hs
        constructor
        · rintro rfl
          have := Json.member?_of_decided hk
          rw [EntryKey.text, hs.not_error ms rfl] at this
          exact absurd this.symm (Option.some_ne_none w)
        · rintro rfl text
          exact hs.not_jump ms w text rfl hk

theorem Grammar.clause_iff {registry : Registry κ} {ms : List (String × Json)} {k : EntryKey}
    {v : Json} (hk : Json.decided ms = some (k, v)) :
    Accepted registry (.object ms) ↔ Clause registry ms k v := by
  constructor
  · intro h
    cases h with
    | object hk' h =>
      obtain ⟨rfl, rfl⟩ := Prod.mk.inj (Option.some.inj (hk.symm.trans hk'))
      exact h
  · exact .object hk

theorem Declaration.accepts_nested {v : Json} :
    ((Declaration.json v).nested scope).Accepts ↔ ∃ items, v = .array items := by
  cases v with
  | array items =>
    rw [nested]
    exact ⟨fun _ => ⟨items, rfl⟩, fun _ => ⟨_, rfl⟩⟩
  | _ =>
    rw [nested]
    · simp [Verdict.not_accepts_refuse]
    all_goals simp

namespace Grammar
variable {ms : List (String × Json)} {v : Json}

theorem accepts_error :
    ((Clauses.ofMembers ms).judge scope .error v).Accepts ↔ Clause scope.registry ms .error v := by
  rw [Clauses.judge, Verdict.accepts_ofExcept, Verdict.exists_ok_map, ErrorValue.exists_ofJson]
  constructor
  · rintro (⟨text, rfl, h⟩ | ⟨hv, h⟩)
    · exact .message h
    · exact .report hv h
  · intro h
    cases h with
    | message h => exact .inl ⟨_, rfl, h⟩
    | report hv h => exact .inr ⟨hv, h⟩

theorem accepts_sequence :
    ((Clauses.ofMembers ms).judge scope .sequence v).Accepts ↔
      Clause scope.registry ms .sequence v := by
  rw [Clauses.judge, Verdict.accepts_map, Declaration.accepts_nested]
  constructor
  · rintro ⟨items, rfl⟩
    exact .sequence items
  · intro h
    cases h with
    | sequence items => exact ⟨items, rfl⟩

theorem accepts_method (hm : Json.member? "method" ms = some v) :
    ((Clauses.ofMembers ms).judge scope .method v).Accepts ↔
      Clause scope.registry ms .method v := by
  have hmethod : (Clauses.ofMembers ms : Clauses κ).method = some (.json v) :=
    congrArg (Option.map Declaration.json) hm
  rw [Clauses.judge, Verdict.accepts_ofExcept, Verdict.exists_ok_map, MethodCall.exists_ofClauses]
  simp only [hmethod, Option.some.injEq, exists_eq_left', MethodCall.exists_ofJson]
  constructor
  · exact .method
  · intro h
    cases h
    assumption

theorem exists_branch {key : String}
    (ih : ∀ key b, Json.member? key ms = some b →
      (((Declaration.json b).normalize scope).Accepts ↔ Accepted scope.registry b)) :
    (∃ d, (Json.member? key ms).map Declaration.json = some d ∧ (d.normalize scope).Accepts) ↔
      ∃ b, Json.member? key ms = some b ∧ Accepted scope.registry b := by
  constructor
  · rintro ⟨d, hd, h⟩
    obtain ⟨b, hb, rfl⟩ := Option.map_eq_some_iff.mp hd
    exact ⟨b, hb, (ih key b hb).mp h⟩
  · rintro ⟨b, hb, h⟩
    exact ⟨.json b, congrArg (Option.map Declaration.json) hb, (ih key b hb).mpr h⟩

theorem accepts_condition
    (ih : ∀ key b, Json.member? key ms = some b →
      (((Declaration.json b).normalize scope).Accepts ↔ Accepted scope.registry b)) :
    ((Clauses.ofMembers ms).judge scope .condition v).Accepts ↔
      Clause scope.registry ms .condition v := by
  rw [Verdict.Accepts, Clauses.result_judge_condition]
  refine Clauses.accepts_choice.trans ?_
  rw [MethodCall.exists_ofJson]
  constructor
  · rintro ⟨h, hb | hb⟩
    · obtain ⟨b, hm, hb⟩ := (exists_branch ih).mp hb
      exact .conditional h (.inl rfl) hm hb
    · obtain ⟨b, hm, hb⟩ := (exists_branch ih).mp hb
      exact .conditional h (.inr rfl) hm hb
  · intro h
    cases h with
    | conditional h hkey hm hb =>
      rcases hkey with rfl | rfl
      · exact ⟨h, .inl ((exists_branch ih).mpr ⟨_, hm, hb⟩)⟩
      · exact ⟨h, .inr ((exists_branch ih).mpr ⟨_, hm, hb⟩)⟩

theorem accepts_loop
    (ih : ∀ key b, Json.member? key ms = some b →
      (((Declaration.json b).normalize scope).Accepts ↔ Accepted scope.registry b)) :
    ((Clauses.ofMembers ms).judge scope .loop v).Accepts ↔ Clause scope.registry ms .loop v := by
  rw [Clauses.judge, Clauses.accepts_repetition, LoopControl.accepts_ofJson]
  constructor
  · rintro ⟨hv, d, e, hd, he, hs⟩
    obtain ⟨b, hm, rfl⟩ := Option.map_eq_some_iff.mp hd
    exact .loop hv hm ((ih _ b hm).mp ⟨e, he⟩) ((standsAlone_iff he).mp hs)
  · intro h
    cases h with
    | @loop _ _ b hv hm hb hs =>
      obtain ⟨e, he⟩ := (ih _ b hm).mpr hb
      exact ⟨hv, .json b, e, congrArg (Option.map Declaration.json) hm, he,
        (standsAlone_iff he).mpr hs⟩

theorem accepts_goto :
    ((Clauses.ofMembers ms).judge scope .goto v).Accepts ↔ Clause scope.registry ms .goto v := by
  rw [Clauses.judge, Verdict.accepts_ofExcept, Verdict.exists_ok_map, GotoTarget.exists_ofJson]
  constructor
  · rintro (⟨text, rfl, h⟩ | ⟨gs, n, rfl, hm, h⟩)
    · exact .label h
    · exact .resolver hm h
  · intro h
    cases h with
    | label h => exact .inl ⟨_, rfl, h⟩
    | resolver hm h => exact .inr ⟨_, _, rfl, hm, h⟩

theorem accepts_judge {k : EntryKey} (hk : Json.decided ms = some (k, v))
    (ih : ∀ key b, Json.member? key ms = some b →
      (((Declaration.json b).normalize scope).Accepts ↔ Accepted scope.registry b)) :
    ((Clauses.ofMembers ms).judge scope k v).Accepts ↔ Clause scope.registry ms k v := by
  cases k with
  | error => exact accepts_error
  | sequence => exact accepts_sequence
  | method => exact accepts_method (Json.member?_of_decided hk)
  | condition => exact accepts_condition ih
  | loop => exact accepts_loop ih
  | goto => exact accepts_goto

/-- A value of a document declares a step exactly if it follows the grammar. -/
theorem accepts_iff (scope : Scope κ) (v : Json) :
    ((Declaration.json v).normalize scope).Accepts ↔ Accepted scope.registry v := by
  match v with
  | .string n =>
    rw [Declaration.normalize, Verdict.accepts_ofExcept, Verdict.exists_ok_map,
      MethodCall.exists_ofName]
    constructor
    · exact .name
    · intro h
      cases h
      assumption
  | .array items =>
    rw [Declaration.normalize]
    exact ⟨fun _ => .array items, fun _ => ⟨_, rfl⟩⟩
  | .null | .bool _ | .number _ =>
    rw [Declaration.normalize]
    · refine iff_of_false (Verdict.not_accepts_refuse _) fun h => ?_
      cases h
    all_goals simp
  | .object ms =>
    rw [Declaration.normalize, Clauses.normalize_ofMembers]
    cases hk : Json.decided ms with
    | none =>
      refine iff_of_false (Verdict.not_accepts_refuse _) fun h => ?_
      cases h with
      | object hk' => exact absurd (hk.symm.trans hk').symm (Option.some_ne_none _)
    | some kv =>
      rw [clause_iff hk]
      refine accepts_judge hk fun key b hb => ?_
      have := Json.sizeOf_member? hb
      exact accepts_iff scope b
termination_by sizeOf v

end Grammar
end

/-- Adding a document succeeds exactly if it follows the grammar. -/
theorem Sequence.exists_tryAdd_json {s : Sequence κ} {v : Json} :
    (∃ t, (s.tryAdd (.json v)).result = .ok t) ↔ Grammar.Accepted s.registry v := by
  exact Verdict.exists_ok_map.trans (Grammar.accepts_iff s.scope v)

end Sequencer
