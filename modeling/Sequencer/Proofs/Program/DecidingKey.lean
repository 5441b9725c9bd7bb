import Sequencer.Proofs.Program.Grammar

/-! The members of an object that count. Every key is read before it is known what the object
declares, yet what it declares depends on the first deciding key alone and on the members that
belong to it: nothing that stands under another key, however it is shaped, can change the entry, the
reason to refuse it, or what is reported on the way, apart from the warning that a conditional has a
jump. -/

namespace Sequencer
variable {κ : Type}

/-- The keys that belong to what a deciding key declares, its own first. -/
def EntryKey.fields : EntryKey → List String
  | error => ["error", "do-break", "label", "jump"]
  | sequence => ["sequence", "label", "jump"]
  | method => ["method", "params", "label", "jump"]
  | condition => ["if", "then", "else", "label"]
  | loop => ["loop", "block", "on-success", "on-error", "label", "jump"]
  | goto => ["goto", "label", "jump"]

theorem EntryKey.text_mem_fields (k : EntryKey) : k.text ∈ k.fields := by
  cases k <;> exact List.mem_cons_self

namespace Json
variable {ms : List (String × Json)} {k : EntryKey}

/-- The first deciding key that the object has, whatever stands under it. -/
def deciding (ms : List (String × Json)) : Option EntryKey :=
  EntryKey.all.find? fun k => (member? k.text ms).isSome

/-- The warning about a jump that a conditional does not take. -/
def jumpWarning (ms : List (String × Json)) : List Diagnostic :=
  match deciding ms with
  | some .condition =>
    if (Label.clean? ((member? "jump" ms).bind asString?)).isSome then [.conditionalJump] else []
  | _ => []

theorem deciding_of_member? {earlier later : List EntryKey} {v : Json}
    (hall : EntryKey.all = earlier ++ k :: later)
    (hfree : ∀ k' ∈ earlier, member? k'.text ms = none) (hk : member? k.text ms = some v) :
    deciding ms = some k := by
  refine List.find?_eq_some_iff_append.mpr ⟨by rw [hk]; rfl, earlier, later, hall, fun k' hk' => ?_⟩
  rw [hfree k' hk']
  rfl

theorem decided_eq (ms : List (String × Json)) :
    decided ms = (deciding ms).bind fun k => (member? k.text ms).map (k, ·) := by
  unfold decided deciding
  induction EntryKey.all with
  | nil => rfl
  | cons k ks ih =>
    rw [List.findSome?_cons, List.find?_cons]
    cases hk : member? k.text ms with
    | none => exact ih
    | some v => simp [hk]

theorem decided_of_deciding (h : deciding ms = some k) : ∃ v, decided ms = some (k, v) := by
  have hpresent := List.find?_some h
  obtain ⟨v, hv⟩ := Option.isSome_iff_exists.mp hpresent
  exact ⟨v, by rw [decided_eq, h, Option.bind_some, hv, Option.map_some]⟩

end Json

theorem MethodCall.ofClauses_congr {registry : Registry κ} {c c' : Clauses κ}
    (method : c.method = c'.method) (label : c.label = c'.label) (params : c.params = c'.params)
    (jump : c.jump = c'.jump) :
    ofClauses registry c = ofClauses registry c' := by
  rw [ofClauses, ofClauses, label, params, jump]
  cases c'
  obtain rfl : c.method = _ := method
  rfl

namespace Clauses
variable {scope : Scope κ} {ms ms' : List (String × Json)} {k : EntryKey}

def ruling (scope : Scope κ) (c : Clauses κ) : EntryKey → Json → Verdict (Entry κ)
  | .condition, v => c.choice scope (.json v)
  | k, v => c.judge scope k v

theorem ruling_eq_of_fields (h : ∀ key ∈ k.fields, Json.member? key ms = Json.member? key ms')
    (v : Json) :
    (ofMembers ms : Clauses κ).ruling scope k v = (ofMembers ms').ruling scope k v := by
  cases k <;> simp only [EntryKey.fields, List.forall_mem_cons] at h
  case error =>
    obtain ⟨-, hdoBreak, hlabel, hjump, -⟩ := h
    simp only [ruling, judge, ErrorEntry.ofValue, ofMembers, hdoBreak, hlabel, hjump]
  case sequence =>
    obtain ⟨-, hlabel, hjump, -⟩ := h
    simp only [ruling, judge, ofMembers, hlabel, hjump]
  case method =>
    obtain ⟨hmethod, hparams, hlabel, hjump, -⟩ := h
    have hcall : MethodCall.ofClauses scope.registry (ofMembers ms) =
        MethodCall.ofClauses scope.registry (ofMembers ms') := by
      refine MethodCall.ofClauses_congr ?_ ?_ ?_ ?_ <;>
        simp only [ofMembers, hmethod, hparams, hlabel, hjump]
    simp only [ruling, judge, hcall]
  case condition =>
    obtain ⟨-, hthen, helse, hlabel, -⟩ := h
    rw [ruling, ruling, choice, choice]
    simp only [ofMembers, hthen, helse, hlabel]
  case loop =>
    obtain ⟨-, hblock, honSuccess, honError, hlabel, hjump, -⟩ := h
    simp only [ruling, judge]
    rw [repetition, repetition]
    simp only [ofMembers, hblock, honSuccess, honError, hlabel, hjump]
  case goto =>
    obtain ⟨-, hlabel, hjump, -⟩ := h
    simp only [ruling, judge, ofMembers, hlabel, hjump]

theorem normalize_of_undecided (hk : Json.deciding ms = none) :
    (ofMembers ms : Clauses κ).normalize scope =
      ⟨.error (.unrecognizedShape "object without an entry key"), Json.jumpWarning ms ++ []⟩ := by
  rw [normalize_ofMembers, Json.decided_eq, hk, Json.jumpWarning, hk]
  rfl

theorem normalize_of_decided {v : Json} (hk : Json.deciding ms = some k)
    (hv : Json.decided ms = some (k, v)) :
    (ofMembers ms : Clauses κ).normalize scope =
      ⟨((ofMembers ms).ruling scope k v).result,
        Json.jumpWarning ms ++ ((ofMembers ms).ruling scope k v).reports⟩ := by
  rw [normalize_ofMembers, hv, Json.jumpWarning, hk]
  cases k with
  | condition =>
    have hjump :
        (ofMembers ms : Clauses κ).jump = (Json.member? "jump" ms).bind Json.asString? := rfl
    simp only [judge, ruling, hjump]
    split <;> rfl
  | error | sequence | method | loop | goto => rfl

/-- What clauses give is a verdict that depends on the members of the deciding key, with the warning
put in front of its reports. -/
theorem normalize_of_fields (scope : Scope κ) (hkey : Json.deciding ms = Json.deciding ms')
    (hfields : ∀ k, Json.deciding ms = some k → ∀ key ∈ k.fields,
      Json.member? key ms = Json.member? key ms') :
    ∃ v : Verdict (Entry κ),
      (ofMembers ms).normalize scope = ⟨v.result, Json.jumpWarning ms ++ v.reports⟩ ∧
      (ofMembers ms').normalize scope = ⟨v.result, Json.jumpWarning ms' ++ v.reports⟩ := by
  cases hk : Json.deciding ms with
  | none =>
    exact ⟨.refuse _, normalize_of_undecided hk, normalize_of_undecided (hkey ▸ hk)⟩
  | some k =>
    have hfields := hfields k hk
    have hk' := hkey ▸ hk
    obtain ⟨v, hv⟩ := Json.decided_of_deciding hk
    obtain ⟨v', hv'⟩ := Json.decided_of_deciding hk'
    have hsame : v = v' := by
      have hvalue := hfields k.text (EntryKey.text_mem_fields k)
      rw [Json.member?_of_decided hv, Json.member?_of_decided hv'] at hvalue
      exact Option.some.inj hvalue
    subst hsame
    refine ⟨_, normalize_of_decided hk hv, ?_⟩
    rw [ruling_eq_of_fields hfields]
    exact normalize_of_decided hk' hv'

end Clauses

/-- Of two objects that are decided by the same key and agree on what belongs to it, the one gives
what the other does. A key decides by being there first, with whatever value. -/
theorem Sequence.tryAdd_of_deciding {s : Sequence κ} {ms ms' : List (String × Json)}
    (hkey : Json.deciding ms = Json.deciding ms')
    (hfields : ∀ k, Json.deciding ms = some k → ∀ key ∈ k.fields,
      Json.member? key ms = Json.member? key ms') :
    (s.tryAdd (.json (.object ms))).result = (s.tryAdd (.json (.object ms'))).result ∧
    (∃ reports, (s.tryAdd (.json (.object ms))).reports = Json.jumpWarning ms ++ reports ∧
      (s.tryAdd (.json (.object ms'))).reports = Json.jumpWarning ms' ++ reports) ∧
    ∀ (earlier later : List EntryKey) (k : EntryKey) (v : Json),
      EntryKey.all = earlier ++ k :: later →
      (∀ k' ∈ earlier, Json.member? k'.text ms = none) → Json.member? k.text ms = some v →
      Json.deciding ms = some k := by
  obtain ⟨v, hms, hms'⟩ := Clauses.normalize_of_fields s.scope hkey hfields
  rw [tryAdd, tryAdd, Declaration.normalize, Declaration.normalize, hms, hms']
  exact ⟨rfl, ⟨v.reports, rfl, rfl⟩, fun _ _ _ _ => Json.deciding_of_member?⟩

def checking : Sequence Unit := .withRegistry ⟨⟨[("check", ()), ("step", ())]⟩, {}⟩

/-- A conditional with a jump, and with a target that no goto could have. -/
def strayGoto : List (String × Json) :=
  [("goto", .null), ("if", .string "check"), ("jump", .string " Out "), ("then", .string "step")]

def strayLoop : List (String × Json) :=
  [("if", .string "check"), ("loop", .bool false), ("on-error", .array []),
    ("then", .string "step")]

def checked : Sequence Unit :=
  checking.push (.conditional ⟨none, { operation := () }, some (.method { operation := () }), none⟩)

theorem tryAdd_strayLoop : checking.tryAdd (.json (.object strayLoop)) = .accept checked := by
  simp [strayLoop, Sequence.tryAdd, Declaration.normalize, Clauses.normalize, Clauses.choice,
    Scope.branch, MethodCall.ofControl, MethodCall.ofDeclaration, Clauses.ofMembers, Json.member?]
  rfl

/-- What is astray makes no difference but for the warning, while a key without a value keeps all
later ones from being looked at. -/
theorem strayGoto_of_deciding :
    Json.deciding strayGoto = Json.deciding strayLoop ∧
    (∀ k, Json.deciding strayGoto = some k → ∀ key ∈ k.fields,
      Json.member? key strayGoto = Json.member? key strayLoop) ∧
    checking.tryAdd (.json (.object strayLoop)) = .accept checked ∧
    (checking.tryAdd (.json (.object strayGoto))).result = .ok checked ∧
    (checking.tryAdd (.json (.object strayGoto))).reports = [.conditionalJump] ∧
    Json.deciding [("error", .null), ("method", .string "step")] = some .error := by
  have hfields : ∀ k, Json.deciding strayGoto = some k → ∀ key ∈ k.fields,
      Json.member? key strayGoto = Json.member? key strayLoop := by
    intro k hk
    obtain rfl : EntryKey.condition = k := Option.some.inj hk
    simp only [EntryKey.fields, List.forall_mem_cons]
    exact ⟨rfl, rfl, rfl, rfl, List.forall_mem_nil _⟩
  have hkey : Json.deciding strayGoto = Json.deciding strayLoop := rfl
  obtain ⟨hresult, ⟨reports, hgoto, hloop⟩, -⟩ :=
    Sequence.tryAdd_of_deciding (s := checking) hkey hfields
  rw [tryAdd_strayLoop] at hresult hloop
  obtain rfl : [] = reports := hloop
  have hself : Json.deciding [("error", .null), ("method", .string "step")] =
    Json.deciding [("error", .null), ("method", .string "step")] := rfl
  obtain ⟨-, -, hnull⟩ := Sequence.tryAdd_of_deciding (s := checking) hself fun _ _ _ _ => rfl
  exact ⟨rfl, hfields, tryAdd_strayLoop, hresult, hgoto, hnull [] _ .error .null rfl nofun rfl⟩

end Sequencer
