import Sequencer.Proofs.Program.Documents
import Sequencer.Proofs.Program.Grammar

/-! Who reports a refusal. An item of an array that is refused is left out, and the array says so
after all that has been reported inside the item. What is reported inside may look the same, since
items hold arrays of their own; it is told apart by how many arrays lie between. -/

namespace Sequencer
variable {κ : Type}

/-! ### Reports and the arrays they are made in -/

/-- A report with the number of arrays, below the one that is looked at, that it was made in. -/
structure LevelReport where
  level : Nat
  report : Diagnostic

namespace LevelReport

def beneath (r : LevelReport) : LevelReport := { r with level := r.level + 1 }

/-- Why items of the array that is looked at were refused. -/
def refusals (rs : List LevelReport) : List DeclarationError :=
  rs.filterMap fun r =>
    match r with
    | ⟨0, .invalidEntry e⟩ => some e
    | _ => none

theorem refusals_append (rs rs' : List LevelReport) :
    refusals (rs ++ rs') = refusals rs ++ refusals rs' := List.filterMap_append

theorem refusals_beneath (rs : List LevelReport) : refusals (rs.map beneath) = [] := by
  rw [refusals, List.filterMap_map, List.filterMap_eq_nil_iff]
  intro r _
  rfl

end LevelReport

theorem Json.sizeOf_mem_member? {ms : List (String × Json)} {key : String} {vs : List Json}
    {v : Json} (hm : member? key ms = some (.array vs)) (hv : v ∈ vs) : sizeOf v < sizeOf ms := by
  have hmember := sizeOf_member? hm
  have hitem := List.sizeOf_lt_of_mem hv
  rw [array.sizeOf_spec] at hmember
  omega

/-- An item of an array, with the reports that were made inside it. -/
structure Account where
  item : Json
  inner : List LevelReport

namespace Scope

def verdictReport (scope : Scope κ) (v : Json) : List LevelReport :=
  match ((Declaration.json v).normalize scope).result with
  | .ok _ => []
  | .error e => [⟨0, .invalidEntry e⟩]

def reportsOf (scope : Scope κ) (a : Account) : List LevelReport :=
  a.inner ++ scope.verdictReport a.item

/-- The reports inside a value. That an item is refused is said by the array that it stands in, and
by nothing else. -/
inductive Inner (scope : Scope κ) : Json → List LevelReport → Prop
  | nothing (v : Json) : Inner scope v []
  | remark {v : Json} {d : Diagnostic} (hd : ∀ e, d ≠ .invalidEntry e) : Inner scope v [⟨0, d⟩]
  | append {v : Json} {rs rs' : List LevelReport} (h : Inner scope v rs) (h' : Inner scope v rs') :
    Inner scope v (rs ++ rs')
  | member {ms : List (String × Json)} {key : String} {v : Json} {rs : List LevelReport}
    (hm : Json.member? key ms = some v) (h : Inner scope v rs) : Inner scope (.object ms) rs
  | items {accounts : List Account} (h : ∀ a ∈ accounts, Inner scope a.item a.inner) :
    Inner scope (.array (accounts.map Account.item))
      ((accounts.flatMap scope.reportsOf).map LevelReport.beneath)

theorem Inner.refusals_eq {scope : Scope κ} {v : Json} {rs : List LevelReport}
    (h : scope.Inner v rs) :
    LevelReport.refusals rs = [] := by
  induction h with
  | nothing v => rfl
  | @remark v d hd =>
    cases d with
    | invalidEntry e => exact absurd rfl (hd e)
    | _ => rfl
  | append _ _ ih ih' => rw [LevelReport.refusals_append, ih, ih', List.append_nil]
  | member _ _ ih => exact ih
  | items _ _ => exact LevelReport.refusals_beneath _

/-- The reports, with levels that they may be given, are reports inside the value. -/
def Tells (scope : Scope κ) (v : Json) (reports : List Diagnostic) : Prop :=
  ∃ rs, scope.Inner v rs ∧ rs.map LevelReport.report = reports

section
variable {scope : Scope κ} {v : Json} {reports reports' : List Diagnostic} {α β : Type}

theorem tells_nil (scope : Scope κ) (v : Json) : scope.Tells v [] := ⟨[], .nothing v, rfl⟩

theorem tells_singleton {d : Diagnostic} (hd : ∀ e, d ≠ .invalidEntry e) : scope.Tells v [d] :=
  ⟨[⟨0, d⟩], .remark hd, rfl⟩

theorem Tells.append (h : scope.Tells v reports) (h' : scope.Tells v reports') :
    scope.Tells v (reports ++ reports') := by
  obtain ⟨rs, hrs, rfl⟩ := h
  obtain ⟨rs', hrs', rfl⟩ := h'
  exact ⟨rs ++ rs', hrs.append hrs', List.map_append⟩

theorem Tells.member {ms : List (String × Json)} {key : String} (h : scope.Tells v reports)
    (hm : Json.member? key ms = some v) : scope.Tells (.object ms) reports := by
  obtain ⟨rs, hrs, hreports⟩ := h
  exact ⟨rs, hrs.member hm, hreports⟩

theorem tells_andThen {x : Verdict α} {f : α → Verdict β} (h : scope.Tells v x.reports)
    (hf : ∀ a, scope.Tells v (f a).reports) : scope.Tells v (x.andThen f).reports := by
  unfold Verdict.andThen
  cases x.result with
  | ok a => exact h.append (hf a)
  | error e => exact h

theorem tells_optional {key : String} {x : Verdict α} (h : scope.Tells v x.reports) :
    scope.Tells v (x.optional key).reports := by
  unfold Verdict.optional
  cases x.result with
  | ok a => exact h
  | error e => exact h.append (tells_singleton (by simp))

theorem tells_report {d : Diagnostic} {x : Verdict α} (hd : ∀ e, d ≠ .invalidEntry e)
    (h : scope.Tells v x.reports) : scope.Tells v (x.report d).reports :=
  (tells_singleton hd).append h

theorem tells_ofControl {key : String} {d : Declaration κ} :
    scope.Tells v (MethodCall.ofControl scope.registry key d).reports := by
  unfold MethodCall.ofControl
  split
  · exact tells_nil scope v
  · split
    · exact tells_nil scope v
    · exact tells_report (by simp) (tells_nil scope v)

theorem tells_ofLoopClause {x : LoopClause κ} :
    scope.Tells v (LoopControl.ofClause scope.registry x).reports := by
  unfold LoopControl.ofClause
  split
  · exact tells_nil scope v
  · exact tells_nil scope v
  · exact tells_ofControl

/-! ### Every report has its place -/

theorem exists_accounts {vs : List Json}
    (ih : ∀ v ∈ vs, scope.Tells v ((Declaration.json v).normalize scope).reports) (s : Sequence κ) :
    ∃ accounts : List Account, accounts.map Account.item = vs ∧
      (∀ a ∈ accounts, scope.Inner a.item a.inner ∧
        a.inner.map LevelReport.report = ((Declaration.json a.item).normalize scope).reports) ∧
      (accounts.flatMap scope.reportsOf).map LevelReport.report = (scope.fill s vs).2 := by
  induction vs generalizing s with
  | nil => exact ⟨[], rfl, List.forall_mem_nil _, by rw [fill]; rfl⟩
  | cons v vs ihs =>
    obtain ⟨hv, hvs⟩ := List.forall_mem_cons.mp ih
    obtain ⟨rs, hrs, hreports⟩ := hv
    obtain ⟨accounts, hitems, hinner, hrest⟩ :=
      ihs hvs (s.pushVerdict ((Declaration.json v).normalize scope)).1
    refine ⟨⟨v, rs⟩ :: accounts, by rw [List.map_cons, hitems],
      List.forall_mem_cons.mpr ⟨⟨hrs, hreports⟩, hinner⟩, ?_⟩
    have hfirst : (scope.reportsOf ⟨v, rs⟩).map LevelReport.report =
        (s.pushVerdict ((Declaration.json v).normalize scope)).2 := by
      unfold reportsOf verdictReport Sequence.pushVerdict
      rw [List.map_append, hreports]
      cases ((Declaration.json v).normalize scope).result with
      | ok e => exact List.append_nil _
      | error e => rfl
    rw [fill, List.flatMap_cons, List.map_append, hfirst, hrest]

theorem tells_array {vs : List Json}
    (ih : ∀ v ∈ vs, scope.Tells v ((Declaration.json v).normalize scope).reports) (s : Sequence κ) :
    scope.Tells (.array vs) (scope.fill s vs).2 := by
  obtain ⟨accounts, rfl, hinner, hreports⟩ := exists_accounts ih s
  refine ⟨_, .items fun a ha => (hinner a ha).1, ?_⟩
  rw [← hreports, List.map_map]
  rfl

section Objects
variable {ms : List (String × Json)}
  (ih : ∀ key w, Json.member? key ms = some w →
    scope.Tells w ((Declaration.json w).normalize scope).reports)
include ih

theorem tells_branch (key text : String) :
    scope.Tells (.object ms) (scope.branch text ((Json.member? key ms).map .json)).reports := by
  cases hm : Json.member? key ms with
  | none =>
    rw [Option.map_none, branch]
    exact tells_nil scope _
  | some w =>
    rw [Option.map_some, branch]
    exact tells_optional ((ih key w hm).member hm)

theorem tells_block :
    scope.Tells (.object ms) (scope.block ((Json.member? "block" ms).map .json)).reports := by
  cases hm : Json.member? "block" ms with
  | none =>
    rw [Option.map_none, block]
    exact tells_nil scope _
  | some w =>
    rw [Option.map_some, block]
    exact tells_andThen ((ih _ w hm).member hm) fun _ => tells_nil scope _

theorem tells_failure :
    scope.Tells (.object ms)
      (scope.failure ((Json.member? "on-error" ms).map .ofJson)).reports := by
  cases hm : Json.member? "on-error" ms with
  | none =>
    rw [Option.map_none, failure]
    exact tells_nil scope _
  | some w =>
    rw [Option.map_some]
    by_cases hw : ∃ b, w = .bool b
    · obtain ⟨b, rfl⟩ := hw
      rw [failure_flag]
      exact tells_nil scope _
    · rw [failure_handler scope fun b hb => hw ⟨b, hb⟩]
      exact tells_optional ((ih _ w hm).member hm)

theorem tells_choice (d : Declaration κ) :
    scope.Tells (.object ms) ((Clauses.ofMembers ms).choice scope d).reports := by
  rw [Clauses.choice]
  refine tells_andThen tells_ofControl fun call => ?_
  refine tells_andThen (tells_branch ih "then" "then") fun whenTrue => ?_
  refine tells_andThen (tells_branch ih "else" "else") fun whenFalse => ?_
  split <;> exact tells_nil scope _

theorem tells_repetition (x : LoopClause κ) :
    scope.Tells (.object ms) ((Clauses.ofMembers ms).repetition scope x).reports := by
  rw [Clauses.repetition]
  refine tells_andThen tells_ofLoopClause fun control => ?_
  refine tells_andThen (tells_block ih) fun block => ?_
  refine tells_andThen (tells_branch ih "on-success" "on-success") fun onSuccess => ?_
  exact tells_andThen (tells_failure ih) fun onError => tells_nil scope _

theorem tells_judge {k : EntryKey} {w : Json} (hm : Json.member? k.text ms = some w)
    (hitems : ∀ vs, w = .array vs → scope.Tells (.array vs) (scope.fill scope.sequence vs).2) :
    scope.Tells (.object ms) ((Clauses.ofMembers ms).judge scope k w).reports := by
  cases k with
  | error => exact tells_nil scope _
  | sequence =>
    cases w with
    | array vs =>
      rw [Clauses.judge, nested_array]
      exact (hitems vs rfl).member hm
    | _ =>
      rw [Clauses.judge, Declaration.nested]
      · exact tells_nil scope _
      all_goals simp
  | method => exact tells_nil scope _
  | condition =>
    rw [Clauses.judge]
    split
    · exact tells_report (by simp) (tells_choice ih _)
    · exact tells_choice ih _
  | loop => exact tells_repetition ih _
  | goto => exact tells_nil scope _

end Objects

/-- All reports that the normal form of a value comes with are reports inside the value. -/
theorem tells_normalize (scope : Scope κ) (v : Json) :
    scope.Tells v ((Declaration.json v).normalize scope).reports := by
  match v with
  | .string n =>
    rw [Declaration.normalize]
    exact tells_nil scope _
  | .array vs =>
    rw [normalize_array]
    refine tells_array (fun w hw => ?_) _
    have := List.sizeOf_lt_of_mem hw
    exact tells_normalize scope w
  | .null | .bool _ | .number _ =>
    rw [Declaration.normalize]
    · exact tells_nil scope _
    all_goals simp
  | .object ms =>
    rw [Declaration.normalize, Clauses.normalize_ofMembers]
    cases hk : Json.decided ms with
    | none => exact tells_nil scope _
    | some kw =>
      obtain ⟨k, w⟩ := kw
      have hm : Json.member? k.text ms = some w := Json.member?_of_decided hk
      refine tells_judge (fun key u hu => ?_) hm fun vs hvs => tells_array (fun u hu => ?_) _
      · have := Json.sizeOf_member? hu
        exact tells_normalize scope u
      · have := Json.sizeOf_mem_member? (hvs ▸ hm) hu
        exact tells_normalize scope u
termination_by sizeOf v
decreasing_by
  all_goals
    simp only [Json.array.sizeOf_spec, Json.object.sizeOf_spec]
    omega

/-- The account of an item is in order: the reports inside are those that its normal form comes
with, and the array says once that the item is refused, or the item is an entry and the array says
nothing. -/
structure Accounted (scope : Scope κ) (a : Account) : Prop where
  inner : scope.Inner a.item a.inner
  reports : a.inner.map LevelReport.report = ((Declaration.json a.item).normalize scope).reports
  settled : (∃ e, scope.normalForm? a.item = some e ∧
      LevelReport.refusals (scope.reportsOf a) = []) ∨
    scope.normalForm? a.item = none ∧ ∃ e, LevelReport.refusals (scope.reportsOf a) = [e]

theorem accounted_of_inner {a : Account} (h : scope.Inner a.item a.inner)
    (hreports : a.inner.map LevelReport.report =
      ((Declaration.json a.item).normalize scope).reports) :
    scope.Accounted a := by
  have hrefusals : LevelReport.refusals (scope.reportsOf a) =
      LevelReport.refusals (scope.verdictReport a.item) := by
    rw [reportsOf, LevelReport.refusals_append, h.refusals_eq, List.nil_append]
  refine ⟨h, hreports, ?_⟩
  rw [hrefusals]
  unfold normalForm? verdictReport
  cases ((Declaration.json a.item).normalize scope).result with
  | ok e => exact .inl ⟨e, rfl, rfl⟩
  | error e => exact .inr ⟨rfl, e, rfl⟩

end
end Scope
end Sequencer
