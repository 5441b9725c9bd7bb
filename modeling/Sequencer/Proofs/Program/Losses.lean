import Sequencer.Proofs.Program.Refusals

/-! What a document loses. A step, an item of an array or a branch that is refused is left out, and
each of them with a report: an item with that of the array that it is an item of, and a branch under
its key. So a document without these reports is built in full, at every depth. -/

namespace Sequencer
variable {κ : Type}

/-- Something has been left out: an item of an array, or a branch. -/
def Diagnostic.Drops : Diagnostic → Prop
  | .invalidEntry _ | .invalidBranch _ _ => True
  | _ => False

/-! ### Verdicts without losses -/

/-- Accepted, with nothing left out on the way. -/
structure Verdict.Yields {α : Type} (v : Verdict α) (a : α) : Prop where
  result : v.result = .ok a
  kept : ∀ d ∈ v.reports, ¬ d.Drops

namespace Verdict.Yields
variable {α β : Type} {v : Verdict α} {a : α} {b : β} {key : String}

theorem of_andThen {f : α → Verdict β} (h : (v.andThen f).Yields b) :
    ∃ a, v.Yields a ∧ (f a).Yields b := by
  obtain ⟨a, ha, hb⟩ := Verdict.ok_of_andThen h.result
  have hreports : (v.andThen f).reports = v.reports ++ (f a).reports := by rw [andThen, ha]
  obtain ⟨hfirst, hrest⟩ := List.forall_mem_append.mp (hreports ▸ h.kept)
  exact ⟨a, ⟨ha, hfirst⟩, ⟨hb, hrest⟩⟩

theorem of_map {f : α → β} (h : (v.map f).Yields b) : ∃ a, v.Yields a ∧ f a = b := by
  obtain ⟨a, ha, hf⟩ := Verdict.ok_of_map h.result
  exact ⟨a, ⟨ha, h.kept⟩, hf⟩

theorem of_inField (h : (v.inField key).Yields a) : v.Yields a :=
  ⟨Verdict.ok_of_inField h.result, h.kept⟩

theorem of_report {d : Diagnostic} (h : (v.report d).Yields a) : v.Yields a :=
  ⟨h.result, (List.forall_mem_cons.mp h.kept).2⟩

theorem of_optional {o : Option α} (h : (v.optional key).Yields o) :
    ∃ a, o = some a ∧ v.Yields a := by
  cases hv : v.result with
  | ok a =>
    have hopt : v.optional key = ⟨.ok (some a), v.reports⟩ := by rw [optional, hv]
    rw [hopt] at h
    exact ⟨a, (Except.ok.inj h.result).symm, ⟨hv, h.kept⟩⟩
  | error e =>
    have hopt : v.optional key = ⟨.ok none, v.reports ++ [.invalidBranch key e]⟩ := by
      rw [optional, hv]
    rw [hopt] at h
    exact absurd trivial (h.kept _ (List.mem_append_right _ (List.mem_singleton_self _)))

end Verdict.Yields

/-! ### Entries without losses -/

inductive Entry.Simple : Entry κ → Prop
  | method (call : MethodCall κ) : Simple (.method call)
  | goto (g : GotoEntry κ) : Simple (.goto g)
  | error (x : ErrorEntry κ) : Simple (.error x)

/-- The handler of a loop is there if the value for it is no flag. -/
inductive LoopFailure.Kept (R : Json → Entry κ → Prop) : Option Json → Option (LoopFailure κ) → Prop
  | absent : Kept R none none
  | flag (b : Bool) : Kept R (some (.bool b)) (if b then none else some .suppress)
  | handler {v : Json} {e : Entry κ} (hv : ∀ b, v ≠ .bool b) (h : R v e) :
    Kept R (some v) (some (.handler e))

namespace Scope

/-- The parts of the entry stand for the parts of the value, one for one and in order. -/
inductive Parts (scope : Scope κ) (R : Json → Entry κ → Prop) : Json → Entry κ → Prop
  | simple (v : Json) {e : Entry κ} (h : e.Simple) : Parts scope R v e
  | array {vs : List Json} {s : Sequence κ} (h : List.Forall₂ R vs s.entries) :
    Parts scope R (.array vs) (.sequence ⟨none, s, none⟩)
  | sequence {ms : List (String × Json)} {vs : List Json} {n : SequenceEntry κ}
    (hm : Json.member? "sequence" ms = some (.array vs))
    (h : List.Forall₂ R vs n.sequence.entries) :
    Parts scope R (.object ms) (.sequence n)
  | conditional {ms : List (String × Json)} {c : Conditional κ}
    (whenTrue : Option.Rel R (Json.member? "then" ms) c.whenTrue)
    (whenFalse : Option.Rel R (Json.member? "else" ms) c.whenFalse) :
    Parts scope R (.object ms) (.conditional c)
  | loop {ms : List (String × Json)} {b : Json} {e : Entry κ} {l : Loop κ}
    (hm : Json.member? "block" ms = some b) (h : R b e) (hbody : scope.body e = .ok l.block)
    (onSuccess : Option.Rel R (Json.member? "on-success" ms) l.onSuccess)
    (onError : LoopFailure.Kept R (Json.member? "on-error" ms) l.onError) :
    Parts scope R (.object ms) (.loop l)

/-- The value becomes the entry, and nothing in it has been left out, at any depth. -/
inductive Whole (scope : Scope κ) : Json → Entry κ → Prop
  | intro {v : Json} {e : Entry κ} (made : scope.normalForm? v = some e)
    (parts : scope.Parts (Whole scope) v e) : Whole scope v e

section
variable {scope : Scope κ} {R : Json → Entry κ → Prop}

theorem kept_fill {vs : List Json}
    (ih : ∀ v ∈ vs, ∀ e, ((Declaration.json v).normalize scope).Yields e → R v e) (s : Sequence κ)
    (hkept : ∀ d ∈ (scope.fill s vs).2, ¬ d.Drops) :
    ∃ es, (scope.fill s vs).1.entries = s.entries ++ es ∧ List.Forall₂ R vs es := by
  -- for all sequences at once, since each item is added to what the last one has left
  induction vs generalizing s with
  | nil => exact ⟨[], by rw [fill, List.append_nil], .nil⟩
  | cons v vs ihs =>
    obtain ⟨hv, hvs⟩ := List.forall_mem_cons.mp ih
    cases hr : ((Declaration.json v).normalize scope).result with
    | error e =>
      -- the refusal would have been reported
      rw [fill, Sequence.pushVerdict, hr] at hkept
      have hmem : .invalidEntry e ∈ ((Declaration.json v).normalize scope).reports ++
          [.invalidEntry e] := List.mem_append_right _ (List.mem_singleton_self _)
      exact absurd trivial (hkept _ (List.mem_append_left _ hmem))
    | ok e =>
      have hpush : s.pushVerdict ((Declaration.json v).normalize scope) =
          (s.push e, ((Declaration.json v).normalize scope).reports) := by
        rw [Sequence.pushVerdict, hr]
      rw [fill, hpush] at hkept
      obtain ⟨hfirst, hrest⟩ := List.forall_mem_append.mp hkept
      obtain ⟨es, hes, hall⟩ := ihs hvs (s.push e) hrest
      refine ⟨e :: es, ?_, .cons (hv e ⟨hr, hfirst⟩) hall⟩
      rw [fill_cons_fst, hpush, hes, Sequence.entries_push, List.append_assoc]
      rfl

section Objects
variable {ms : List (String × Json)}
  (ih : ∀ key v, Json.member? key ms = some v → ∀ e,
    ((Declaration.json v).normalize scope).Yields e → R v e)
include ih

theorem kept_branch {key text : String} {o : Option (Entry κ)}
    (h : (scope.branch text ((Json.member? key ms).map .json)).Yields o) :
    Option.Rel R (Json.member? key ms) o := by
  cases hm : Json.member? key ms with
  | none =>
    rw [hm, Option.map_none, branch] at h
    obtain rfl := Except.ok.inj h.result
    exact .none
  | some v =>
    rw [hm, Option.map_some, branch] at h
    obtain ⟨e, rfl, he⟩ := h.of_optional
    exact .some (ih key v hm e he)

theorem kept_failure {o : Option (LoopFailure κ)}
    (h : (scope.failure ((Json.member? "on-error" ms).map .ofJson)).Yields o) :
    LoopFailure.Kept R (Json.member? "on-error" ms) o := by
  cases hm : Json.member? "on-error" ms with
  | none =>
    rw [hm, Option.map_none, failure] at h
    obtain rfl := Except.ok.inj h.result
    exact .absent
  | some v =>
    rw [hm, Option.map_some] at h
    by_cases hv : ∃ b, v = .bool b
    · obtain ⟨b, rfl⟩ := hv
      rw [failure_flag] at h
      obtain rfl := Except.ok.inj h.result
      exact .flag b
    · rw [failure_handler scope fun b hb => hv ⟨b, hb⟩] at h
      obtain ⟨o', ho', rfl⟩ := h.of_map
      obtain ⟨e, rfl, he⟩ := ho'.of_optional
      exact .handler (fun b hb => hv ⟨b, hb⟩) (ih _ v hm e he)

theorem kept_choice {d : Declaration κ} {e : Entry κ}
    (h : ((Clauses.ofMembers ms).choice scope d).Yields e) : scope.Parts R (.object ms) e := by
  rw [Clauses.choice] at h
  obtain ⟨call, -, h⟩ := h.of_andThen
  obtain ⟨whenTrue, htrue, h⟩ := h.of_andThen
  obtain ⟨whenFalse, hfalse, h⟩ := h.of_andThen
  split at h
  · exact absurd ⟨_, h.result⟩ (Verdict.not_accepts_refuse _)
  · obtain rfl := Except.ok.inj h.result
    exact .conditional (kept_branch ih htrue) (kept_branch ih hfalse)

theorem kept_repetition {x : LoopClause κ} {e : Entry κ}
    (h : ((Clauses.ofMembers ms).repetition scope x).Yields e) : scope.Parts R (.object ms) e := by
  rw [Clauses.repetition] at h
  obtain ⟨control, -, h⟩ := h.of_andThen
  obtain ⟨body, hbody, h⟩ := h.of_andThen
  obtain ⟨onSuccess, hsuccess, h⟩ := h.of_andThen
  obtain ⟨onError, herror, h⟩ := h.of_andThen
  obtain rfl := Except.ok.inj h.result
  have hblock :
      (Clauses.ofMembers ms : Clauses κ).block = (Json.member? "block" ms).map .json := rfl
  rw [hblock] at hbody
  cases hm : Json.member? "block" ms with
  | none =>
    rw [hm, Option.map_none, block] at hbody
    exact absurd ⟨_, hbody.result⟩ (Verdict.not_accepts_refuse _)
  | some b =>
    rw [hm, Option.map_some, block] at hbody
    obtain ⟨r, hr, hs⟩ := hbody.of_andThen
    exact .loop hm (ih _ b hm r hr.of_inField) (Verdict.ok_of_ofExcept hs.result)
      (kept_branch ih hsuccess) (kept_failure ih herror)

theorem kept_judge {k : EntryKey} {w : Json} {e : Entry κ} (hm : Json.member? k.text ms = some w)
    (hitems : ∀ vs, w = .array vs → ∀ v ∈ vs, ∀ e,
      ((Declaration.json v).normalize scope).Yields e → R v e)
    (h : ((Clauses.ofMembers ms).judge scope k w).Yields e) : scope.Parts R (.object ms) e := by
  cases k with
  | error =>
    obtain ⟨x, -, rfl⟩ := Verdict.ok_of_map (Verdict.ok_of_ofExcept h.result)
    exact .simple _ (.error _)
  | sequence =>
    obtain ⟨s, hs, rfl⟩ := h.of_map
    obtain ⟨vs, rfl⟩ := Declaration.accepts_nested.mp ⟨s, hs.result⟩
    rw [nested_array] at hs
    obtain rfl := Except.ok.inj hs.result
    obtain ⟨es, hes, hall⟩ := kept_fill (hitems vs rfl) _ hs.kept
    exact .sequence hm (hes ▸ hall)
  | method =>
    obtain ⟨call, -, rfl⟩ := Verdict.ok_of_map (Verdict.ok_of_ofExcept h.result)
    exact .simple _ (.method _)
  | condition =>
    rw [Clauses.judge] at h
    split at h
    · exact kept_choice ih h.of_report
    · exact kept_choice ih h
  | loop => exact kept_repetition ih h
  | goto =>
    obtain ⟨t, -, rfl⟩ := Verdict.ok_of_map (Verdict.ok_of_ofExcept h.result)
    exact .simple _ (.goto _)

end Objects

theorem normalForm?_of_yields {v : Json} {e : Entry κ}
    (h : ((Declaration.json v).normalize scope).Yields e) : scope.normalForm? v = some e := by
  rw [normalForm?, h.result]
  rfl

/-- A value that is accepted without any report of a loss becomes its entry as a whole. -/
theorem whole_of_yields (v : Json) {e : Entry κ}
    (h : ((Declaration.json v).normalize scope).Yields e) : scope.Whole v e := by
  refine .intro (normalForm?_of_yields h) ?_
  match v with
  | .string n =>
    rw [Declaration.normalize] at h
    obtain ⟨call, -, rfl⟩ := Verdict.ok_of_map (Verdict.ok_of_ofExcept h.result)
    exact .simple _ (.method _)
  | .array vs =>
    rw [normalize_array] at h
    obtain rfl := Except.ok.inj h.result
    obtain ⟨es, hes, hall⟩ := kept_fill (R := scope.Whole) (fun w hw r hr => by
      have := List.sizeOf_lt_of_mem hw
      exact whole_of_yields w hr) _ h.kept
    exact .array (hes ▸ hall)
  | .null | .bool _ | .number _ =>
    rw [Declaration.normalize] at h
    · exact absurd ⟨_, h.result⟩ (Verdict.not_accepts_refuse _)
    all_goals simp
  | .object ms =>
    rw [Declaration.normalize, Clauses.normalize_ofMembers] at h
    cases hk : Json.decided ms with
    | none =>
      rw [hk] at h
      exact absurd ⟨_, h.result⟩ (Verdict.not_accepts_refuse _)
    | some kw =>
      obtain ⟨k, w⟩ := kw
      rw [hk] at h
      have hm : Json.member? k.text ms = some w := Json.member?_of_decided hk
      refine kept_judge (fun key u hu r hr => ?_) hm (fun vs hvs u hu r hr => ?_) h
      · have := Json.sizeOf_member? hu
        exact whole_of_yields u hr
      · have := Json.sizeOf_mem_member? (hvs ▸ hm) hu
        exact whole_of_yields u hr
termination_by sizeOf v
decreasing_by
  all_goals
    simp only [Json.array.sizeOf_spec, Json.object.sizeOf_spec]
    omega

end
end Scope

/-! ### Documents -/

namespace Document
variable {registry : Registry κ} {doc : Json} {s : Sequence κ} {reports : List Diagnostic}

/-- Nothing is lost from a document without a report. Every step adds one entry, or adds none and is
reported once by the document itself, apart from what is reported inside it; and if neither a step
nor anything inside one is reported as left out, all of them have become entries as a whole. -/
theorem losses_reported (h : ofJson registry doc = .ok (s, reports)) :
    ∃ name flag steps, Spells doc name flag steps ∧
      s.entries = steps.filterMap (Scope.normalForm? ⟨registry, flag⟩) ∧
      (∃ accounts : List Account, accounts.map Account.item = steps ∧
        (∀ a ∈ accounts, Scope.Accounted ⟨registry, flag⟩ a) ∧
        reports = (accounts.flatMap (Scope.reportsOf ⟨registry, flag⟩)).map LevelReport.report) ∧
      ((∀ d ∈ reports, ¬ d.Drops) →
        List.Forall₂ (Scope.Whole ⟨registry, flag⟩) steps s.entries) := by
  obtain ⟨name, flag, steps, hdoc⟩ := spells_of_ofJson h
  have hbuild : build (blank registry name flag) steps = (s, reports) :=
    Except.ok.inj ((hdoc.ofJson_eq registry).symm.trans h)
  have hfill : Scope.fill ⟨registry, flag⟩ (blank registry name flag) steps = (s, reports) := hbuild
  have hentries : s.entries = steps.filterMap (Scope.normalForm? ⟨registry, flag⟩) := by
    have := Scope.entries_fill ⟨registry, flag⟩ (blank registry name flag) steps
    rwa [hfill] at this
  refine ⟨name, flag, steps, hdoc, hentries, ?_, ?_⟩
  · obtain ⟨accounts, hitems, hinner, hreports⟩ :=
      Scope.exists_accounts (fun v _ => Scope.tells_normalize ⟨registry, flag⟩ v)
        (blank registry name flag)
    rw [hfill] at hreports
    have haccounts : ∀ a ∈ accounts, Scope.Accounted ⟨registry, flag⟩ a := by
      intro a ha
      obtain ⟨hlevels, hsame⟩ := hinner a ha
      exact Scope.accounted_of_inner hlevels hsame
    exact ⟨accounts, hitems, haccounts, hreports.symm⟩
  · intro hkept
    have hreports : (Scope.fill ⟨registry, flag⟩ (blank registry name flag) steps).2 = reports :=
      congrArg Prod.snd hfill
    rw [← hreports] at hkept
    obtain ⟨es, hes, hall⟩ :=
      Scope.kept_fill (fun v _ e he => Scope.whole_of_yields v he) (blank registry name flag) hkept
    rw [hfill] at hes
    have hall' : s.entries = es := hes
    exact hall' ▸ hall

end Document

def plainRecipe : List (String × Json) :=
  [("break-on-error", .bool false), ("steps", .array [.string "boil", simmer])]

theorem ofJson_plainRecipe :
    Document.ofJson galley (.object plainRecipe) = .ok ({ soup with name := none }, []) := by
  simp [plainRecipe, simmer, Document.ofJson, Document.build, Document.settings, Scope.fill,
    Declaration.normalize, Clauses.normalize, Clauses.choice, Clauses.repetition, Scope.block,
    Scope.branch, Scope.failure, MethodCall.ofControl, MethodCall.ofDeclaration, Clauses.ofMembers,
    Json.member?, Json.asBool?]
  exact ⟨rfl, rfl, rfl⟩

theorem normalForm?_burn : Scope.normalForm? ⟨galley, false⟩ (.string "burn") = none := by
  simp only [Scope.normalForm?, Declaration.normalize]
  rfl

/-- The step in the middle of the recipe is refused once; without it, nothing is lost down to the
body of the loop below the branch. -/
theorem recipe_losses_reported :
    Document.ofJson galley (.object recipe) =
      .ok (soup, [.invalidEntry (.unknownOperation "burn")]) ∧
    (∃ a : Account, a.item = .string "burn" ∧ Scope.Accounted ⟨galley, false⟩ a ∧
      ∃ e, LevelReport.refusals (Scope.reportsOf ⟨galley, false⟩ a) = [e]) ∧
    Document.ofJson galley (.object plainRecipe) = .ok ({ soup with name := none }, []) ∧
    List.Forall₂ (Scope.Whole ⟨galley, false⟩) [.string "boil", simmer] soup.entries := by
  refine ⟨ofJson_recipe, ?_, ofJson_plainRecipe, ?_⟩
  · obtain ⟨name, flag, steps, hdoc, -, ⟨accounts, hitems, haccounts, -⟩, -⟩ :=
      Document.losses_reported ofJson_recipe
    cases hdoc with
    | object hsteps =>
      obtain rfl := Json.array.inj (Option.some.inj hsteps)
      have hmem : Json.string "burn" ∈ accounts.map Account.item :=
        hitems ▸ List.mem_cons_of_mem _ (List.mem_cons_self ..)
      obtain ⟨a, ha, hburn⟩ := List.mem_map.mp hmem
      have haccounted := haccounts a ha
      obtain ⟨e, he, -⟩ | ⟨-, hrefused⟩ := haccounted.settled
      · rw [hburn] at he
        exact absurd (he.symm.trans normalForm?_burn) (Option.some_ne_none e)
      · exact ⟨a, hburn, haccounted, hrefused⟩
  · obtain ⟨name, flag, steps, hdoc, -, -, hwhole⟩ := Document.losses_reported ofJson_plainRecipe
    cases hdoc with
    | object hsteps =>
      obtain rfl := Json.array.inj (Option.some.inj hsteps)
      exact hwhole (List.forall_mem_nil _)

end Sequencer
