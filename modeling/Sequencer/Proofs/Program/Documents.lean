import Sequencer.Proofs.Program.Built

/-! What a document makes. Its steps become entries one after the other, each by itself: what stands
before a step or after it makes no difference to its entry, and a step that is refused leaves no
trace. All sequences that come about on the way, however deep, have the registry and the error
policy of the document and nothing else of their own. -/

namespace Sequencer
variable {κ : Type}

namespace Json
variable {ms ms' : List (String × Json)} {key : String} {v : Json}

theorem member?_eq_some_iff (hn : (ms.map Prod.fst).Nodup) :
    member? key ms = some v ↔ (key, v) ∈ ms := by
  induction ms with
  | nil => simp [member?]
  | cons m ms ih =>
    obtain ⟨k, w⟩ := m
    obtain ⟨hk, hn⟩ := List.nodup_cons.mp hn
    rw [member?, List.mem_cons, Prod.mk.injEq]
    split
    next heq =>
      subst heq
      have hfree : (k, v) ∉ ms := fun hm => hk (List.mem_map.mpr ⟨_, hm, rfl⟩)
      simp [hfree, eq_comm]
    next hne => simp [ih hn, Ne.symm hne]

theorem member?_perm (hp : ms.Perm ms') (hn : (ms.map Prod.fst).Nodup) (key : String) :
    member? key ms = member? key ms' := by
  have hn' : (ms'.map Prod.fst).Nodup := (hp.map Prod.fst).nodup_iff.mp hn
  refine Option.ext fun v => ?_
  rw [member?_eq_some_iff hn, member?_eq_some_iff hn', hp.mem_iff]

end Json

/-! ### One step -/

def Scope.normalForm? (scope : Scope κ) (v : Json) : Option (Entry κ) :=
  ((Declaration.json v).normalize scope).result.toOption

namespace Sequence
variable {scope : Scope κ} {name : Option String} {s t : Sequence κ} {I : Sequence κ → Prop}

/-- Nothing is set but the name and, as in the scope, the registry and the error policy. -/
structure Bare (scope : Scope κ) (name : Option String) (s : Sequence κ) : Prop where
  registry : s.registry = scope.registry
  breakOnError : s.breakOnError = scope.breakOnError
  name : s.name = name
  onSuccess : s.onSuccess = none
  onError : s.onError = none

theorem Bare.push (h : s.Bare scope name) (e : Entry κ) : (s.push e).Bare scope name :=
  ⟨h.registry, h.breakOnError, h.name, h.onSuccess, h.onError⟩

theorem Bare.pushVerdict (h : s.Bare scope name) (v : Verdict (Entry κ)) :
    (s.pushVerdict v).1.Bare scope name := by
  unfold Sequence.pushVerdict
  cases v.result with
  | ok e => exact h.push e
  | error _ => exact h

theorem entries_pushVerdict (s : Sequence κ) (v : Verdict (Entry κ)) :
    (s.pushVerdict v).1.entries = s.entries ++ v.result.toOption.toList := by
  unfold Sequence.pushVerdict
  cases v.result with
  | ok e => rfl
  | error _ => exact (List.append_nil _).symm

theorem toOption_tryAdd (s : Sequence κ) (v : Json) :
    (s.tryAdd (.json v)).result.toOption = (s.scope.normalForm? v).map s.push := by
  unfold tryAdd Verdict.map Scope.normalForm?
  cases ((Declaration.json v).normalize s.scope).result <;> rfl

theorem of_transGen_nests (h : ∀ e ∈ s.entries, e.Throughout I) (ht : Relation.TransGen Nests s t) :
    I t := by
  obtain ⟨u, ⟨e, ⟨b, hb, ho⟩, hu⟩, ht⟩ := Relation.TransGen.head'_iff.mp ht
  exact h b hb e u ho hu t ht

end Sequence

namespace Scope
variable {scope : Scope κ} {name : Option String} {s : Sequence κ} {v : Json} {e : Entry κ}

theorem keeps_bare (scope : Scope κ) : scope.Keeps (Sequence.Bare scope none) where
  empty := ⟨rfl, rfl, rfl, rfl, rfl⟩
  push _ e h := h.push e

theorem throughout_normalForm? (h : scope.normalForm? v = some e) :
    e.Throughout (Sequence.Bare scope none) := by
  unfold normalForm? at h
  cases hr : ((Declaration.json v).normalize scope).result with
  | error _ =>
    rw [hr] at h
    exact absurd h nofun
  | ok r =>
    rw [hr] at h
    obtain rfl : r = e := Option.some.inj h
    exact scope.keeps_bare.cases.declaration (.json v)
      (fun _ ht => absurd ht Declaration.not_holds_json) hr

/-! ### All steps -/

theorem normalize_array (scope : Scope κ) (vs : List Json) :
    (Declaration.json (.array vs)).normalize scope =
      ⟨.ok (.sequence ⟨none, (scope.fill scope.sequence vs).1, none⟩),
        (scope.fill scope.sequence vs).2⟩ := by
  rw [Declaration.normalize]

theorem nested_array (scope : Scope κ) (vs : List Json) :
    (Declaration.json (.array vs)).nested scope =
      ⟨.ok (scope.fill scope.sequence vs).1, (scope.fill scope.sequence vs).2⟩ := by
  rw [Declaration.nested]

theorem failure_flag (scope : Scope κ) (b : Bool) :
    scope.failure (some (.ofJson (.bool b))) = .accept (if b then none else some .suppress) := by
  rw [FailureClause.ofJson]
  cases b <;> rw [failure] <;> rfl

theorem failure_handler (scope : Scope κ) {v : Json} (hv : ∀ b, v ≠ .bool b) :
    scope.failure (some (.ofJson v)) =
      (((Declaration.json v).normalize scope).optional "on-error").map (·.map .handler) := by
  have hclause : FailureClause.ofJson (κ := κ) v = .entry (.json v) := by
    cases v with
    | bool b => exact absurd rfl (hv b)
    | _ => rfl
  rw [hclause, failure]

theorem entries_fill (scope : Scope κ) (s : Sequence κ) (vs : List Json) :
    (scope.fill s vs).1.entries = s.entries ++ vs.filterMap scope.normalForm? := by
  -- for all sequences at once, since each step is added to what the last one has left
  induction vs generalizing s with
  | nil => rw [fill, List.filterMap_nil, List.append_nil]
  | cons v vs ih =>
    rw [fill_cons_fst, ih, Sequence.entries_pushVerdict, List.append_assoc, List.filterMap_cons,
      ← normalForm?]
    cases scope.normalForm? v <;> rfl

theorem bare_fill (hs : s.Bare scope name) (vs : List Json) :
    (scope.fill s vs).1.Bare scope name := by
  induction vs generalizing s with
  | nil => rwa [fill]
  | cons v vs ih =>
    rw [fill_cons_fst]
    exact ih (hs.pushVerdict _)

end Scope

namespace Document
variable {registry : Registry κ} {doc : Json} {s : Sequence κ} {reports : List Diagnostic}
  {name : Option String} {flag : Bool} {steps : List Json}

/-- The document gives a name, an error policy and the steps. A name or a policy of the wrong type
is not given, and what stands under other keys does not count. -/
inductive Spells : Json → Option String → Bool → List Json → Prop
  | array (steps : List Json) : Spells (.array steps) none true steps
  | object {ms : List (String × Json)} {steps : List Json}
    (h : Json.member? "steps" ms = some (.array steps)) :
    Spells (.object ms) ((Json.member? "name" ms).bind Json.asString?)
      (((Json.member? "break-on-error" ms).bind Json.asBool?).getD true) steps

theorem spells_of_ofJson (h : ofJson registry doc = .ok (s, reports)) :
    ∃ name flag steps, Spells doc name flag steps := by
  unfold ofJson at h
  split at h
  next steps => exact ⟨_, _, _, .array steps⟩
  next =>
    split at h
    next hsteps => exact ⟨_, _, _, .object hsteps⟩
    next => exact absurd h nofun
  next => exact absurd h nofun

def blank (registry : Registry κ) (name : Option String) (flag : Bool) : Sequence κ :=
  { name, breakOnError := flag, registry }

theorem Spells.ofJson_eq (h : Spells doc name flag steps) (registry : Registry κ) :
    ofJson registry doc = .ok (build (blank registry name flag) steps) := by
  cases h with
  | array steps => rfl
  | object h =>
    rw [ofJson, h]
    rfl

theorem Spells.accepted (h : Spells doc name flag steps) (registry : Registry κ) :
    ∃ s reports, ofJson registry doc = .ok (s, reports) ∧ s.Bare ⟨registry, flag⟩ name ∧
      s.entries = steps.filterMap (Scope.normalForm? ⟨registry, flag⟩) := by
  have hblank : (blank registry name flag).Bare ⟨registry, flag⟩ name := ⟨rfl, rfl, rfl, rfl, rfl⟩
  exact ⟨_, _, h.ofJson_eq registry, Scope.bare_fill hblank steps, Scope.entries_fill _ _ steps⟩

theorem ofJson_perm {ms ms' : List (String × Json)} (hp : ms.Perm ms')
    (hn : (ms.map Prod.fst).Nodup) (registry : Registry κ) :
    ofJson registry (.object ms) = ofJson registry (.object ms') := by
  have hsame := Json.member?_perm hp hn
  simp only [ofJson, settings, hsame]

/-- A document that is accepted is built from its steps in their order, each of them as in any other
place with the same registry and the same policy, and both are handed down to all that is built. -/
theorem ofJson_stepwise (h : ofJson registry doc = .ok (s, reports)) :
    ∃ name flag steps, Spells doc name flag steps ∧ s.Bare ⟨registry, flag⟩ name ∧
      s.entries = steps.filterMap (Scope.normalForm? ⟨registry, flag⟩) ∧
      (∀ (v : Json) (r : Sequence κ), r.scope = ⟨registry, flag⟩ →
        (r.tryAdd (.json v)).result.toOption = (Scope.normalForm? ⟨registry, flag⟩ v).map r.push) ∧
      (∀ a b, steps = a ++ b → ∀ docA docB nameA nameB, Spells docA nameA flag a →
        Spells docB nameB flag b → ∃ sA reportsA sB reportsB,
          ofJson registry docA = .ok (sA, reportsA) ∧ ofJson registry docB = .ok (sB, reportsB) ∧
          s.entries = sA.entries ++ sB.entries) ∧
      (∀ t, Relation.TransGen Sequence.Nests s t → t.Bare ⟨registry, flag⟩ none) ∧
      ∀ ms ms', doc = .object ms → (ms.map Prod.fst).Nodup → ms.Perm ms' →
        ofJson registry (.object ms') = .ok (s, reports) := by
  obtain ⟨name, flag, steps, hdoc⟩ := spells_of_ofJson h
  obtain ⟨s', reports', hs', hbare, hentries⟩ := hdoc.accepted registry
  obtain rfl : s' = s := congrArg Prod.fst (Except.ok.inj (hs'.symm.trans h))
  refine ⟨name, flag, steps, hdoc, hbare, hentries, ?_, ?_, ?_, ?_⟩
  · intro v r hr
    rw [r.toOption_tryAdd, hr]
  · intro a b hab docA docB nameA nameB hA hB
    obtain ⟨sA, reportsA, hsA, -, hentriesA⟩ := hA.accepted registry
    obtain ⟨sB, reportsB, hsB, -, hentriesB⟩ := hB.accepted registry
    refine ⟨sA, reportsA, sB, reportsB, hsA, hsB, ?_⟩
    rw [hentries, hab, List.filterMap_append, hentriesA, hentriesB]
  · -- the root may have a name of its own, so the property is shown of what its entries hold
    intro t ht
    refine Sequence.of_transGen_nests (fun e he => ?_) ht
    obtain ⟨v, -, hv⟩ := List.mem_filterMap.mp (hentries ▸ he)
    exact Scope.throughout_normalForm? hv
  · rintro ms ms' rfl hn hp
    rw [← ofJson_perm hp hn registry, h]

end Document

/-! ### A document with its policy -/

def galley : Registry Unit := ⟨⟨[("boil", ()), ("stir", ())]⟩, {}⟩

/-- A branch that is an array with a loop in it, whose body is one entry. -/
def simmer : Json := .object [("if", .string "boil"),
  ("then", .array [.object [("block", .string "stir"), ("loop", .bool true)]])]

def recipe : List (String × Json) := [("break-on-error", .bool false), ("name", .string "soup"),
  ("steps", .array [.string "boil", .string "burn", simmer])]

def stirred : Sequence Unit where
  entries := [.method { operation := () }]
  breakOnError := false
  registry := galley

def simmering : Sequence Unit where
  entries := [.loop ⟨none, .always, stirred, none, none, none⟩]
  breakOnError := false
  registry := galley

def soup : Sequence Unit where
  name := some "soup"
  entries := [.method { operation := () },
    .conditional ⟨none, { operation := () }, some (.sequence ⟨none, simmering, none⟩), none⟩]
  breakOnError := false
  registry := galley

theorem ofJson_recipe : Document.ofJson galley (.object recipe) =
    .ok (soup, [.invalidEntry (.unknownOperation "burn")]) := by
  simp [recipe, simmer, Document.ofJson, Document.build, Document.settings, Scope.fill,
    Declaration.normalize, Clauses.normalize, Clauses.choice, Clauses.repetition, Scope.block,
    Scope.branch, Scope.failure, MethodCall.ofControl, MethodCall.ofDeclaration, Clauses.ofMembers,
    Json.member?, Json.asString?, Json.asBool?]
  exact ⟨rfl, rfl⟩

theorem soup_nests_stirred : Relation.TransGen Sequence.Nests soup stirred := by
  have hbranch : soup.Has (.sequence ⟨none, simmering, none⟩) :=
    (Sequence.has_of_mem (List.mem_cons_of_mem _ (List.mem_singleton_self _))).offers
      (.whenTrue rfl)
  have hloop : simmering.Nests stirred :=
    ⟨_, Sequence.has_of_mem (List.mem_singleton_self _), .block _⟩
  exact .tail (.single ⟨_, hbranch, .nested _⟩) hloop

/-- The body below the branch has the policy of the document, the step in the middle is left out,
and the document with its members the other way round makes the same. -/
theorem recipe_stepwise :
    Document.ofJson galley (.object recipe) =
      .ok (soup, [.invalidEntry (.unknownOperation "burn")]) ∧
    Relation.TransGen Sequence.Nests soup stirred ∧ stirred.Bare ⟨galley, false⟩ none ∧
    soup.entries =
      [Json.string "boil", .string "burn", simmer].filterMap (Scope.normalForm? ⟨galley, false⟩) ∧
    Document.ofJson galley (.object recipe.reverse) =
      .ok (soup, [.invalidEntry (.unknownOperation "burn")]) := by
  obtain ⟨name, flag, steps, hdoc, hbare, hentries, -, -, hnested, horder⟩ :=
    Document.ofJson_stepwise ofJson_recipe
  have hflag : false = flag := hbare.breakOnError
  subst hflag
  obtain rfl : [.string "boil", .string "burn", simmer] = steps := by
    cases hdoc with
    | object h => exact Json.array.inj (Option.some.inj h)
  exact ⟨ofJson_recipe, soup_nests_stirred, hnested stirred soup_nests_stirred, hentries,
    horder recipe recipe.reverse rfl (by decide) recipe.reverse_perm.symm⟩

end Sequencer
