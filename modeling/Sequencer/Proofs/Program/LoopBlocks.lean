import Sequencer.Proofs.Program.DecidingKey
import Sequencer.Proofs.Program.Documents
import Sequencer.Proofs.Program.Filing

/-! The body of a loop, however its block is written. An entry that is put into a body of its own
and an array with that entry alone take two ways: one pushes the entry onto an empty sequence, the
other fills one. An array and an object that names it under `sequence` take two more, and the
sequence is the body itself on both, with nothing wrapped around it. -/

namespace Sequencer
variable {κ : Type}

/-! ### Bodies -/

/-- The entry becomes a body by standing in it alone. A sequence without a jump is a body
already. -/
inductive Entry.Wraps : Entry κ → Prop
  | method (call : MethodCall κ) : Wraps (.method call)
  | conditional (c : Conditional κ) : Wraps (.conditional c)
  | loop (l : Loop κ) : Wraps (.loop l)
  | goto (label : Option String) (target : GotoTarget κ) : Wraps (.goto ⟨label, target, none⟩)
  | sequence (label : Option String) (s : Sequence κ) (jump : String) :
    Wraps (.sequence ⟨label, s, some jump⟩)

theorem Entry.Wraps.body {e : Entry κ} (h : e.Wraps) (scope : Scope κ) :
    scope.body e = .ok (scope.sequence.push e) := by
  cases h <;> rfl

/-- The object names the array as a sequence, with any label and without a jump. -/
structure Json.Encases (ms : List (String × Json)) (items : List Json) : Prop where
  sequence : member? "sequence" ms = some (.array items)
  error : member? "error" ms = none
  jump : Label.clean? ((member? "jump" ms).bind asString?) = none

namespace Scope
variable {scope : Scope κ} {x : Json} {e : Entry κ}

theorem block_of_body {d : Declaration κ} {s : Sequence κ} (he : (d.normalize scope).result = .ok e)
    (hs : scope.body e = .ok s) : scope.block (some d) = ⟨.ok s, (d.normalize scope).reports⟩ := by
  have hfield : (d.normalize scope).inField "block" = ⟨.ok e, (d.normalize scope).reports⟩ := by
    rw [Verdict.inField, he]
    rfl
  rw [block, hfield, Verdict.andThen]
  simp only [Verdict.ofExcept, hs, List.append_nil]

theorem block_array (scope : Scope κ) (items : List Json) :
    scope.block (some (.json (.array items))) =
      ⟨.ok (scope.fill scope.sequence items).1, (scope.fill scope.sequence items).2⟩ := by
  have hnormal := scope.normalize_array items
  have hbody := block_of_body (d := .json (.array items)) (congrArg Verdict.result hnormal) rfl
  rw [hbody, hnormal]

theorem fill_singleton (he : ((Declaration.json x).normalize scope).result = .ok e) :
    scope.fill scope.sequence [x] =
      (scope.sequence.push e, ((Declaration.json x).normalize scope).reports) := by
  simp only [fill, Sequence.pushVerdict, he, List.append_nil]

theorem block_eq_singleton (he : ((Declaration.json x).normalize scope).result = .ok e)
    (hw : e.Wraps) :
    scope.block (some (.json x)) = scope.block (some (.json (.array [x]))) := by
  rw [block_of_body he (hw.body scope), block_array, fill_singleton he]

theorem normalize_of_encases {ms : List (String × Json)} {items : List Json}
    (h : Json.Encases ms items) :
    (Declaration.json (.object ms)).normalize scope =
      ⟨.ok (.sequence ⟨Label.clean? ((Json.member? "label" ms).bind Json.asString?),
        (scope.fill scope.sequence items).1, none⟩), (scope.fill scope.sequence items).2⟩ := by
  have hdecided : Json.decided ms = some (.sequence, .array items) := by
    simp only [Json.decided, EntryKey.all, List.findSome?_cons, EntryKey.text, h.error, h.sequence,
      Option.map_none, Option.map_some]
  have hjump : Label.clean? (Clauses.ofMembers ms : Clauses κ).jump = none := h.jump
  have hlabel : (Clauses.ofMembers ms : Clauses κ).label =
    (Json.member? "label" ms).bind Json.asString? := rfl
  rw [Declaration.normalize, Clauses.normalize_ofMembers, hdecided]
  simp only [Clauses.judge, scope.nested_array, hjump, hlabel]
  rfl

theorem block_eq_array {ms : List (String × Json)} {items : List Json} (h : Json.Encases ms items) :
    scope.block (some (.json (.object ms))) = scope.block (some (.json (.array items))) := by
  have hnormal := @normalize_of_encases κ scope ms items h
  rw [block_of_body (congrArg Verdict.result hnormal) rfl, block_array, hnormal]

end Scope

/-! ### Loops -/

namespace Clauses
variable {scope : Scope κ} {c : Clauses κ} {v w : Json}

def withBlock (c : Clauses κ) (v : Json) : Clauses κ := { c with block := some (.json v) }

/-- The clauses declare a loop whose control is accepted. -/
structure Loops (registry : Registry κ) (c : Clauses κ) : Prop where
  error : c.error = none
  sequence : c.sequence = none
  method : c.method = none
  condition : c.condition = none
  control : ∃ x, c.control = some x ∧ (LoopControl.ofClause registry x).Accepts

/-- With the block the clauses declare a loop if they declare one at all, and its body is the
sequence. -/
structure RunsOver (scope : Scope κ) (c : Clauses κ) (v : Json) (s : Sequence κ) : Prop where
  declared : c.Loops scope.registry →
    ∃ l, ((c.withBlock v).normalize scope).result = .ok (.loop l)
  body : ∀ l, ((c.withBlock v).normalize scope).result = .ok (.loop l) → l.block = s

theorem ofMembers_place_block (ms : List (String × Json)) (v : Json) :
    (ofMembers (Json.place "block" v ms) : Clauses κ) = (ofMembers ms).withBlock v := by
  unfold ofMembers withBlock
  simp only [Json.member?_place, String.reduceEq, if_false, if_true, Option.map_some]

theorem normalize_withBlock_eq (h : scope.block (some (.json v)) = scope.block (some (.json w))) :
    (c.withBlock v).normalize scope = (c.withBlock w).normalize scope := by
  -- Of what the verdict is put together from, only the body of a loop looks at the block.
  have hcall : MethodCall.ofClauses scope.registry (c.withBlock v) =
      MethodCall.ofClauses scope.registry (c.withBlock w) :=
    MethodCall.ofClauses_congr rfl rfl rfl rfl
  have hchoice (d : Declaration κ) :
      (c.withBlock v).choice scope d = (c.withBlock w).choice scope d := by
    rw [choice, choice]
    rfl
  have hloop (x : LoopClause κ) :
      (c.withBlock v).repetition scope x = (c.withBlock w).repetition scope x := by
    rw [repetition, repetition]
    simp only [withBlock, h]
  rw [normalize, normalize]
  simp only [hcall, hchoice, hloop]
  rfl

theorem Loops.normalize_eq (h : c.Loops scope.registry) (v : Json) :
    ∃ x, (LoopControl.ofClause scope.registry x).Accepts ∧
      (c.withBlock v).normalize scope = (c.withBlock v).repetition scope x := by
  obtain ⟨x, hx, haccepts⟩ := h.control
  refine ⟨x, haccepts, ?_⟩
  have herror : (c.withBlock v).error = none := h.error
  have hsequence : (c.withBlock v).sequence = none := h.sequence
  have hmethod : (c.withBlock v).method = none := h.method
  have hcondition : (c.withBlock v).condition = none := h.condition
  have hcontrol : (c.withBlock v).control = some x := hx
  rw [normalize]
  simp only [herror, hmethod, hcondition, hcontrol, Option.isSome_none, Bool.false_eq_true,
    if_false]
  split
  next hd => exact absurd (hsequence.symm.trans hd) (by simp)
  next => rfl

theorem runsOver_of_block {s : Sequence κ}
    (hs : (scope.block (some (.json v))).result = .ok s) (c : Clauses κ) :
    c.RunsOver scope v s := by
  constructor
  · intro h
    obtain ⟨x, hx, heq⟩ := h.normalize_eq v
    have hblock : (scope.block (c.withBlock v).block).Accepts := ⟨s, hs⟩
    obtain ⟨e, he⟩ := accepts_repetition.mpr ⟨hx, Scope.accepts_block.mp hblock⟩
    obtain ⟨l, rfl, -⟩ := loop_of_repetition he
    exact ⟨l, heq ▸ he⟩
  · intro l hl
    have hblock : (scope.block (some (.json v))).result = .ok l.block := block_of_normalize hl
    exact Except.ok.inj (hblock.symm.trans hs)

end Clauses

/-! ### Loops in their owner -/

namespace Sequence
variable {s : Sequence κ} {e : Entry κ}

theorem get?_labels_push_child (s : Sequence κ) (e : Entry κ) (k : String) :
    (s.child.push e).labels.get? k = if e.label = some k then some 0 else none := by
  rw [get?_labels_push]
  rfl

theorem tryAdd_of_normalize {d : Declaration κ} (h : (d.normalize s.scope).result = .ok e) :
    (s.tryAdd d).result = .ok (s.push e) := by
  rw [tryAdd, Verdict.map, h]
  rfl

/-- A loop means the same with an entry for its block and with the array of that entry alone, unless
the entry is an array's or is refused as a body; and the same with an array and with an object that
names the array as its sequence. The body of the first is an empty sequence of the owner's kind
with the entry in it, and that of the second is the sequence that the array itself declares. -/
theorem loop_blocks_agree (owner : Sequence κ) (c : Clauses κ) :
    (∀ x e, ((Declaration.json x).normalize owner.scope).result = .ok e → e.Wraps →
      (c.withBlock x).normalize owner.scope = (c.withBlock (.array [x])).normalize owner.scope ∧
      c.RunsOver owner.scope x (owner.child.push e) ∧
      ∀ k, (owner.child.push e).labels.get? k = if e.label = some k then some 0 else none) ∧
    (∀ ms items, Json.Encases ms items →
      (c.withBlock (.object ms)).normalize owner.scope =
        (c.withBlock (.array items)).normalize owner.scope ∧
      ∃ s, ((Declaration.json (.array items)).normalize owner.scope).result =
          .ok (.sequence ⟨none, s, none⟩) ∧
        s.entries = items.filterMap owner.scope.normalForm? ∧ s.Bare owner.scope none ∧
        c.RunsOver owner.scope (.object ms) s) ∧
    (∀ (d : Declaration κ) (l : Loop κ), (d.normalize owner.scope).result = .ok (.loop l) →
      (owner.tryAdd d).result = .ok (owner.push (.loop l)) ∧
      ∀ k, (owner.push (.loop l)).labels.get? k =
        if l.label = some k then some owner.size else owner.labels.get? k) ∧
    ∀ ms v, (Declaration.json (.object (Json.place "block" v ms))).normalize owner.scope =
      ((Clauses.ofMembers ms).withBlock v).normalize owner.scope := by
  refine ⟨?_, ?_, ?_, ?_⟩
  · intro x e he hw
    have hblock : (owner.scope.block (some (.json x))).result = .ok (owner.child.push e) :=
      congrArg Verdict.result (Scope.block_of_body he (hw.body owner.scope))
    exact ⟨Clauses.normalize_withBlock_eq (Scope.block_eq_singleton he hw),
      Clauses.runsOver_of_block hblock c, owner.get?_labels_push_child e⟩
  · intro ms items h
    have hblock := owner.scope.block_array items
    rw [← Scope.block_eq_array h] at hblock
    refine ⟨Clauses.normalize_withBlock_eq (Scope.block_eq_array h), _, ?_, ?_, ?_,
      Clauses.runsOver_of_block (congrArg Verdict.result hblock) c⟩
    · rw [Scope.normalize_array]
    · exact Scope.entries_fill _ _ _
    · exact Scope.bare_fill owner.scope.keeps_bare.empty items
  · intro d l hl
    exact ⟨tryAdd_of_normalize hl, owner.get?_labels_push (.loop l)⟩
  · intro ms v
    rw [Declaration.normalize, Clauses.ofMembers_place_block]

end Sequence

/-! ### A labelled step as a block -/

def pantry : Sequence Unit := (Sequence.withRegistry galley).setBreakOnError false

def again : Clauses Unit :=
  { label := some "Again", control := some (.flag true), jump := some " Out " }

def stirStep : Json := .object [("label", .string " Inner "), ("method", .string "stir")]

def stirCall : Entry Unit := .method { label := some "inner", operation := () }

/-- The step and one that is refused, under a label that the body does not get. -/
def stirSequence : List (String × Json) :=
  [("label", .string "outer"), ("sequence", .array [stirStep, .string "burn"])]

theorem normalize_stirStep :
    ((Declaration.json stirStep).normalize pantry.scope).result = .ok stirCall := by
  simp [stirStep, Declaration.normalize, Clauses.normalize, MethodCall.ofClauses,
    MethodCall.ofDeclaration, Clauses.ofMembers, Json.member?]
  rfl

/-- The step is found at the top of the body, on both ways to write it; and the owner finds the
loop. -/
theorem again_blocks_agree :
    ((Declaration.json stirStep).normalize pantry.scope).result = .ok stirCall ∧ stirCall.Wraps ∧
    again.Loops pantry.registry ∧ Json.Encases stirSequence [stirStep, .string "burn"] ∧
    (∃ l, ((again.withBlock stirStep).normalize pantry.scope).result = .ok (.loop l) ∧
      ((again.withBlock (.array [stirStep])).normalize pantry.scope).result = .ok (.loop l) ∧
      l.block = pantry.child.push stirCall ∧ l.block.labels.get? "inner" = some 0 ∧
      (pantry.tryAdd (.object (again.withBlock stirStep))).result = .ok (pantry.push (.loop l))) ∧
    ∃ l, ((again.withBlock (.object stirSequence)).normalize pantry.scope).result = .ok (.loop l) ∧
      ((again.withBlock (.array [stirStep, .string "burn"])).normalize pantry.scope).result =
        .ok (.loop l) ∧
      l.block.entries = [stirStep, .string "burn"].filterMap pantry.scope.normalForm? := by
  obtain ⟨hentry, harray, hadd, -⟩ := Sequence.loop_blocks_agree pantry again
  have hloops : again.Loops pantry.registry :=
    ⟨rfl, rfl, rfl, rfl, _, rfl, Verdict.accepts_accept _⟩
  have hencases : Json.Encases stirSequence [stirStep, .string "burn"] := ⟨rfl, rfl, rfl⟩
  have hwraps : stirCall.Wraps := .method _
  obtain ⟨hsame, hover, hlabels⟩ := hentry stirStep stirCall normalize_stirStep hwraps
  obtain ⟨l, hl⟩ := hover.declared hloops
  have hbody : l.block = pantry.child.push stirCall := hover.body l hl
  have hnormal : ((Declaration.object (again.withBlock stirStep)).normalize pantry.scope).result =
      .ok (.loop l) := by
    rw [Declaration.normalize, hl]
  obtain ⟨hsame', s, -, hentries, -, hover'⟩ := harray stirSequence _ hencases
  obtain ⟨l', hl'⟩ := hover'.declared hloops
  refine ⟨normalize_stirStep, hwraps, hloops, hencases, ⟨l, hl, hsame ▸ hl, hbody, ?_,
    (hadd _ l hnormal).1⟩, l', hl', hsame' ▸ hl', ?_⟩
  · rw [hbody, hlabels]
    rfl
  · rw [hover'.body l' hl', hentries]

end Sequencer
