import Sequencer.Proofs.Machine.Routes
import Sequencer.Proofs.Program.Canonical
import Sequencer.Proofs.Program.LabelTable

/-! Spellings of a label. A label is cleaned when it is declared, again when the run is told to go
to it, and once more when the table is asked. Each of them may find another spelling, with blanks
around it or in capitals, and all of them find the same key. -/

namespace Sequencer
variable {κ : Type}

/-! ### Blanks around a text -/

namespace Text

def Blank (s : String) : Prop := ∀ c ∈ s.toList, isBlank c = true

instance : DecidablePred Blank := fun s =>
  decidable_of_iff (s.toList.all isBlank = true) List.all_eq_true

theorem rdropWhile_append_blank {cs back : List Char} (hb : ∀ c ∈ back, isBlank c = true) :
    (cs ++ back).rdropWhile isBlank = cs.rdropWhile isBlank := by
  have hb' : ∀ c ∈ back.reverse, isBlank c = true := fun c hc => hb c (List.mem_reverse.mp hc)
  unfold List.rdropWhile
  rw [List.reverse_append, List.dropWhile_append_of_pos hb']

theorem trimList_append {front cs back : List Char} (hf : ∀ c ∈ front, isBlank c = true)
    (hb : ∀ c ∈ back, isBlank c = true) : trimList (front ++ cs ++ back) = trimList cs := by
  have htrim (ds : List Char) : trimList ds = (ds.dropWhile isBlank).rdropWhile isBlank := rfl
  rw [htrim, htrim, List.append_assoc, List.dropWhile_append_of_pos hf, List.dropWhile_append]
  -- A text of blanks alone is gone before its end is looked at.
  cases hcs : cs.dropWhile isBlank with
  | nil =>
    have hback : back.dropWhile isBlank = [] := List.dropWhile_eq_nil_iff.mpr hb
    simp only [List.isEmpty_nil, if_true, hback]
  | cons d ds =>
    simp only [List.isEmpty_cons, Bool.false_eq_true, if_false]
    exact rdropWhile_append_blank hb

end Text

theorem Label.clean_surrounded {front back : String} (text : String) (hf : Text.Blank front)
    (hb : Text.Blank back) : clean (front ++ text ++ back) = clean text := by
  have htrim : Text.trimList (front ++ text ++ back).toList = Text.trimList text.toList := by
    rw [String.toList_append, String.toList_append]
    exact Text.trimList_append hf hb
  unfold clean
  rw [htrim]

/-! ### Where a text is cleaned -/

theorem Clauses.label_and_jump_of_normalize {scope : Scope κ} {c : Clauses κ} {e : Entry κ}
    (h : (c.normalize scope).result = .ok e) :
    e.label = Label.clean? c.label ∧ (e.jump = Label.clean? c.jump ∨ ∃ x, e = .conditional x) := by
  rw [Clauses.normalize] at h
  split at h
  · obtain ⟨v, -, rfl⟩ := Verdict.ok_of_map (Verdict.ok_of_ofExcept h)
    exact ⟨rfl, .inl rfl⟩
  split at h
  · obtain ⟨s, -, rfl⟩ := Verdict.ok_of_map h
    exact ⟨rfl, .inl rfl⟩
  split at h
  · obtain ⟨call, hcall, rfl⟩ := Verdict.ok_of_map (Verdict.ok_of_ofExcept h)
    rw [MethodCall.ofClauses] at hcall
    split at hcall
    · exact absurd hcall (by simp)
    · obtain ⟨inner, -, rfl⟩ := Verdict.ok_of_map hcall
      exact ⟨rfl, .inl rfl⟩
  split at h
  next d _ =>
    have hchoice : (c.choice scope d).result = .ok e := by
      simp only at h
      split at h <;> exact h
    rw [Clauses.choice] at hchoice
    obtain ⟨call, -, h⟩ := Verdict.ok_of_andThen hchoice
    obtain ⟨whenTrue, -, h⟩ := Verdict.ok_of_andThen h
    obtain ⟨whenFalse, -, h⟩ := Verdict.ok_of_andThen h
    split at h
    · exact absurd h (by simp [Verdict.refuse])
    · obtain rfl := Except.ok.inj h
      exact ⟨rfl, .inr ⟨_, rfl⟩⟩
  split at h
  · rw [Clauses.repetition] at h
    obtain ⟨control, -, h⟩ := Verdict.ok_of_andThen h
    obtain ⟨block, -, h⟩ := Verdict.ok_of_andThen h
    obtain ⟨onSuccess, -, h⟩ := Verdict.ok_of_andThen h
    obtain ⟨onError, -, h⟩ := Verdict.ok_of_andThen h
    obtain rfl := Except.ok.inj h
    exact ⟨rfl, .inl rfl⟩
  split at h
  · obtain ⟨target, -, rfl⟩ := Verdict.ok_of_map (Verdict.ok_of_ofExcept h)
    exact ⟨rfl, .inl rfl⟩
  · exact absurd h (by simp [Verdict.refuse])

/-- What going to a key of the active sequence comes to. -/
def Machine.seek (m : Machine κ) (l : String) : Move κ :=
  match m.active.sequence.labels.get? l with
  | none => m.raise (.unknownLabel l)
  | some i =>
    (m.modifyActive fun f => { f with pendingJump := none, stack := [], cursor := i }).advance

namespace Label
variable {text l : String}

/-- Wherever the text is cleaned, it stands for the key: as the label or the jump of an entry, as
the target of a goto, as what a run is told to go to, and as what a table is asked for. -/
structure Spells (κ : Type) (text l : String) : Prop where
  filed (s t : Sequence κ) (c : Clauses κ) (hc : c.label = some text)
    (h : (s.tryAdd (.object c)).result = .ok t) : t.labels.get? l = some s.size
  jumped (scope : Scope κ) (c : Clauses κ) (e : Entry κ) (hc : c.jump = some text)
    (h : (c.normalize scope).result = .ok e) : e.jump = some l ∨ ∃ x, e = .conditional x
  target (registry : Registry κ) :
    GotoTarget.ofClause registry (.label text) = .ok (.label l)
  told (m : Machine κ) : m.step (.goto text) = m.step (.goto l)
  sought (m : Machine κ) (hf : m.active.finished = false) (hl : ∀ sig, (l, sig) ∉ primitives) :
    m.step (.goto text) = m.seek l
  asked (s : Sequence κ) : s.labelIndex text = s.labels.get? l

theorem filed_of_clean (hc : clean text = some l) {s t : Sequence κ} {c : Clauses κ}
    (htext : c.label = some text) (h : (s.tryAdd (.object c)).result = .ok t) :
    t.labels.get? l = some s.size := by
  obtain ⟨e, he, rfl⟩ := Verdict.ok_of_map h
  rw [Declaration.normalize] at he
  have hlabel : e.label = some l := by
    rw [(Clauses.label_and_jump_of_normalize he).1, htext, clean?, Option.bind_some, hc]
  rw [Sequence.get?_labels_push, if_pos hlabel]

theorem goto_of_clean (hc : clean text = some l) (m : Machine κ) :
    m.step (.goto text) = m.step (.goto l) := by
  have hl : clean l = some l := (clean_of_clean hc).clean_eq_some
  simp only [Machine.step, Machine.goto, hc, hl]

theorem seek_of_clean (hc : clean text = some l) {m : Machine κ} (hf : m.active.finished = false)
    (hl : ∀ sig, (l, sig) ∉ primitives) : m.step (.goto text) = m.seek l := by
  have hne := Machine.ne_of_not_primitive hl
  have hindex : m.active.sequence.labelIndex l = m.active.sequence.labels.get? l :=
    Sequence.labelIndex_of_clean hc
  simp only [Machine.step, Machine.goto, hf, hc, hne, hindex, Bool.false_eq_true, if_false]
  rfl

theorem spells_of_clean (hc : clean text = some l) : Spells κ text l where
  filed _ _ _ htext h := filed_of_clean hc htext h
  jumped _ c _ htext h := by
    have hjump : clean? c.jump = some l := by rw [htext, clean?, Option.bind_some, hc]
    exact hjump ▸ (Clauses.label_and_jump_of_normalize h).2
  target _ := by simp only [GotoTarget.ofClause, hc]
  told m := goto_of_clean hc m
  sought _ hf hl := seek_of_clean hc hf hl
  asked s := by rw [Sequence.labelIndex, hc, Option.bind_some]

end Label

/-! ### The keys of a table -/

namespace Sequence
variable {s : Sequence κ}

theorem allCanonical_of_encloses {t : Sequence κ} (hs : ∀ e ∈ s.entries, e.AllCanonical)
    (ht : s.Encloses t) :
    ∀ e ∈ t.entries, e.AllCanonical := by
  -- along the nesting: the entry that runs the next sequence is itself inside an entry of the last
  -- one
  induction ht with
  | refl => exact hs
  | tail _ hn ih =>
    obtain ⟨b, ⟨r, hr, ho⟩, hb⟩ := hn
    have hcontains : r.Contains b :=
      Relation.ReflTransGen.mono (fun _ _ h => Entry.Inside.offered h) _ _ ho
    intro e he x hx
    have hinside : b.Inside e := .run hb he
    exact ih r hr x ((hcontains.tail hinside).trans hx)

end Sequence

theorem Entry.Canonical.cleaned_label {e : Entry κ} (h : e.Canonical) : Label.Cleaned e.label := by
  cases h with
  | method h => exact h.label
  | conditional label => exact label
  | loop label => exact label
  | goto label => exact label
  | error label => exact label
  | sequence label => exact label

theorem Sequence.Composed.clean_of_key {s t : Sequence κ} (hs : s.Composed) (ht : s.Encloses t)
    {l : String} {i : Nat} (h : t.labels.get? l = some i) : Label.Clean l := by
  have hlast : t.LastCarrying l i := (hs.built.filed t ht l i).mp h
  obtain ⟨e, he, hl⟩ := hlast.carries
  have hcanonical : e.Canonical :=
    allCanonical_of_encloses hs.built.allCanonical ht e (List.mem_of_getElem? he) e .refl
  exact hcanonical.cleaned_label l hl

/-- Cleaning is stable. What is clean is a label and stays as it is, blanks around a text do not
count, every spelling of a label stands for the same key wherever it is cleaned, and in a composed
sequence, and in all nested in it, the keys are found by themselves. -/
theorem Label.cleaning_stable :
    (∀ text l, clean text = some l → l ≠ "" ∧ clean l = some l) ∧
    (∀ front text back, Text.Blank front → Text.Blank back →
      clean (front ++ text ++ back) = clean text) ∧
    (∀ text l, clean text = some l → Spells κ text l ∧ Spells κ l l) ∧
    ∀ s : Sequence κ, s.Composed → ∀ t, s.Encloses t → ∀ l i, t.labels.get? l = some i →
      t.labelIndex l = some i := by
  refine ⟨?_, ?_, ?_, ?_⟩
  · intro text l h
    have hl : Clean l := clean_of_clean h
    exact ⟨hl.nonempty, hl.clean_eq_some⟩
  · intro front text back hf hb
    exact clean_surrounded text hf hb
  · intro text l h
    have hl : clean l = some l := (clean_of_clean h).clean_eq_some
    exact ⟨spells_of_clean h, spells_of_clean hl⟩
  · intro s hs t ht l i h
    have hl : clean l = some l := (hs.clean_of_key ht h).clean_eq_some
    rw [(spells_of_clean hl).asked, h]

/-! ### A label beyond ASCII -/

/-- A step whose label has a capital that becomes two characters, a sigma that ends the word, and
wide blanks around it. -/
def wideStep : Json :=
  .object [("label", .string "\u3000\u0130\u03a3\u00a0"), ("method", .string "step")]

def wideSequence : Sequence Unit where
  entries := [.method { label := some "i\u0307\u03c2", operation := () }]
  labels := ⟨[("i\u0307\u03c2", 0)]⟩
  registry := stepping

theorem clean_wide : Label.clean "\u3000\u0130\u03a3\u00a0" = some "i\u0307\u03c2" := by
  decide +kernel

theorem composed_wideSequence : wideSequence.Composed := by
  have hstep : (Sequence.withRegistry stepping).attempt (.json wideStep) = wideSequence := by
    simp [wideStep, Sequence.attempt, Sequence.tryAdd, Declaration.normalize, Clauses.normalize,
      MethodCall.ofClauses, MethodCall.ofDeclaration, Clauses.ofMembers, Json.member?,
      Json.asString?, Label.clean?, clean_wide]
    rfl
  rw [← hstep]
  exact .attempt (.withRegistry stepping) _ fun _ ht => absurd ht Declaration.not_holds_json

/-- The step is found by what is left of its label, and by the label as it was written. -/
theorem wide_cleaning_stable :
    Label.clean "\u0130\u03a3" = some "i\u0307\u03c2" ∧ "i\u0307\u03c2" ≠ "" ∧
    Text.Blank "\u3000" ∧ Text.Blank "\u00a0" ∧
    Label.clean ("\u3000" ++ "\u0130\u03a3" ++ "\u00a0") = Label.clean "\u0130\u03a3" ∧
    wideSequence.Composed ∧ wideSequence.labels.get? "i\u0307\u03c2" = some 0 ∧
    wideSequence.labelIndex "i\u0307\u03c2" = some 0 ∧
    wideSequence.labelIndex "\u0130\u03a3" = some 0 ∧
    (Machine.start wideSequence).step (.goto "\u0130\u03a3") =
      (Machine.start wideSequence).seek "i\u0307\u03c2" := by
  obtain ⟨hstable, hblanks, hspells, hkeys⟩ := Label.cleaning_stable (κ := Unit)
  have hclean : Label.clean "\u0130\u03a3" = some "i\u0307\u03c2" := by decide +kernel
  have hfront : Text.Blank "\u3000" := by decide
  have hback : Text.Blank "\u00a0" := by decide
  have hkey : wideSequence.labels.get? "i\u0307\u03c2" = some 0 := rfl
  have hfree : ∀ sig, ("i\u0307\u03c2", sig) ∉ Label.primitives := by
    intro sig h
    rcases Label.primitive_cases h with ⟨h, -⟩ | ⟨h, -⟩ | ⟨h, -⟩
    all_goals exact absurd h (by decide)
  have hspells := (hspells _ _ hclean).1
  refine ⟨hclean, (hstable _ _ hclean).1, hfront, hback, hblanks _ _ _ hfront hback,
    composed_wideSequence, hkey, hkeys _ composed_wideSequence _ .refl _ _ hkey, ?_,
    hspells.sought _ rfl hfree⟩
  rw [hspells.asked, hkey]

end Sequencer
