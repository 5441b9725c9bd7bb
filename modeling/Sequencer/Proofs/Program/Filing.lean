import Sequencer.Proofs.Program.Built
import Sequencer.Proofs.Program.Labels

/-! The label table of a built sequence. Whatever it has been built from, a label finds the last
entry that carries it, and the same holds in every sequence nested in it. -/

namespace Sequencer
variable {κ : Type}

namespace Sequence
variable {s : Sequence κ} {e : Entry κ} {l : String} {i j : Nat}

/-- The entry at the index carries the label, and no later one does. -/
structure LastCarrying (s : Sequence κ) (l : String) (i : Nat) : Prop where
  carries : ∃ e, s.entries[i]? = some e ∧ e.label = some l
  last : ∀ (j : Nat) e, i < j → s.entries[j]? = some e → e.label ≠ some l

def Filed (s : Sequence κ) : Prop := ∀ l i, s.labels.get? l = some i ↔ s.LastCarrying l i

theorem LastCarrying.lt (h : s.LastCarrying l i) : i < s.entries.length := by
  obtain ⟨e, he, -⟩ := h.carries
  exact (List.getElem?_eq_some_iff.mp he).1

theorem LastCarrying.unique (h : s.LastCarrying l i) (h' : s.LastCarrying l j) : i = j := by
  obtain ⟨e, he, hl⟩ := h.carries
  obtain ⟨e', he', hl'⟩ := h'.carries
  rcases Nat.lt_trichotomy i j with hlt | rfl | hlt
  · exact absurd hl' (h.last j e' hlt he')
  · rfl
  · exact absurd hl (h'.last i e hlt he)

theorem exists_lastCarrying (hi : s.entries[i]? = some e) (hl : e.label = some l) :
    ∃ i, s.LastCarrying l i := by
  induction hn : s.entries.length - i using Nat.strong_induction_on generalizing i e with
  | _ n ih =>
    by_cases hlater : ∃ (j : Nat) (r : Entry κ), i < j ∧ s.entries[j]? = some r ∧ r.label = some l
    · obtain ⟨j, r, hj, hr, hrl⟩ := hlater
      have hlt := (List.getElem?_eq_some_iff.mp hr).1
      exact ih _ (by omega) hr hrl rfl
    · exact ⟨i, ⟨e, hi, hl⟩, fun j r hj hr hrl => hlater ⟨j, r, hj, hr, hrl⟩⟩

theorem lastCarrying_push_self (s : Sequence κ) (he : e.label = some l) :
    (s.push e).LastCarrying l s.entries.length := by
  refine ⟨⟨e, by simp, he⟩, fun j r hj hr => ?_⟩
  have hlt := (List.getElem?_eq_some_iff.mp hr).1
  rw [entries_push, List.length_append, List.length_singleton] at hlt
  omega

theorem lastCarrying_push_of_ne (he : e.label ≠ some l) :
    (s.push e).LastCarrying l i ↔ s.LastCarrying l i := by
  have old {j : Nat} {r : Entry κ} (hr : s.entries[j]? = some r) :
      (s.push e).entries[j]? = some r := by
    rw [entries_push, List.getElem?_append_left (List.getElem?_eq_some_iff.mp hr).1, hr]
  -- The entry that has been added does not carry the label.
  have back {j : Nat} {r : Entry κ} (hr : (s.push e).entries[j]? = some r)
      (hl : r.label = some l) : s.entries[j]? = some r := by
    rw [entries_push] at hr
    rcases Nat.lt_or_ge j s.entries.length with hlt | hge
    · rwa [List.getElem?_append_left hlt] at hr
    · rw [List.getElem?_append_right hge, List.getElem?_singleton] at hr
      split at hr
      · obtain rfl := Option.some.inj hr
        exact absurd hl he
      · cases hr
  constructor
  · rintro ⟨⟨r, hr, hl⟩, hlast⟩
    exact ⟨⟨r, back hr hl, hl⟩, fun j x hj hx => hlast j x hj (old hx)⟩
  · rintro ⟨⟨r, hr, hl⟩, hlast⟩
    refine ⟨⟨r, old hr, hl⟩, fun j x hj hx hxl => ?_⟩
    exact hlast j x hj (back hx hxl) hxl

theorem get?_labels_push (s : Sequence κ) (e : Entry κ) (l : String) :
    (s.push e).labels.get? l = if e.label = some l then some s.size else s.labels.get? l := by
  unfold push
  cases e.label with
  | none => simp only [reduceCtorEq, if_false]
  | some k => simp only [Table.get?_insert, Option.some.injEq, size]

theorem Filed.push (h : s.Filed) (e : Entry κ) : (s.push e).Filed := by
  intro l i
  rw [get?_labels_push]
  by_cases he : e.label = some l
  · have hself : (s.push e).LastCarrying l s.size := lastCarrying_push_self s he
    rw [if_pos he, Option.some.injEq]
    exact ⟨fun hi => hi ▸ hself, fun hi => hself.unique hi⟩
  · rw [if_neg he, h l i, lastCarrying_push_of_ne he]

theorem filed_of_empty (hl : s.labels = {}) (he : s.entries = []) : s.Filed := by
  intro l i
  rw [hl, Table.get?_empty]
  refine ⟨nofun, fun h => ?_⟩
  have hlt := h.lt
  rw [he] at hlt
  exact absurd hlt (Nat.not_lt_zero i)

theorem Filed.get?_eq_none_iff (h : s.Filed) :
    s.labels.get? l = none ↔ ∀ e ∈ s.entries, e.label ≠ some l := by
  constructor
  · intro hnone e he hl
    obtain ⟨j, hj⟩ := List.mem_iff_getElem?.mp he
    obtain ⟨i, hi⟩ := exists_lastCarrying hj hl
    exact absurd (hnone.symm.trans ((h l i).mpr hi)) nofun
  · intro hfree
    cases hget : s.labels.get? l with
    | none => rfl
    | some i =>
      obtain ⟨e, he, hl⟩ := ((h l i).mp hget).carries
      exact absurd hl (hfree e (List.mem_of_getElem? he))

theorem labelIndex_of_clean {text : String} (h : Label.clean text = some l) :
    s.labelIndex l = s.labels.get? l := by
  rw [labelIndex, (Label.clean_of_clean h).clean_eq_some]
  rfl

end Sequence

theorem Scope.keeps_filed (scope : Scope κ) : scope.Keeps Sequence.Filed :=
  ⟨Sequence.filed_of_empty rfl rfl, fun _ e h => h.push e⟩

/-- In a built sequence, and in all that are nested in it, a label finds the last entry that carries
it. -/
theorem Sequence.Built.filed {s : Sequence κ} (h : s.Built) : s.Throughout Sequence.Filed := by
  refine h.of_cases (fun scope => scope.keeps_filed.cases) fun s t hs hl he => ?_
  obtain ⟨hs, hes⟩ := Sequence.throughout_iff.mp hs
  refine Sequence.throughout_iff.mpr ⟨fun l i => ?_, he ▸ hes⟩
  rw [hl, hs l i]
  constructor
  · rintro ⟨hcarries, hlast⟩
    exact ⟨he ▸ hcarries, he ▸ hlast⟩
  · rintro ⟨hcarries, hlast⟩
    exact ⟨he ▸ hcarries, he ▸ hlast⟩

end Sequencer
