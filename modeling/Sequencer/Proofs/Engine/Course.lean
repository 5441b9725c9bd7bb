import Sequencer.Proofs.Engine.Locality

/-! The course of things from one configuration to another, outside calls included, and what a
context makes of it: exactly what it makes of its own share of the impulses. -/

namespace Sequencer
variable {κ σ ε : Type}

namespace Engine

/-- What has been done to which context, what has happened, and where that has led. -/
inductive Course (host : Host κ σ ε) (a : Config κ σ ε) :
    List (ContextId × Impulse κ) → List (Event κ ε) → Config κ σ ε → Prop
  | refl : Course host a [] [] a
  | step {b b' : Config κ σ ε} {ds : List (ContextId × Impulse κ)} {es es' : List (Event κ ε)}
    (h : Course host a ds es b) (hs : step host b = .more b' es') :
    Course host a (ds ++ (deed? b).toList) (es ++ es') b'
  | returned {b : Config κ σ ε} {ds : List (ContextId × Impulse κ)} {es : List (Event κ ε)}
    {w : World κ σ} {answer : String} (h : Course host a ds es b)
    (hs : Engine.step host b = .returned w answer) (k : Code κ σ ε) :
    Course host a ds es ⟨w, [.code k]⟩
  | panicked {b : Config κ σ ε} {ds : List (ContextId × Impulse κ)} {es : List (Event κ ε)}
    {w : World κ σ} (h : Course host a ds es b) (hs : Engine.step host b = .panicked w)
    (k : Code κ σ ε) : Course host a ds es ⟨w, [.code k]⟩

variable {host : Host κ σ ε} {a b : Config κ σ ε} {ds : List (ContextId × Impulse κ)}
  {es log : List (Event κ ε)} {c : ContextId} {w : World κ σ}

theorem Course.tracked (ha : a.Tracked) (h : Course host a ds es b) : b.Tracked := by
  induction h with
  | refl => exact ha
  | step _ hs ih => exact tracked_of_more ih hs
  | returned _ hs k ih => exact tracked_of_returned ih hs k
  | panicked _ hs k ih => exact tracked_of_panicked ih hs k

theorem impulses_cases (c : ContextId) (cfg : Config κ σ ε) :
    impulses c cfg = [] ∨ ∃ i, deed? cfg = some (c, i) ∧ impulses c cfg = [i] := by
  unfold impulses
  rcases deed? cfg with _ | ⟨d, i⟩
  · exact .inl rfl
  · by_cases h : d = c
    · exact .inr ⟨i, by rw [h], by simp [share, h]⟩
    · exact .inl (by simp [share, h])

theorem site_step {b' : Config κ σ ε} (h : b.Tracked) (hs : step host b = .more b' es)
    (c : ContextId) :
    impulses c b = [] ∧ site c b' = site c b ∧ happenings c es = [] ∨
    ∃ i, deed? b = some (c, i) ∧ impulses c b = [i] ∧ (site c b).Admits i ∧
      (site c b).react i = (site c b', happenings c es) := by
  have hlocal : (Engine.step host b).Local b := step_local h
  rw [hs] at hlocal
  obtain ⟨hplay, hadmits⟩ := hlocal c
  rcases impulses_cases c b with hi | ⟨i, hd, hi⟩ <;> rw [hi] at hplay hadmits ⊢
  · obtain ⟨hx, hh⟩ := Prod.mk.inj hplay
    exact .inl ⟨rfl, hx.symm, hh.symm⟩
  · rw [Site.play, Site.play, List.append_nil] at hplay
    exact .inr ⟨i, hd, rfl, hadmits i (List.mem_singleton_self i), hplay⟩

theorem site_returned {answer : String} (h : a.Tracked) (hs : step host a = .returned w answer)
    (k : Code κ σ ε) (c : ContextId) : site c ⟨w, [.code k]⟩ = site c a := by
  have hlocal : (Engine.step host a).Local a := step_local h
  rw [hs] at hlocal
  exact hlocal k c

theorem site_panicked (h : a.Tracked) (hs : step host a = .panicked w) (k : Code κ σ ε)
    (c : ContextId) : site c ⟨w, [.code k]⟩ = site c a := by
  have hlocal : (Engine.step host a).Local a := step_local h
  rw [hs] at hlocal
  exact hlocal k c

theorem Reachable.induct_site {motive : Site κ → Prop} (c : ContextId) (new : motive {})
    (step : ∀ x i, x.Tracked → x.Admits i → motive x → motive (x.react i).1)
    (h : Reachable host a log) : motive (site c a) := by
  induction h with
  | start s k => exact new
  | @step b b' log es h hs ih =>
    rcases site_step h.tracked.1 hs c with ⟨-, hx, -⟩ | ⟨i, -, -, hadmits, hr⟩
    · rwa [hx]
    · have hmotive := step (site c b) i (h.tracked.1.contexts c) hadmits ih
      rwa [hr] at hmotive
  | returned h hs k ih => rwa [site_returned h.tracked.1 hs]
  | panicked h hs k ih => rwa [site_panicked h.tracked.1 hs]

/-- What holds of a context at first and is kept by every impulse that the context admits holds of
it whatever the course of things. -/
theorem Course.induct_site {motive : Site κ → List (Impulse κ) → List (Happening κ) → Prop}
    (ha : a.Tracked) (c : ContextId) (start : motive (site c a) [] [])
    (step : ∀ x is hs i, x.Tracked → x.Admits i → motive x is hs →
      motive (x.react i).1 (is ++ [i]) (hs ++ (x.react i).2)) (h : Course host a ds es b) :
    motive (site c b) (share c ds) (happenings c es) := by
  induction h with
  | refl => exact start
  | @step b b' ds es es' hcourse hs ih =>
    rw [share_append, happenings_append]
    show motive _ (_ ++ impulses c b) _
    rcases site_step (hcourse.tracked ha) hs c with ⟨hi, hx, hh⟩ | ⟨i, -, hi, hadmits, hr⟩
    · rw [hi, hx, hh, List.append_nil, List.append_nil]
      exact ih
    · have hmotive := step (site c b) _ _ i ((hcourse.tracked ha).contexts c) hadmits ih
      rwa [hr, ← hi] at hmotive
  | returned hcourse hs k ih => rwa [site_returned (hcourse.tracked ha) hs]
  | panicked hcourse hs k ih => rwa [site_panicked (hcourse.tracked ha) hs]

end Engine

namespace Site

def Admissible (x : Site κ) : List (Impulse κ) → Prop
  | [] => True
  | i :: is => x.Admits i ∧ Admissible (x.react i).1 is

theorem admissible_concat {x : Site κ} {is : List (Impulse κ)} {i : Impulse κ} :
    x.Admissible (is ++ [i]) ↔ x.Admissible is ∧ (x.play is).1.Admits i := by
  induction is generalizing x with
  | nil => simp [Admissible, play]
  | cons j is ih => simp only [List.cons_append, Admissible, play, ih, and_assoc]

end Site

namespace Engine
variable {host : Host κ σ ε} {a b : Config κ σ ε} {ds : List (ContextId × Impulse κ)}
  {es : List (Event κ ε)} {w : World κ σ} {c : ContextId}

/-- A context makes of any course of things what it makes of its own share of the impulses. -/
theorem Course.play_share (ha : a.Tracked) (h : Course host a ds es b) (c : ContextId) :
    (site c a).play (share c ds) = (site c b, happenings c es) ∧
      (site c a).Admissible (share c ds) := by
  refine h.induct_site (motive := fun x is hs =>
    (site c a).play is = (x, hs) ∧ (site c a).Admissible is) ha c ⟨rfl, trivial⟩ ?_
  rintro x is hs i - hi ⟨hplay, hadmissible⟩
  refine ⟨?_, Site.admissible_concat.mpr ⟨hadmissible, ?_⟩⟩
  · rw [Site.play_concat, hplay]
  · rwa [hplay]

theorem step_launch (host : Host κ σ ε) (ha : accepts (w.context c) = true) (s : Sequence κ)
    (k : Code κ σ ε) (rest : List (Activation κ σ ε)) :
    ∃ a, step host ⟨w, .code (.launch c s k) :: rest⟩ =
        .more a [.launched c (w.started + 1), .posted c .next false] ∧
      site c a = ⟨{ fresh ({} : Context κ) s (w.started + 1) with
        queue := ({} : SignalQueue).push .next false
        driving := true }, some .poll⟩ := by
  refine ⟨_, by simp only [step, request, launch, ha, if_true]; rfl, ?_⟩
  rw [site_setContext_self, stage?_driver_self]
  rfl

end Engine
end Sequencer
