import Mathlib.Data.List.DropRight
import Sequencer.Label

/-! Cleaning a label once is cleaning it for good. Trimming leaves no blank at either end, every
character of a lower-case form is its own lower-case form, and the form of a character is blank only
if the character is, so that lower-casing puts no blank where trimming has taken one away. -/

namespace Sequencer.Text

/-! ### Trimming -/

structure Trimmed (cs : List Char) : Prop where
  head : ∀ c, cs.head? = some c → isBlank c = false
  last : ∀ c, cs.getLast? = some c → isBlank c = false

theorem trimmed_trimList (cs : List Char) : Trimmed (trimList cs) := by
  have htrim : trimList cs = (cs.dropWhile isBlank).rdropWhile isBlank := rfl
  constructor
  · intro c hc
    obtain ⟨ds, hds⟩ := List.rdropWhile_prefix isBlank (cs.dropWhile isBlank)
    rw [← htrim] at hds
    have hhead : (cs.dropWhile isBlank).head? = some c := by
      rw [← hds, List.head?_append, hc, Option.some_or]
    have := List.head?_dropWhile_not isBlank cs
    simpa only [hhead, Bool.not_eq_true'] using this
  · intro c hc
    obtain ⟨ds, hds⟩ := List.getLast?_eq_some_iff.mp hc
    have hne : trimList cs ≠ [] := by simp [hds]
    have := List.rdropWhile_last_not isBlank (cs.dropWhile isBlank) hne
    rw [List.getLast?_eq_some_getLast hne] at hc
    rw [← Option.some.inj hc]
    exact Bool.eq_false_iff.mpr this

theorem trimList_of_trimmed {cs : List Char} (h : Trimmed cs) : trimList cs = cs := by
  have hfront : cs.dropWhile isBlank = cs := by
    rcases cs with - | ⟨c, cs⟩
    · rfl
    · exact List.dropWhile_cons_of_neg (by simp [h.head c rfl])
  have hback : cs.rdropWhile isBlank = cs := by
    refine List.rdropWhile_eq_self_iff.mpr fun hne => ?_
    rw [h.last _ (List.getLast?_eq_some_getLast hne)]
    exact Bool.false_ne_true
  have htrim : trimList cs = (cs.dropWhile isBlank).rdropWhile isBlank := rfl
  rw [htrim, hfront, hback]

theorem trim_of_trimmed {s : String} (h : Trimmed s.toList) : trim s = s := by
  rw [trim, trimList_of_trimmed h, String.ofList_toList]

@[simp] theorem toList_trim (s : String) : (trim s).toList = trimList s.toList :=
  String.toList_ofList

theorem trim_trim (s : String) : trim (trim s) = trim s :=
  trim_of_trimmed (toList_trim s ▸ trimmed_trimList s.toList)

/-! ### The table of lower-case forms -/

/-- The row lies apart from the code points `lo` to `hi`, or between them: with those in steps of
two and its own of the other parity. -/
def CaseRow.misses (lo hi stride : Nat) (r : CaseRow) : Bool :=
  decide (hi < r.first) || decide (r.last < lo) ||
    ((lo == hi || stride == 2) && r.stride == 2 && lo % 2 != r.first % 2)

/-- The blanks, the capital that becomes two characters, and the surrogates. -/
def barredRows : List CaseRow := [
  ⟨0x9, 0xd, 1, 0⟩, ⟨0x20, 0x20, 1, 0⟩, ⟨0x85, 0x85, 1, 0⟩, ⟨0xa0, 0xa0, 1, 0⟩,
  ⟨0x130, 0x130, 1, 0⟩, ⟨0x1680, 0x1680, 1, 0⟩, ⟨0x2000, 0x200a, 1, 0⟩, ⟨0x2028, 0x2029, 1, 0⟩,
  ⟨0x202f, 0x202f, 1, 0⟩, ⟨0x205f, 0x205f, 1, 0⟩, ⟨0x3000, 0x3000, 1, 0⟩, ⟨0xd800, 0xdfff, 1, 0⟩]

/-- Where the row moves its code points to, no row begins anew and no barred one lies. -/
def CaseRow.settled (r : CaseRow) : Bool :=
  let lo := ((r.first : Int) + r.offset).toNat
  let hi := ((r.last : Int) + r.offset).toNat
  decide (0 ≤ (r.first : Int) + r.offset) && decide (hi < 0x110000) &&
    (lowerRows ++ barredRows).all (CaseRow.misses lo hi r.stride)

/-- Checked row against row, with no need to go through the characters one by one. -/
theorem settled_lowerRows : lowerRows.all CaseRow.settled = true := by decide +kernel

theorem CaseRow.covers_iff {r : CaseRow} {n : Nat} :
    r.covers n = true ↔ r.first ≤ n ∧ n ≤ r.last ∧ (n - r.first) % r.stride = 0 := by
  simp only [covers, Bool.and_eq_true, decide_eq_true_eq, and_assoc]

theorem CaseRow.covers_one (first last n : Nat) (offset : Int) :
    CaseRow.covers ⟨first, last, 1, offset⟩ n = (decide (first ≤ n) && decide (n ≤ last)) := by
  simp [covers, Nat.mod_one]

theorem CaseRow.not_covers_of_misses {r : CaseRow} {lo hi stride n : Nat}
    (h : r.misses lo hi stride = true) (hlo : lo ≤ n) (hhi : n ≤ hi) (hn : (n - lo) % stride = 0) :
    r.covers n = false := by
  refine Bool.eq_false_iff.mpr fun hc => ?_
  obtain ⟨hfirst, hlast, hstep⟩ := covers_iff.mp hc
  simp only [misses, Bool.or_eq_true, Bool.and_eq_true, decide_eq_true_eq, beq_iff_eq,
    bne_iff_ne] at h
  rcases h with (h | h) | ⟨⟨h | h, hstride⟩, hparity⟩
  · omega
  · omega
  · rw [hstride] at hstep
    omega
  · rw [h] at hn
    rw [hstride] at hstep
    omega

theorem CaseRow.image {r : CaseRow} (hr : r ∈ lowerRows) {n : Nat} (hn : r.covers n = true) :
    ((n : Int) + r.offset).toNat < 0x110000 ∧
      ∀ r' ∈ lowerRows ++ barredRows, r'.covers ((n : Int) + r.offset).toNat = false := by
  obtain ⟨hfirst, hlast, hstep⟩ := covers_iff.mp hn
  have hsettled : r.settled = true := List.all_eq_true.mp settled_lowerRows r hr
  simp only [settled, Bool.and_eq_true, decide_eq_true_eq, List.all_eq_true] at hsettled
  obtain ⟨⟨hpos, hbound⟩, hmisses⟩ := hsettled
  refine ⟨by omega, fun r' hr' => ?_⟩
  refine not_covers_of_misses (hmisses r' hr') (by omega) (by omega) ?_
  have hsame : ((n : Int) + r.offset).toNat - ((r.first : Int) + r.offset).toNat = n - r.first := by
    omega
  rw [hsame, hstep]

theorem mem_of_lowerRow? {n : Nat} {r : CaseRow} {rows : List CaseRow}
    (h : lowerRow? n rows = some r) : r ∈ rows ∧ r.covers n = true := by
  induction rows with
  | nil => exact absurd h (by simp [lowerRow?])
  | cons r' rows ih =>
    rw [lowerRow?] at h
    split at h
    next hc =>
      obtain rfl := Option.some.inj h
      exact ⟨List.mem_cons_self .., hc⟩
    next => exact ⟨List.mem_cons_of_mem _ (ih h).1, (ih h).2⟩

theorem lowerRow?_eq_none {n : Nat} {rows : List CaseRow} (h : ∀ r ∈ rows, r.covers n = false) :
    lowerRow? n rows = none := by
  induction rows with
  | nil => rfl
  | cons r rows ih =>
    rw [lowerRow?, if_neg (by simp [h r (List.mem_cons_self ..)])]
    exact ih fun r' hr' => h r' (List.mem_cons_of_mem _ hr')

theorem isBlank_of_not_covers {c : Char} (h : ∀ r ∈ barredRows, r.covers c.toNat = false) :
    isBlank c = false := by
  simp only [barredRows, List.forall_mem_cons, CaseRow.covers_one, Bool.and_eq_false_iff,
    decide_eq_false_iff_not] at h
  refine Bool.eq_false_iff.mpr fun hblank => ?_
  simp only [isBlank, Bool.or_eq_true, Bool.and_eq_true, decide_eq_true_eq, beq_iff_eq] at hblank
  omega

/-! ### Lower case -/

/-- The character is its own lower-case form, wherever it stands. -/
structure Lowered (c : Char) : Prop where
  ne_sigma : c ≠ '\u03a3'
  form : lowerChar c = [c]

theorem lowered_of_not_covers {c : Char}
    (h : ∀ r ∈ lowerRows ++ barredRows, r.covers c.toNat = false) :
    Lowered c := by
  have hsigma : c ≠ '\u03a3' := by
    rintro rfl
    exact absurd (h ⟨0x3a3, 0x3ab, 1, 32⟩ (by decide)) (by decide)
  have hdotted : c ≠ '\u0130' := by
    rintro rfl
    exact absurd (h ⟨0x130, 0x130, 1, 0⟩ (by decide)) (by decide)
  have hrow : lowerRow? c.toNat lowerRows = none :=
    lowerRow?_eq_none fun r hr => h r (List.mem_append_left _ hr)
  exact ⟨hsigma, by rw [lowerChar, if_neg hdotted, hrow]⟩

/-- What a character contributes to a lower-case form is settled, and blank only if the character
is. -/
def Forms (c d : Char) : Prop := Lowered d ∧ (isBlank d = true → isBlank c = true)

theorem toNat_ofNat_image {r : CaseRow} (hr : r ∈ lowerRows) {n : Nat} (hn : r.covers n = true) :
    (Char.ofNat ((n : Int) + r.offset).toNat).toNat = ((n : Int) + r.offset).toNat := by
  obtain ⟨hbound, hmisses⟩ := CaseRow.image hr hn
  have hsurrogate := hmisses ⟨0xd800, 0xdfff, 1, 0⟩ (List.mem_append_right _ (by decide))
  rw [CaseRow.covers_one, Bool.and_eq_false_iff, decide_eq_false_iff_not,
    decide_eq_false_iff_not] at hsurrogate
  have hvalid : ((n : Int) + r.offset).toNat.isValidChar := by
    unfold Nat.isValidChar
    omega
  rw [Char.ofNat, dif_pos hvalid]
  rfl

theorem forms_of_mem_lowerChar {c d : Char} (h : d ∈ lowerChar c) : Forms c d := by
  unfold lowerChar at h
  split at h
  next =>
    rcases List.mem_pair.mp h with rfl | rfl
    · exact ⟨⟨by decide, by rfl⟩, fun hd => absurd hd (by decide)⟩
    · exact ⟨⟨by decide, by rfl⟩, fun hd => absurd hd (by decide)⟩
  next hdotted =>
    split at h
    next r hrow =>
      obtain rfl := List.mem_singleton.mp h
      obtain ⟨hr, hn⟩ := mem_of_lowerRow? hrow
      have hmisses := (CaseRow.image hr hn).2
      rw [← toNat_ofNat_image hr hn] at hmisses
      have hblank := isBlank_of_not_covers fun r' hr' => hmisses r' (List.mem_append_right _ hr')
      exact ⟨lowered_of_not_covers hmisses, by simp [hblank]⟩
    next hrow =>
      obtain rfl := List.mem_singleton.mp h
      refine ⟨⟨?_, ?_⟩, id⟩
      · rintro rfl
        exact absurd hrow (by decide)
      · rw [lowerChar, if_neg hdotted, hrow]

theorem lowerChar_ne_nil (c : Char) : lowerChar c ≠ [] := by
  unfold lowerChar
  repeat' split
  all_goals exact List.cons_ne_nil _ _

theorem lowerFrom_cons (before : List Char) (c : Char) (cs : List Char) :
    ∃ ds, ds ≠ [] ∧ (∀ d ∈ ds, Forms c d) ∧
      lowerFrom before (c :: cs) = ds ++ lowerFrom (c :: before) cs := by
  refine ⟨_, ?_, ?_, rfl⟩
  · split
    · exact List.cons_ne_nil _ _
    · exact lowerChar_ne_nil c
  · intro d hd
    split at hd
    · have hform : Forms c '\u03c2' ∧ Forms c '\u03c3' :=
        ⟨⟨⟨by decide, by rfl⟩, fun h => absurd h (by decide)⟩,
          ⟨⟨by decide, by rfl⟩, fun h => absurd h (by decide)⟩⟩
      obtain rfl := List.mem_singleton.mp hd
      split
      · exact hform.1
      · exact hform.2
    · exact forms_of_mem_lowerChar hd

theorem lowered_of_mem_lowerFrom {before cs : List Char} {d : Char} (h : d ∈ lowerFrom before cs) :
    Lowered d := by
  induction cs generalizing before with
  | nil => exact absurd h List.not_mem_nil
  | cons c cs ih =>
    obtain ⟨ds, -, hds, heq⟩ := lowerFrom_cons before c cs
    rcases List.mem_append.mp (heq ▸ h) with h | h
    · exact (hds d h).1
    · exact ih h

theorem lowerFrom_of_lowered {before cs : List Char} (h : ∀ c ∈ cs, Lowered c) :
    lowerFrom before cs = cs := by
  induction cs generalizing before with
  | nil => rfl
  | cons c cs ih =>
    have hc := h c (List.mem_cons_self ..)
    rw [lowerFrom, if_neg hc.ne_sigma, hc.form, ih fun d hd => h d (List.mem_cons_of_mem _ hd)]
    rfl

theorem lowerList_lowerList (cs : List Char) : lowerList (lowerList cs) = lowerList cs :=
  lowerFrom_of_lowered fun _ hc => lowered_of_mem_lowerFrom hc

theorem lower_lower (s : String) : lower (lower s) = lower s := by
  simp only [lower, String.toList_ofList, lowerList_lowerList]

theorem lowerFrom_ne_nil {before cs : List Char} (h : cs ≠ []) : lowerFrom before cs ≠ [] := by
  obtain ⟨c, cs, rfl⟩ := List.exists_cons_of_ne_nil h
  obtain ⟨ds, hne, -, heq⟩ := lowerFrom_cons before c cs
  rw [heq]
  exact List.append_ne_nil_of_left_ne_nil hne _

theorem Forms.not_blank {c d : Char} (h : Forms c d) (hc : isBlank c = false) : isBlank d = false :=
  Bool.eq_false_iff.mpr fun hd => Bool.eq_false_iff.mp hc (h.2 hd)

theorem last_lowerFrom {before cs : List Char} (h : ∀ c, cs.getLast? = some c → isBlank c = false)
    {d : Char} (hd : (lowerFrom before cs).getLast? = some d) : isBlank d = false := by
  induction cs generalizing before with
  | nil => exact absurd hd (by simp [lowerFrom])
  | cons c cs ih =>
    obtain ⟨ds, -, hds, heq⟩ := lowerFrom_cons before c cs
    rw [heq, List.getLast?_append] at hd
    by_cases hcs : cs = []
    · subst hcs
      have hmem : d ∈ ds := List.mem_of_getLast? (by simpa [lowerFrom] using hd)
      exact (hds d hmem).not_blank (h c rfl)
    · have hne : lowerFrom (c :: before) cs ≠ [] := lowerFrom_ne_nil hcs
      rw [List.getLast?_eq_some_getLast hne, Option.some_or] at hd
      refine ih (fun e he => h e ?_) ((List.getLast?_eq_some_getLast hne).trans hd)
      rwa [List.getLast?_cons_of_ne_nil hcs]

theorem Trimmed.lowerList {cs : List Char} (h : Trimmed cs) : Trimmed (lowerList cs) := by
  refine ⟨fun d hd => ?_, fun d hd => last_lowerFrom h.last hd⟩
  rcases cs with - | ⟨c, cs⟩
  · exact absurd hd (by simp [Text.lowerList, lowerFrom])
  · obtain ⟨ds, hne, hds, heq⟩ := lowerFrom_cons [] c cs
    rw [Text.lowerList, heq, List.head?_append, List.head?_eq_some_head hne, Option.some_or] at hd
    have hmem : d ∈ ds := Option.some.inj hd ▸ List.head_mem hne
    exact (hds d hmem).not_blank (h.head c rfl)

end Sequencer.Text

namespace Sequencer.Label

/-- What cleaning makes of a text: not empty, without blanks at the ends, and in lower case. -/
structure Clean (label : String) : Prop where
  result : ∃ text, clean text = some label
  nonempty : label ≠ ""
  trimmed : Text.trim label = label
  lowered : Text.lower label = label

theorem clean_eq (text : String) :
    clean text = if Text.trim text = "" then none else some (Text.lower (Text.trim text)) := by
  unfold clean Text.trim
  cases Text.trimList text.toList with
  | nil => rfl
  | cons c cs =>
    rw [if_neg (by simp [String.ofList_eq_empty_iff]), Text.lower, String.toList_ofList]

theorem clean_of_clean {text label : String} (h : clean text = some label) : Clean label := by
  have hresult : ∃ text, clean text = some label := ⟨text, h⟩
  rw [clean_eq] at h
  split at h
  next => exact absurd h (by simp)
  next hne =>
    obtain rfl := Option.some.inj h
    have htrimmed : Text.Trimmed (Text.lower (Text.trim text)).toList := by
      rw [Text.lower, String.toList_ofList, Text.toList_trim]
      exact (Text.trimmed_trimList text.toList).lowerList
    refine ⟨hresult, ?_, Text.trim_of_trimmed htrimmed, Text.lower_lower _⟩
    have hform : Text.lowerList (Text.trim text).toList ≠ [] :=
      Text.lowerFrom_ne_nil (mt String.toList_eq_nil_iff.mp hne)
    simpa [Text.lower] using hform

theorem Clean.clean_eq_some {label : String} (h : Clean label) : clean label = some label := by
  rw [clean_eq, h.trimmed, if_neg h.nonempty, h.lowered]

end Sequencer.Label
