/-! Finite maps kept as rows. A key has at most one row: `insert` overwrites the row of a
key that is already there, so looking up what was just written finds it and no other key is
disturbed (`get?_insert`). -/

namespace Sequencer

/-- Key and value pairs in the order in which the keys were first written. -/
structure Table (α β : Type) where
  rows : List (α × β) := []
deriving Repr

namespace Table
variable {α β : Type} [DecidableEq α]

def find (k : α) : List (α × β) → Option β
  | [] => none
  | (a, b) :: r => if a = k then some b else find k r

def write (k : α) (v : β) : List (α × β) → List (α × β)
  | [] => [(k, v)]
  | (a, b) :: r => if a = k then (k, v) :: r else (a, b) :: write k v r

def get? (t : Table α β) (k : α) : Option β := find k t.rows

def insert (t : Table α β) (k : α) (v : β) : Table α β := ⟨write k v t.rows⟩

def keys (t : Table α β) : List α := t.rows.map (·.1)

/-- Writes every pair in turn, so that the last of several values for one key stays. -/
def ofList (rows : List (α × β)) : Table α β := rows.foldl (fun t r => t.insert r.1 r.2) {}

theorem find_write (k k' : α) (v : β) (rows : List (α × β)) :
    find k' (write k v rows) = if k = k' then some v else find k' rows := by
  induction rows with
  | nil => simp [write, find]
  | cons r rows ih =>
    obtain ⟨a, b⟩ := r
    by_cases h : a = k
    · subst h
      by_cases h' : a = k' <;> simp [write, find, h']
    · by_cases h' : a = k'
      · have : ¬ k = k' := fun e => h (h'.trans e.symm)
        simp [write, find, h', this, show ¬ k' = k from fun e => this e.symm]
      · simp [write, find, h, h', ih]

theorem write_write (k : α) (v v' : β) (rows : List (α × β)) :
    write k v' (write k v rows) = write k v' rows := by
  induction rows with
  | nil => simp [write]
  | cons r rows ih =>
    obtain ⟨a, b⟩ := r
    by_cases h : a = k
    · simp [write, h]
    · simp [write, h, ih]

@[simp] theorem insert_insert (t : Table α β) (k : α) (v v' : β) :
    (t.insert k v).insert k v' = t.insert k v' := congrArg Table.mk (write_write k v v' t.rows)

theorem get?_insert (t : Table α β) (k k' : α) (v : β) :
    (t.insert k v).get? k' = if k = k' then some v else t.get? k' :=
  find_write k k' v t.rows

@[simp] theorem get?_insert_self (t : Table α β) (k : α) (v : β) :
    (t.insert k v).get? k = some v := by simp [get?_insert]

@[simp] theorem get?_empty (k : α) : (({} : Table α β).get? k) = none := rfl

theorem map_fst_write (k : α) (v : β) (rows : List (α × β)) :
    (write k v rows).map (·.1) =
      if k ∈ rows.map (·.1) then rows.map (·.1) else rows.map (·.1) ++ [k] := by
  induction rows with
  | nil => simp [write]
  | cons r rows ih =>
    obtain ⟨a, b⟩ := r
    by_cases h : a = k
    · simp [write, h]
    · have h' : ¬ k = a := fun e => h e.symm
      by_cases hm : k ∈ rows.map (·.1)
      · simp only [write, h, if_false, List.map_cons, ih, hm, if_true, List.mem_cons, or_true]
      · simp only [write, h, if_false, List.map_cons, ih, hm, if_false, List.mem_cons, h',
          or_self, List.cons_append]

theorem keys_insert (t : Table α β) (k : α) (v : β) :
    (t.insert k v).keys = if k ∈ t.keys then t.keys else t.keys ++ [k] :=
  map_fst_write k v t.rows

theorem nodup_keys_insert {t : Table α β} (h : t.keys.Nodup) (k : α) (v : β) :
    (t.insert k v).keys.Nodup := by
  rw [keys_insert]
  split
  · exact h
  next hk =>
    refine List.nodup_append.mpr ⟨h, by simp, fun a ha b hb hab => hk ?_⟩
    obtain rfl := List.mem_singleton.mp hb
    exact hab ▸ ha

theorem mem_keys_iff {t : Table α β} {k : α} : k ∈ t.keys ↔ ∃ v, t.get? k = some v := by
  obtain ⟨rows⟩ := t
  unfold keys get?
  induction rows with
  | nil => simp [find]
  | cons r rows ih =>
    obtain ⟨a, b⟩ := r
    by_cases h : a = k
    · simp [find, h]
    · have h' : ¬ k = a := fun e => h e.symm
      rw [List.map_cons, List.mem_cons, ih]
      simp [find, h, h']

/-- With one row for each key, a row is what looking up its key finds. -/
theorem mem_rows_iff {t : Table α β} (h : t.keys.Nodup) {k : α} {v : β} :
    (k, v) ∈ t.rows ↔ t.get? k = some v := by
  obtain ⟨rows⟩ := t
  unfold keys at h
  unfold get?
  induction rows with
  | nil => simp [find]
  | cons r rows ih =>
    obtain ⟨a, b⟩ := r
    obtain ⟨hfresh, hrest⟩ := List.nodup_cons.mp h
    rw [List.mem_cons, ih hrest]
    by_cases hk : a = k
    · subst hk
      have hnone : find a rows ≠ some v := fun hv =>
        hfresh (mem_keys_iff.mpr ⟨v, hv⟩ : a ∈ (⟨rows⟩ : Table α β).keys)
      simp [find, hnone, eq_comm]
    · have hk' : ¬ k = a := fun e => hk e.symm
      simp [find, hk, hk']

end Table
end Sequencer
