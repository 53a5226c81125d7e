import Mathlib.Data.List.Nodup
import Mathlib.Data.List.Pairwise
import Mathlib.Data.List.Sort

/-!
# Tables with a primary key

A table is a list of rows no two of which have the same key.  The key
constraint is carried by the type, so every statement that writes to a table
keeps it and no later proof has to establish it again.

The write statements are the ones an SQL engine offers for a keyed table:
`INSERT OR IGNORE` keeps the row already there, `INSERT OR REPLACE` drops it,
a plain `INSERT` fails on it, `UPDATE` changes the rows of a condition outside of
their keys, and `DELETE` removes the rows of a condition.
`orderBy` is `ORDER BY` on an integer column; rows that tie keep the order of
the table.
-/

namespace MoltMesh.Lib

universe u v

/-- Rows of type `ρ` with distinct primary keys `key r`. -/
structure Table (ρ : Type u) {κ : Type v} (key : ρ → κ) where
  /-- The rows, oldest first. -/
  rows : List ρ
  /-- The primary key constraint. -/
  nodup : (rows.map key).Nodup

namespace Table

variable {ρ : Type u} {κ : Type v} {key : ρ → κ}

/-- The table without rows. -/
def empty : Table ρ key := ⟨[], List.nodup_nil⟩

/-- `DELETE ... WHERE p`. -/
def deleteWhere (t : Table ρ key) (p : ρ → Bool) : Table ρ key :=
  ⟨t.rows.filter (fun r => !p r), (List.filter_sublist.map key).nodup t.nodup⟩

/-- `UPDATE ... SET f WHERE p`, with an `f` that leaves the key as it is. -/
def updateWhere (t : Table ρ key) (p : ρ → Bool) (f : ρ → ρ) (hf : ∀ r, key (f r) = key r) : Table ρ key :=
  ⟨t.rows.map fun r => if p r then f r else r, by
    have hkeys : (key ∘ fun r => if p r then f r else r) = key := by
      funext r
      rw [Function.comp_apply]
      split
      · exact hf r
      · rfl
    rw [List.map_map, hkeys]
    exact t.nodup⟩

/-- `SELECT ... WHERE p`. -/
def select (t : Table ρ key) (p : ρ → Bool) : List ρ := t.rows.filter p

@[simp] theorem rows_empty : (empty : Table ρ key).rows = [] := rfl

variable {t : Table ρ key} {r s : ρ} {p : ρ → Bool} {k : κ}

/-- Two rows of one table with the same key are the same row. -/
theorem eq_of_key_eq (hr : r ∈ t.rows) (hs : s ∈ t.rows)
    (h : key r = key s) : r = s := List.inj_on_of_nodup_map t.nodup hr hs h

@[simp] theorem mem_deleteWhere : s ∈ (t.deleteWhere p).rows ↔ s ∈ t.rows ∧ p s = false := by
  simp [deleteWhere]

@[simp] theorem mem_select : s ∈ t.select p ↔ s ∈ t.rows ∧ p s = true := by
  simp [select]

/-- The rows a query returns have distinct keys. -/
theorem nodup_map_select (t : Table ρ key) (p : ρ → Bool) : ((t.select p).map key).Nodup :=
  (List.filter_sublist.map key).nodup t.nodup

variable [DecidableEq κ]

/-- `INSERT OR IGNORE`. -/
def insertOrIgnore (t : Table ρ key) (r : ρ) : Table ρ key :=
  if h : key r ∈ t.rows.map key then t
  else ⟨t.rows ++ [r], by
    rw [List.map_append, List.map_singleton]
    exact t.nodup.append (List.nodup_singleton _) (List.disjoint_singleton.mpr h)⟩

/-- `INSERT OR REPLACE`: the row that has the key of `r`, if any, goes. -/
def insertOrReplace (t : Table ρ key) (r : ρ) : Table ρ key :=
  ⟨(t.deleteWhere (fun s => key s = key r)).rows ++ [r], by
    rw [List.map_append, List.map_singleton]
    refine (t.deleteWhere _).nodup.append (List.nodup_singleton _) (List.disjoint_singleton.mpr ?_)
    simp [deleteWhere]⟩

/-- A plain `INSERT`, which fails when the key is taken. -/
def insert (t : Table ρ key) (r : ρ) : Option (Table ρ key) :=
  if key r ∈ t.rows.map key then none else some (t.insertOrIgnore r)

/-- The row with key `k`. -/
def lookup (t : Table ρ key) (k : κ) : Option ρ := t.rows.find? (fun r => key r = k)

/-! ## What the statements do -/

theorem mem_insertOrIgnore :
    s ∈ (t.insertOrIgnore r).rows ↔ s ∈ t.rows ∨ (s = r ∧ key r ∉ t.rows.map key) := by
  unfold insertOrIgnore
  split
  · rename_i h
    exact ⟨Or.inl, fun hs => hs.elim id fun hs => absurd h hs.2⟩
  · rename_i h
    simp only [List.mem_append, List.mem_singleton]
    exact or_congr_right ⟨fun hs => ⟨hs, h⟩, And.left⟩

@[simp] theorem mem_insertOrReplace :
    s ∈ (t.insertOrReplace r).rows ↔ (s ∈ t.rows ∧ key s ≠ key r) ∨ s = r := by
  simp [insertOrReplace]

/-- A key finds a row exactly when the row is in the table under that key. -/
theorem lookup_eq_some : t.lookup k = some r ↔ r ∈ t.rows ∧ key r = k := by
  refine ⟨fun h => ⟨List.mem_of_find?_eq_some h, of_decide_eq_true (List.find?_some h :)⟩, ?_⟩
  rintro ⟨hr, hk⟩
  cases hf : t.lookup k with
  | none => exact absurd (decide_eq_true hk) (List.find?_eq_none.mp hf r hr)
  | some s =>
    have hs : key s = k := of_decide_eq_true (List.find?_some hf :)
    rw [eq_of_key_eq (List.mem_of_find?_eq_some hf) hr (hs.trans hk.symm)]

theorem lookup_eq_none : t.lookup k = none ↔ ∀ r ∈ t.rows, key r ≠ k := by
  simp [lookup, List.find?_eq_none]

@[simp] theorem lookup_insertOrReplace_self (t : Table ρ key) (r : ρ) :
    (t.insertOrReplace r).lookup (key r) = some r :=
  lookup_eq_some.mpr ⟨mem_insertOrReplace.mpr (Or.inr rfl), rfl⟩

theorem lookup_insertOrReplace_of_ne (h : k ≠ key r) :
    (t.insertOrReplace r).lookup k = t.lookup k := by
  ext s
  simp only [lookup_eq_some, mem_insertOrReplace]
  constructor
  · rintro ⟨⟨hs, -⟩ | rfl, hk⟩
    · exact ⟨hs, hk⟩
    · exact absurd hk.symm h
  · rintro ⟨hs, rfl⟩
    exact ⟨Or.inl ⟨hs, h⟩, rfl⟩

theorem lookup_deleteWhere (t : Table ρ key) (p : ρ → Bool) (k : κ) :
    (t.deleteWhere p).lookup k = (t.lookup k).filter fun r => !p r := by
  ext s
  simp only [lookup_eq_some, mem_deleteWhere, Option.filter_eq_some_iff, Bool.not_eq_true']
  tauto

/-- `UPDATE` changes the row under a key, if it meets the condition. -/
theorem lookup_updateWhere (t : Table ρ key) (p : ρ → Bool) (f : ρ → ρ) (hf : ∀ r, key (f r) = key r) (k : κ) :
    (t.updateWhere p f hf).lookup k = (t.lookup k).map fun r => if p r then f r else r := by
  have hkey (r : ρ) : key (if p r then f r else r) = key r := by
    split
    · exact hf r
    · rfl
  change (t.rows.map _).find? _ = _
  rw [List.find?_map]
  congr 2
  funext r
  rw [Function.comp_apply, hkey]

/-- `INSERT OR IGNORE` is seen at a free key only. -/
theorem lookup_insertOrIgnore (t : Table ρ key) (r : ρ) (k : κ) :
    (t.insertOrIgnore r).lookup k = (t.lookup k).or (if key r = k then some r else none) := by
  unfold insertOrIgnore lookup
  split
  · rename_i htaken
    obtain ⟨s, hs, hkey⟩ := List.mem_map.mp htaken
    split
    · rename_i hk
      have hsome : (t.rows.find? fun r => key r = k).isSome := by
        rw [List.find?_isSome]
        exact ⟨s, hs, decide_eq_true (hkey.trans hk)⟩
      rw [Option.or_of_isSome hsome]
    · rw [Option.or_none]
  · rw [List.find?_append, List.find?_singleton]
    simp only [decide_eq_true_eq]

/-- A row that is there is replaced by itself. -/
theorem mem_insertOrReplace_of_mem (h : r ∈ t.rows) :
    s ∈ (t.insertOrReplace r).rows ↔ s ∈ t.rows := by
  rw [mem_insertOrReplace]
  constructor
  · rintro (⟨hs, -⟩ | rfl)
    · exact hs
    · exact h
  · intro hs
    by_cases hkey : key s = key r
    · exact .inr (eq_of_key_eq hs h hkey)
    · exact .inl ⟨hs, hkey⟩

theorem insert_eq_none : t.insert r = none ↔ key r ∈ t.rows.map key := by
  simp [insert]

/-- An `INSERT` that succeeds is seen at its own key. -/
theorem lookup_of_insert {t' : Table ρ key} (h : t.insert r = some t') (k : κ) :
    t'.lookup k = (t.lookup k).or (if key r = k then some r else none) := by
  obtain ⟨-, h⟩ := Option.ite_none_left_eq_some.mp h
  rw [← Option.some.inj h, lookup_insertOrIgnore]

/-- An `INSERT` that succeeds puts its row at the end. -/
theorem rows_of_insert {t' : Table ρ key} (h : t.insert r = some t') : t'.rows = t.rows ++ [r] := by
  obtain ⟨hkey, h⟩ := Option.ite_none_left_eq_some.mp h
  obtain rfl := Option.some.inj h
  rw [insertOrIgnore, dif_neg hkey]

theorem select_of_insert {t' : Table ρ key} (h : t.insert r = some t') (p : ρ → Bool) :
    t'.select p = t.select p ++ if p r then [r] else [] := by
  rw [select, select, rows_of_insert h, List.filter_append, List.filter_singleton]
  cases p r <;> rfl

/-- Rows with different keys, one after another. -/
theorem mem_foldl_insertOrReplace {rs : List ρ} (h : (rs.map key).Nodup) :
    s ∈ (rs.foldl insertOrReplace t).rows ↔ s ∈ rs ∨ s ∈ t.rows ∧ key s ∉ rs.map key := by
  induction rs generalizing t with
  | nil => simp
  | cons r rs ih =>
    obtain ⟨hr, hrs⟩ := List.nodup_cons.mp h
    rw [List.foldl_cons, ih hrs, mem_insertOrReplace, List.map_cons, List.mem_cons, List.mem_cons,
      not_or]
    constructor
    · rintro (hs | ⟨⟨hs, hne⟩ | rfl, hnot⟩)
      · exact .inl (.inr hs)
      · exact .inr ⟨hs, hne, hnot⟩
      · exact .inl (.inl rfl)
    · rintro ((rfl | hs) | ⟨hs, hne, hnot⟩)
      · exact .inr ⟨.inr rfl, hr⟩
      · exact .inl hs
      · exact .inr ⟨.inl ⟨hs, hne⟩, hnot⟩

/-- `INSERT OR REPLACE` of a row whose key is free is an `INSERT`. -/
theorem rows_insertOrReplace_of_free (h : key r ∉ t.rows.map key) :
    (t.insertOrReplace r).rows = t.rows ++ [r] := by
  have hkeep : t.rows.filter (fun s => !decide (key s = key r)) = t.rows := by
    rw [List.filter_eq_self]
    intro s hs
    rw [Bool.not_eq_true', decide_eq_false_iff_not]
    exact fun heq => h (heq ▸ List.mem_map_of_mem hs)
  exact congrArg (· ++ [r]) hkeep

/-- A query does not see the replacement of a row by a row, if it sees neither of them. -/
theorem select_insertOrReplace_of_ne
    (h : ∀ s, key s = key r → p s = false) : (t.insertOrReplace r).select p = t.select p := by
  change ((t.rows.filter fun s => !decide (key s = key r)) ++ [r]).filter p = t.rows.filter p
  have hr : [r].filter p = [] := by
    rw [List.filter_singleton, h r rfl]
    rfl
  rw [List.filter_append, hr, List.append_nil, List.filter_filter]
  refine List.filter_congr fun s _ => ?_
  cases hs : p s with
  | false => rfl
  | true =>
    rw [Bool.true_and, Bool.not_eq_true', decide_eq_false_iff_not]
    intro heq
    rw [h s heq] at hs
    cases hs

/-- A query does not see an `INSERT OR IGNORE` of a row it does not select. -/
theorem select_insertOrIgnore_of_false (h : p r = false) :
    (t.insertOrIgnore r).select p = t.select p := by
  unfold insertOrIgnore
  split
  · rfl
  · rw [select, List.filter_append, List.filter_singleton, h]
    exact List.append_nil _

end Table

/-! ## Sorting -/

section OrderBy

variable {ρ : Type u} (f : ρ → Int)

/-- `ORDER BY f`. -/
def orderBy (l : List ρ) : List ρ := l.insertionSort (fun a b => f a ≤ f b)

theorem perm_orderBy (l : List ρ) : (orderBy f l).Perm l := List.perm_insertionSort _ l

@[simp] theorem mem_orderBy {l : List ρ} {r : ρ} : r ∈ orderBy f l ↔ r ∈ l :=
  (perm_orderBy f l).mem_iff

theorem pairwise_le_orderBy (l : List ρ) : (orderBy f l).Pairwise fun a b => f a ≤ f b := by
  have : Std.Total fun a b : ρ => f a ≤ f b := ⟨fun a b => Int.le_total (f a) (f b)⟩
  have : IsTrans ρ fun a b : ρ => f a ≤ f b := ⟨fun _ _ _ => Int.le_trans⟩
  exact List.pairwise_insertionSort _ l

/-- Rows without ties come in strict order. -/
theorem pairwise_orderBy {l : List ρ} (h : (l.map f).Nodup) : (orderBy f l).Pairwise fun a b => f a < f b := by
  have hne : (orderBy f l).Pairwise fun a b => f a ≠ f b :=
    List.pairwise_map.mp (((perm_orderBy f l).map f).nodup_iff.mpr h)
  exact (pairwise_le_orderBy f l).imp₂ (fun _ _ hle hlt => lt_of_le_of_ne hle hlt) hne

/-- Rows that are in strict order already are what `ORDER BY` returns for any arrangement of them. -/
theorem orderBy_eq_of_perm {l m : List ρ} (hp : l.Perm m) (hm : m.Pairwise fun a b => f a < f b) :
    orderBy f l = m := by
  refine List.Perm.eq_of_pairwise ?_ (pairwise_le_orderBy f l) (hm.imp Int.le_of_lt) ((perm_orderBy f l).trans hp)
  intro a b ha hb hab hba
  by_contra hne
  have ha' : a ∈ m := hp.mem_iff.mp ((perm_orderBy f l).mem_iff.mp ha)
  have : Std.Symm fun a b : ρ => f a ≠ f b := ⟨fun _ _ => Ne.symm⟩
  exact (hm.imp Int.ne_of_lt).forall ha' hb hne (Int.le_antisymm hab hba)

end OrderBy

end MoltMesh.Lib
