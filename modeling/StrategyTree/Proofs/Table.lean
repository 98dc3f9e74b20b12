import StrategyTree.Table
/-!
# Look-ups in tables

What each operation on a table does to its look-ups.
-/
namespace StrategyTree

namespace Table

variable {β γ : Type}

theorem lookup_eq_none_of_lt {key : String} {xs : List (String × β)}
    (h : ∀ e ∈ xs, key < e.1) : xs.lookup key = none := by
  refine List.lookup_eq_none_iff.2 fun e he => ?_
  have hne : key ≠ e.1 := fun heq => String.lt_irrefl _ (heq ▸ h e he)
  simpa using hne

theorem lookup_cons_self {k : String} {v : β} {xs : List (String × β)} :
    ((k, v) :: xs).lookup k = some v := by
  simp

theorem lookup_cons_ne {k k' : String} {v : β} {xs : List (String × β)} (h : k ≠ k') :
    ((k', v) :: xs).lookup k = xs.lookup k := by
  have hb : (k == k') = false := by simpa using h
  simp [List.lookup_cons, hb]

theorem lookup_alterEntries (key : String) (f : Option β → β) (k : String)
    {xs : List (String × β)} (h : xs.Pairwise fun a b => a.1 < b.1) :
    (alterEntries key f xs).lookup k =
      if k = key then some (f (xs.lookup key)) else xs.lookup k := by
  induction xs with
  | nil =>
      by_cases hk : k = key
      · subst hk
        simp [alterEntries]
      · simp [alterEntries, lookup_cons_ne hk, hk]
  | cons x rest ih =>
      obtain ⟨k', v'⟩ := x
      obtain ⟨hx, hr⟩ := List.pairwise_cons.1 h
      simp only [alterEntries]
      split
      · next hlt =>
          have habsent : ((k', v') :: rest).lookup key = none := by
            refine lookup_eq_none_of_lt fun e he => ?_
            rcases List.mem_cons.1 he with rfl | he
            · exact hlt
            · exact String.lt_trans hlt (hx e he)
          rw [habsent]
          by_cases hk : k = key
          · rw [if_pos hk, hk, lookup_cons_self]
          · rw [if_neg hk, lookup_cons_ne hk]
      · next hnot =>
          split
          · next hlt =>
              have hne : key ≠ k' := fun heq => String.lt_irrefl _ (heq ▸ hlt)
              rw [lookup_cons_ne hne]
              by_cases hk : k = k'
              · subst hk
                rw [lookup_cons_self, lookup_cons_self, if_neg hne.symm]
              · rw [lookup_cons_ne hk, lookup_cons_ne hk, ih hr]
          · next hnot' =>
              obtain rfl : key = k' :=
                String.le_antisymm (String.not_lt.1 hnot') (String.not_lt.1 hnot)
              by_cases hk : k = key
              · rw [if_pos hk, hk, lookup_cons_self, lookup_cons_self]
              · rw [if_neg hk, lookup_cons_ne hk, lookup_cons_ne hk]

@[simp] theorem get?_empty (k : String) : (empty : Table β).get? k = none := rfl

theorem get?_alter (t : Table β) (key : String) (f : Option β → β) (k : String) :
    (t.alter key f).get? k = if k = key then some (f (t.get? key)) else t.get? k :=
  lookup_alterEntries key f k t.ascending

theorem get?_insert (t : Table β) (key : String) (value : β) (k : String) :
    (t.insert key value).get? k = if k = key then some value else t.get? k :=
  t.get?_alter key _ k

@[simp] theorem get?_insert_self {t : Table β} {key : String} {value : β} :
    (t.insert key value).get? key = some value := by
  rw [get?_insert, if_pos rfl]

/-- An entry that is added under a new key leaves the others. -/
theorem get?_insert_new {t : Table β} {key k : String} {value old : β}
    (hnew : t.get? key = none) (hold : t.get? k = some old) :
    (t.insert key value).get? k = some old := by
  rw [get?_insert, if_neg]
  · exact hold
  · rintro rfl
    rw [hnew] at hold
    cases hold

theorem lookup_map_entries (f : String → β → γ) (k : String) (xs : List (String × β)) :
    (xs.map fun e => (e.1, f e.1 e.2)).lookup k = (xs.lookup k).map (f k) := by
  induction xs with
  | nil => rfl
  | cons e rest ih =>
      obtain ⟨k', v'⟩ := e
      rw [List.map_cons]
      by_cases hk : k = k'
      · subst hk
        rw [lookup_cons_self, lookup_cons_self]
        rfl
      · rw [lookup_cons_ne hk, lookup_cons_ne hk, ih]

/-- Where each key has a value of its own, the first entry of a key is like the others. -/
theorem lookup_map_keys (f : String → β) (k : String) (keys : List String) :
    (keys.map fun key => (key, f key)).lookup k = if k ∈ keys then some (f k) else none := by
  induction keys with
  | nil => rfl
  | cons key rest ih =>
      rw [List.map_cons]
      by_cases hk : k = key
      · subst hk
        rw [lookup_cons_self, if_pos List.mem_cons_self]
      · rw [lookup_cons_ne hk, ih]
        simp [hk]

/-- Entries that are dropped for their keys are not found. -/
theorem lookup_filter (p : String → Bool) (k : String) (xs : List (String × β)) :
    (xs.filter fun e => p e.1).lookup k = if p k then xs.lookup k else none := by
  induction xs with
  | nil => simp
  | cons e rest ih =>
      obtain ⟨k', v'⟩ := e
      rw [List.filter_cons]
      by_cases hk : k = k'
      · subst hk
        split
        · rw [lookup_cons_self, lookup_cons_self]
        · next hp => rw [ih, if_neg hp]
      · rw [lookup_cons_ne hk, ← ih]
        split
        · rw [lookup_cons_ne hk]
        · rfl

/-- The entries whose keys have a property. -/
def filterKeys (p : String → Bool) (t : Table β) : Table β :=
  ⟨t.entries.filter fun e => p e.1, t.ascending.filter _⟩

theorem get?_filterKeys (p : String → Bool) (t : Table β) (k : String) :
    (t.filterKeys p).get? k = if p k = true then t.get? k else none :=
  lookup_filter p k t.entries

@[simp] theorem get?_map (t : Table β) (f : String → β → γ) (k : String) :
    (t.map f).get? k = (t.get? k).map (f k) :=
  lookup_map_entries f k t.entries

theorem map_self (t : Table β) : (t.map fun _ value => value) = t :=
  Table.ext (List.map_id _)

@[simp] theorem keys_map (t : Table β) (f : String → β → γ) : (t.map f).keys = t.keys := by
  simp [keys, map]

theorem lookup_eq_some_iff_mem {k : String} {v : β} {xs : List (String × β)}
    (h : xs.Pairwise fun a b => a.1 < b.1) : xs.lookup k = some v ↔ (k, v) ∈ xs := by
  induction xs with
  | nil => simp
  | cons e rest ih =>
      obtain ⟨k', v'⟩ := e
      obtain ⟨he, hr⟩ := List.pairwise_cons.1 h
      by_cases hk : k = k'
      · subst hk
        have habsent : (k, v) ∉ rest := fun hm : (k, v) ∈ rest => String.lt_irrefl _ (he (k, v) hm)
        rw [lookup_cons_self]
        simp [habsent, eq_comm]
      · rw [lookup_cons_ne hk, ih hr]
        simp [hk]

/-- An entry is found under its key. -/
theorem get?_eq_some_iff {t : Table β} {k : String} {v : β} :
    t.get? k = some v ↔ (k, v) ∈ t.entries :=
  lookup_eq_some_iff_mem t.ascending

theorem nodup_keys (t : Table β) : t.keys.Nodup := by
  refine List.pairwise_map.2 (t.ascending.imp ?_)
  intro a b hlt heq
  exact String.lt_irrefl b.1 (heq ▸ hlt)

/-- A table is determined by its look-ups. -/
theorem ext_get? {s t : Table β} (h : ∀ k, s.get? k = t.get? k) : s = t := by
  have hentries : ∀ e : String × β, e ∈ s.entries ↔ e ∈ t.entries := by
    intro e
    rw [← get?_eq_some_iff, ← get?_eq_some_iff, h]
  have hdistinct (u : Table β) : u.entries.Nodup :=
    (List.pairwise_map.1 u.nodup_keys).imp fun hne heq => hne (congrArg Prod.fst heq)
  have hperm : s.entries.Perm t.entries :=
    (List.perm_ext_iff_of_nodup (hdistinct s) (hdistinct t)).2 hentries
  have hasymm (a b : String × β) (hab : a.1 < b.1) (hba : b.1 < a.1) : a = b :=
    absurd (String.lt_trans hab hba) (String.lt_irrefl _)
  exact Table.ext (hperm.eq_of_pairwise (fun a b _ _ => hasymm a b) s.ascending t.ascending)

theorem mem_keys_iff {t : Table β} {k : String} : k ∈ t.keys ↔ ∃ v, t.get? k = some v := by
  simp [keys, get?_eq_some_iff]

theorem get?_eq_none_iff {t : Table β} {k : String} : t.get? k = none ↔ k ∉ t.keys := by
  rw [mem_keys_iff, Option.eq_none_iff_forall_ne_some, not_exists]

theorem contains_iff {t : Table β} {k : String} : t.contains k = true ↔ k ∈ t.keys := by
  rw [contains, Option.isSome_iff_exists, mem_keys_iff]

@[simp] theorem mem_keys_alter {t : Table β} {key k : String} {f : Option β → β} :
    k ∈ (t.alter key f).keys ↔ k = key ∨ k ∈ t.keys := by
  rw [mem_keys_iff, mem_keys_iff, get?_alter]
  split
  · next h => simp [h]
  · next h => simp [h]

theorem alterEntries_map (key : String) (value : β) (f : String → β → γ)
    (xs : List (String × β)) :
    alterEntries key (fun _ => f key value) (xs.map fun e => (e.1, f e.1 e.2)) =
      (alterEntries key (fun _ => value) xs).map fun e => (e.1, f e.1 e.2) := by
  induction xs with
  | nil => rfl
  | cons x rest ih =>
      simp only [List.map_cons, alterEntries]
      split
      · rfl
      · split
        · simp [ih]
        · next hnot hnot' =>
            rw [String.le_antisymm (String.not_lt.1 hnot') (String.not_lt.1 hnot)]
            rfl

theorem map_insert (t : Table β) (key : String) (value : β) (f : String → β → γ) :
    (t.insert key value).map f = (t.map f).insert key (f key value) :=
  Table.ext (alterEntries_map key value f t.entries).symm

theorem alterEntries_of_lt {key : String} {f : Option β → β} {xs : List (String × β)}
    (h : ∀ e ∈ xs, e.1 < key) : alterEntries key f xs = xs ++ [(key, f none)] := by
  induction xs with
  | nil => rfl
  | cons e rest ih =>
      obtain ⟨he, hrest⟩ := List.forall_mem_cons.1 h
      have hnot : ¬key < e.1 := fun hlt => String.lt_irrefl _ (String.lt_trans he hlt)
      rw [alterEntries, if_neg hnot, if_pos he, ih hrest]
      rfl

/-- At an absent key an entry is added. -/
theorem alterEntries_of_absent {key : String} {f : Option β → β} {xs : List (String × β)}
    (h : xs.lookup key = none) :
    ∃ before after, xs = before ++ after ∧
      alterEntries key f xs = before ++ (key, f none) :: after := by
  induction xs with
  | nil => exact ⟨[], [], rfl, rfl⟩
  | cons e rest ih =>
      have hne : key ≠ e.1 := fun heq => by simp [heq] at h
      rw [alterEntries]
      split
      · exact ⟨[], e :: rest, rfl, rfl⟩
      · next hnot =>
          split
          · rw [lookup_cons_ne hne] at h
            obtain ⟨before, after, rfl, halter⟩ := ih h
            exact ⟨e :: before, after, rfl, by rw [halter, List.cons_append]⟩
          · next hnot' =>
              exact absurd (String.le_antisymm (String.not_lt.1 hnot') (String.not_lt.1 hnot)) hne

/-- A key without the property can be added. -/
theorem filter_insert {p : String → Bool} {t : Table β} {key : String} (value : β)
    (habsent : t.get? key = none) (h : p key = false) :
    (t.insert key value).entries.filter (fun e => p e.1) = t.entries.filter fun e => p e.1 := by
  obtain ⟨before, after, hentries, hadded⟩ :=
    alterEntries_of_absent (f := fun _ => value) habsent
  change (alterEntries key (fun _ => value) t.entries).filter _ = _
  rw [hadded, hentries, List.filter_append, List.filter_append,
    List.filter_cons_of_neg (by simp [h])]

/-- A table is the table of its entries. -/
theorem ofList_entries (t : Table β) : ofList t.entries = t := by
  have hinserted (xs : List (String × β)) (u : Table β)
      (h : (u.entries ++ xs).Pairwise fun a b => a.1 < b.1) :
      (xs.foldl (fun u e => u.insert e.1 e.2) u).entries = u.entries ++ xs := by
    induction xs generalizing u with
    | nil => simp
    | cons e rest ih =>
        have hbefore : ∀ x ∈ u.entries, x.1 < e.1 :=
          fun x hx => (List.pairwise_append.1 h).2.2 x hx e List.mem_cons_self
        have hnext : (u.insert e.1 e.2).entries = u.entries ++ [e] := alterEntries_of_lt hbefore
        rw [List.foldl_cons, ih, hnext, List.append_assoc, List.singleton_append]
        rwa [hnext, List.append_assoc, List.singleton_append]
  exact Table.ext (hinserted t.entries empty t.ascending)

theorem mem_insert {t : Table β} {key : String} {value : β} {e : String × β}
    (h : e ∈ (t.insert key value).entries) : e = (key, value) ∨ e ∈ t.entries := by
  rw [← get?_eq_some_iff, get?_insert] at h
  split at h
  · next hkey => exact .inl (Prod.ext hkey (Option.some.inj h).symm)
  · exact .inr (get?_eq_some_iff.1 h)

theorem mem_ofList {xs : List (String × β)} {e : String × β} (h : e ∈ (ofList xs).entries) :
    e ∈ xs := by
  have hinserted (xs : List (String × β)) (u : Table β)
      (h : e ∈ (xs.foldl (fun u e => u.insert e.1 e.2) u).entries) : e ∈ u.entries ∨ e ∈ xs := by
    induction xs generalizing u with
    | nil => exact .inl h
    | cons x rest ih =>
        rcases ih _ h with h | h
        · rcases mem_insert h with rfl | h
          · exact .inr List.mem_cons_self
          · exact .inl h
        · exact .inr (List.mem_cons_of_mem _ h)
  rcases hinserted xs empty h with h | h
  · cases h
  · exact h

end Table

/-- A set of tickers is determined by what is in it. -/
theorem Tickers.ext_keys {s t : Tickers} (h : ∀ k, k ∈ s.keys ↔ k ∈ t.keys) : s = t := by
  have hget (u : Tickers) (k : String) : u.get? k = some () ↔ k ∈ u.keys :=
    ⟨fun hk => Table.mem_keys_iff.2 ⟨(), hk⟩, fun hk => (Table.mem_keys_iff.1 hk).choose_spec⟩
  refine Table.ext_get? fun k => Option.ext fun ⟨⟩ => ?_
  rw [hget, hget, h]

@[simp] theorem Tickers.mem_keys_addAll {s : Tickers} {tickers : List String} {t : String} :
    t ∈ (s.addAll tickers).keys ↔ t ∈ tickers ∨ t ∈ s.keys := by
  induction tickers generalizing s with
  | nil => simp [addAll]
  | cons ticker rest ih =>
      change t ∈ (addAll (add s ticker) rest).keys ↔ _
      rw [ih, add, Table.insert, Table.mem_keys_alter, List.mem_cons]
      exact or_left_comm.trans or_assoc.symm

end StrategyTree
