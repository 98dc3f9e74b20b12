/-!
# Ordered tables

A table maps text keys to values and lists its entries in ascending key order,
so two tables with the same look-ups are the same table. Keys are ordered by
code points.
-/
namespace StrategyTree

/-- A finite map from text keys, kept as its entries in ascending key order. -/
@[ext]
structure Table (β : Type) where
  entries : List (String × β)
  ascending : entries.Pairwise fun a b => a.1 < b.1

namespace Table

variable {β γ : Type}

instance [DecidableEq β] : DecidableEq (Table β) := fun s t =>
  decidable_of_iff (s.entries = t.entries) (Table.ext_iff).symm

def empty : Table β := ⟨[], .nil⟩

instance : Inhabited (Table β) := ⟨empty⟩
instance : EmptyCollection (Table β) := ⟨empty⟩

def get? (t : Table β) (key : String) : Option β :=
  t.entries.lookup key

def contains (t : Table β) (key : String) : Bool :=
  (t.get? key).isSome

def keys (t : Table β) : List String :=
  t.entries.map Prod.fst

def values (t : Table β) : List β :=
  t.entries.map Prod.snd

def isEmpty (t : Table β) : Bool :=
  t.entries.isEmpty

/-- Replaces the value at `key` in an ascending list by `f` of the value there, if
there is one. -/
def alterEntries (key : String) (f : Option β → β) : List (String × β) → List (String × β)
  | [] => [(key, f none)]
  | (k, v) :: rest =>
      if key < k then (key, f none) :: (k, v) :: rest
      else if k < key then (k, v) :: alterEntries key f rest
      else (k, f (some v)) :: rest

theorem key_of_mem_alterEntries {key : String} {f : Option β → β} {xs : List (String × β)}
    {e : String × β} (h : e ∈ alterEntries key f xs) : e.1 = key ∨ ∃ x ∈ xs, x.1 = e.1 := by
  induction xs with
  | nil => simp_all [alterEntries]
  | cons x rest ih =>
      simp only [alterEntries] at h
      split at h
      · grind
      · split at h <;> grind

theorem alterEntries_ascending (key : String) (f : Option β → β) {xs : List (String × β)}
    (h : xs.Pairwise fun a b => a.1 < b.1) :
    (alterEntries key f xs).Pairwise fun a b => a.1 < b.1 := by
  induction xs with
  | nil => simp [alterEntries]
  | cons x rest ih =>
      obtain ⟨hx, hr⟩ := List.pairwise_cons.1 h
      simp only [alterEntries]
      split
      · next hlt =>
          refine List.pairwise_cons.2 ⟨fun e he => ?_, h⟩
          rcases List.mem_cons.1 he with rfl | he
          · exact hlt
          · exact String.lt_trans hlt (hx e he)
      · split
        · next hlt =>
            refine List.pairwise_cons.2 ⟨fun e he => ?_, ih hr⟩
            rcases key_of_mem_alterEntries he with he | ⟨y, hy, he⟩
            · exact he ▸ hlt
            · exact he ▸ hx y hy
        · exact List.pairwise_cons.2 ⟨hx, hr⟩

/-- Sets the value at `key` to `f` of the present value, which may be absent. -/
def alter (t : Table β) (key : String) (f : Option β → β) : Table β :=
  ⟨alterEntries key f t.entries, alterEntries_ascending key f t.ascending⟩

def insert (t : Table β) (key : String) (value : β) : Table β :=
  t.alter key fun _ => value

/-- The table of a list of entries, where a later entry wins over an earlier one. -/
def ofList (xs : List (String × β)) : Table β :=
  xs.foldl (fun t e => t.insert e.1 e.2) empty

/-- Applies `f` to every entry and keeps the keys. -/
def map (f : String → β → γ) (t : Table β) : Table γ :=
  ⟨t.entries.map fun e => (e.1, f e.1 e.2),
    List.pairwise_map.2 t.ascending⟩

end Table

/-- A set of tickers in ascending order. -/
abbrev Tickers := Table Unit

namespace Tickers

def add (s : Tickers) (ticker : String) : Tickers :=
  s.insert ticker ()

def addAll (s : Tickers) (tickers : List String) : Tickers :=
  tickers.foldl add s

end Tickers
end StrategyTree
